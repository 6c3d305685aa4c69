-- A source that was parsed once is absorbed ever after. The rows that its
-- pass wrote stay held through every history, so a later pass finds each of
-- them and has nothing to write.
import LayoutGraph.Proofs.History
import LayoutGraph.Proofs.Passing
import LayoutGraph.Proofs.Recorder.Idle

namespace LayoutGraph

open Chain Recording Survey

variable {σ : Type} [Store σ]

/-! ## Sources that a store holds -/

/-- The origin and the row of every step of the source are there. -/
structure HoldsSource (s : σ) (source : Source) : Prop where
  origin : ∃ id, Holds s (.origin source.origin id)
  steps : ∀ step ∈ source.steps, HoldsStep s step

theorem HoldsSource.mono {s t : σ} {source : Source} (h : HoldsSource s source)
    (lasts : Outlasts s t) : HoldsSource t source := by
  obtain ⟨id, hid⟩ := h.origin
  exact ⟨⟨id, lasts _ hid⟩, fun step hstep => (h.steps step hstep).mono lasts⟩

variable [Faultless σ]

/-- After a pass that went well the store holds the source. -/
theorem holdsSource_of_write {source : Source} {r t : Recorder σ}
    (h : Pass.write source r = .ok () t) (hr : Agrees r) : HoldsSource t.store source := by
  obtain ⟨-, id, r1, log, r2, horigin, hsteps, hstore, -⟩ := Pass.write_ok h
  obtain ⟨h1, hid⟩ := origin_ok horigin hr
  obtain ⟨-, hheld⟩ := writeSteps_ok hsteps (h1.congr rfl rfl rfl)
  have lasts : Outlasts (r1.withLog log).store r2.store :=
    outlasts_of_ok (fun held => (steady_holds held).writeSteps _ _) hsteps
  rw [hstore]
  exact ⟨⟨id, lasts _ hid⟩, hheld⟩

/-! ## A pass over a source that is held -/

theorem write_idle {source : Source} {r : Recorder σ} (hr : Agrees r)
    (held : HoldsSource r.store source) (well : source.failure? = none)
    (room : (Faultless.lists r.store).last + source.lists ≤ ListCounter.greatest) :
    ∃ t, Pass.write source r = .ok () t ∧ Idle source.lists r t := by
  obtain ⟨id, hid⟩ := held.origin
  obtain ⟨r1, horigin, i1⟩ := origin_idle source.littleEndian hr hid
  have i1 := i1.withLog (r1.log.push (.walking source.topLevel.length source.littleEndian))
  obtain ⟨t, hsteps, i2⟩ := writeSteps_idle ⟨id, source.littleEndian⟩ i1.agrees
    (fun step hstep => (held.steps step hstep).mono i1.outlasts)
    (by rw [i1.lists]; simpa [Source.lists] using room)
  obtain ⟨log, hwrite⟩ := Pass.write_of_steps (by simp [well]) horigin hsteps
  rw [well] at hwrite
  refine ⟨t.withLog log, hwrite, ?_⟩
  simpa [Source.lists] using (i1.trans i2).withLog log

/-! ## Absorption -/

/-- Once a source was parsed, parsing it again at any later time goes well and changes no row,
whatever was done to the store in between, as long as the counter has lists to give. -/
theorem a_parsed_source_is_absorbed_ever_after (source : Source) (start : AnyStore)
    (later : List Action) (first : Session.outcome source start = some .ok)
    (room : ((Session.parse source start).2.after later).lists.last + source.lists ≤
      ListCounter.greatest) :
    let now := (Session.parse source start).2.after later
    ∃ again session, (Session.parse source now).1 = .ok (again, session) ∧ again.status = .ok ∧
      (Session.parse source now).2.graph = now.graph ∧ session.tally.symbolsCreated = 0 ∧
      session.tally.fieldsCreated = 0 ∧ session.tally.enumeratorsCreated = 0 ∧
      session.tally.conflictsRecovered = 0 := by
  obtain ⟨t, hwrite, hstore⟩ := Session.outcome_eq_ok first
  rw [hstore] at room ⊢
  intro now
  have hheld : HoldsSource now source :=
    (holdsSource_of_write hwrite (agrees_start start)).mono fun held h =>
      AnyStore.holds_after h later
  obtain ⟨u, hagain, idle⟩ := write_idle (agrees_start now) hheld (Pass.write_ok hwrite).1 room
  rw [Session.parse_of_ok hagain]
  exact ⟨_, _, rfl, rfl, idle.graph, idle.tally.symbols, idle.tally.fields,
    idle.tally.enumerators, idle.tally.conflicts⟩

/-- A struct with an array of bytes and a pointer to itself. -/
def ring : Source where
  origin := "ring.o"
  littleEndian := true
  topLevel := [⟨1⟩]
  find? id :=
    if id = ⟨1⟩ then some ⟨id, some "ring", some 16, .compound .struct
      [⟨some "cells", 0, ⟨2⟩, none, none⟩, ⟨some "next", 8, ⟨3⟩, none, none⟩] false⟩
    else if id = ⟨2⟩ then some ⟨id, none, none, .array ⟨4⟩ [8]⟩
    else if id = ⟨3⟩ then some ⟨id, none, some 8, .pointer (some ⟨1⟩)⟩
    else if id = ⟨4⟩ then some ⟨id, some "byte", some 1, .base⟩
    else none

/-- The bytes of the ring are given another type between its two passes. -/
theorem a_ring_is_absorbed_after_its_bytes_were_remapped :
    let start : AnyStore := .memory {}
    let later : List Action := [.ask (.insertSymbol ⟨⟨1⟩, "octet", 1⟩), .remap [⟨"byte", "octet"⟩]]
    let now := (Session.parse ring start).2.after later
    Session.outcome ring start = some .ok ∧
    now.graph.fields ≠ (Session.parse ring start).2.graph.fields ∧
    ∃ again session, (Session.parse ring now).1 = .ok (again, session) ∧ again.status = .ok ∧
      (Session.parse ring now).2.graph = now.graph ∧ session.tally.symbolsCreated = 0 ∧
      session.tally.fieldsCreated = 0 ∧ session.tally.enumeratorsCreated = 0 ∧
      session.tally.conflictsRecovered = 0 := by
  intro start later now
  have first : Session.outcome ring start = some .ok := by decide +kernel
  refine ⟨first, by decide +kernel, ?_⟩
  exact a_parsed_source_is_absorbed_ever_after ring start later first (by decide +kernel)

end LayoutGraph
