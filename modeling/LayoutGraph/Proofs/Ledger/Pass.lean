-- What a pass enters into the ledger of a store in memory: all that its
-- survey yields. What was there before decides only which entries are new,
-- and the pass ends as its survey does.
import LayoutGraph.Proofs.Ledger.Steps
import LayoutGraph.Proofs.Passing
import LayoutGraph.Proofs.Survey.Failing

namespace LayoutGraph

open Chain Recording

namespace Source

/-- How a pass over the source ends where the store does not fail. -/
def status (source : Source) : Status :=
  match source.failure? with
  | none => .ok
  | some e => .ofFailure e

/-- The ledger of the source alone. -/
def ledger (source : Source) : Ledger := Ledger.merge {} source.entries

end Source

theorem origin_enters {r : Recorder Memory} (hr : Agrees r) (name : String) (littleEndian : Bool) :
    ∃ id t, origin name littleEndian r = .ok id t ∧ Holds t.store (.origin name id) ∧
      Enters 0 { origins := [(name, littleEndian)] } r t := by
  obtain ⟨t, ht, hstore⟩ := origin_memory (r := r) name littleEndian
  obtain ⟨hagrees, hheld⟩ := origin_ok ht hr
  refine ⟨_, t, ht, hheld, fun l hl => ?_, ?_, ?_, hagrees⟩
  · rw [hstore]
    exact hl.insertOrigin name littleEndian
  · rw [hstore, Memory.insertOrigin_lists]
    simp
  · exact outlasts_of_ok (fun held => (steady_holds held).origin _ _) ht

/-- A pass enters all of its source, whatever its survey ends with. -/
theorem write_enters {source : Source} {r : Recorder Memory} (hr : Agrees r)
    (room : r.store.lists.last + source.lists ≤ ListCounter.greatest) :
    ∃ t, (Pass.write source r = match source.failure? with
        | some e => .error e t
        | none => .ok () t) ∧ Enters source.lists source.entries r t ∧
      ∀ step ∈ source.steps, HoldsStep t.store step := by
  obtain ⟨id, r1, horigin, hid, e1⟩ := origin_enters hr source.origin source.littleEndian
  have e1 := e1.withLog (r1.log.push (.walking source.topLevel.length source.littleEndian))
  obtain ⟨t, hsteps, e2⟩ := writeSteps_enters ⟨id, source.littleEndian⟩
    e1.agrees hid source.steps (by rw [e1.lists]; simpa [Source.lists] using room)
  obtain ⟨log, hwrite⟩ :=
    Pass.write_of_steps (fun e he => Source.failure?_handled he) horigin hsteps
  have e := (e1.trans e2).withLog log
  rw [Nat.zero_add] at e
  exact ⟨t.withLog log, hwrite, e, (writeSteps_ok hsteps e1.agrees).2⟩

/-- What a call to parse leaves in memory, and how it ends. -/
theorem parse_memory (source : Source) {m : Memory}
    (room : m.lists.last + source.lists ≤ ListCounter.greatest) :
    Session.outcome source m = some source.status ∧
      (∀ l, m.Tells l → (Session.parse source m).2.Tells (l.merge source.entries)) ∧
      (Session.parse source m).2.lists.last = m.lists.last + source.lists := by
  obtain ⟨t, hwrite, e, -⟩ := write_enters (agrees_start m) room
  unfold Session.outcome Session.parse Source.status
  cases hfailure : source.failure? with
  | none =>
    rw [hfailure] at hwrite
    rw [hwrite]
    exact ⟨rfl, e.tells, e.lists⟩
  | some failure =>
    rw [hfailure] at hwrite
    rw [hwrite]
    dsimp only
    rw [if_pos (Source.failure?_handled hfailure)]
    exact ⟨rfl, e.tells, e.lists⟩

/-- A call to parse leaves the rows of all its steps, however it ends. -/
theorem parse_holds (source : Source) {m : Memory}
    (room : m.lists.last + source.lists ≤ ListCounter.greatest) :
    ∀ step ∈ source.steps, HoldsStep (Session.parse source m).2 step := by
  obtain ⟨t, hwrite, -, held⟩ := write_enters (agrees_start m) room
  unfold Session.parse
  cases hfailure : source.failure? with
  | none =>
    rw [hfailure] at hwrite
    rw [hwrite]
    exact held
  | some failure =>
    rw [hfailure] at hwrite
    rw [hwrite]
    dsimp only
    rw [if_pos (Source.failure?_handled hfailure)]
    exact held

/-- A pass that takes more lists than there are ends the program. -/
theorem write_overflows {source : Source} {r : Recorder Memory} (hr : Agrees r)
    (hlast : r.store.lists.last ≤ ListCounter.greatest)
    (full : ListCounter.greatest < r.store.lists.last + source.lists) :
    ∃ t, Pass.write source r = .error (.overflow .add) t := by
  obtain ⟨id, r1, horigin, hid, e⟩ := origin_enters hr source.origin source.littleEndian
  let walking : Log.Event := .walking source.topLevel.length source.littleEndian
  have e := e.withLog (r1.log.push walking)
  have hlists : (r1.withLog (r1.log.push walking)).store.lists.last = r.store.lists.last := by
    simpa using e.lists
  obtain ⟨t, ht⟩ := writeSteps_overflows ⟨id, source.littleEndian⟩ e.agrees hid
    (by rw [hlists]; exact hlast) (by rw [hlists]; exact full)
  have ends := Survey.endsAtFailure_surveyFrom source source.topLevel {}
  have hnote : note walking r1 = .ok () (r1.withLog (r1.log.push walking)) := rfl
  refine ⟨t, ?_⟩
  unfold Pass.write
  rw [bind_of_ok horigin, bind_of_ok hnote]
  exact bind_of_error (Pass.writeResolutions_unhandled source.origin ends rfl ht)

/-- A call to parse that returns, however it ends, had room for all its lists. -/
theorem room_of_outcome {source : Source} {m : Memory}
    (hlast : m.lists.last ≤ ListCounter.greatest) (h : Session.outcome source m ≠ none) :
    m.lists.last + source.lists ≤ ListCounter.greatest := by
  by_contra hroom
  have hfull : ListCounter.greatest < m.lists.last + source.lists := by omega
  obtain ⟨t, hwrite⟩ := write_overflows (agrees_start m) hlast hfull
  refine h ?_
  unfold Session.outcome Session.parse
  rw [hwrite]
  rfl

/-- A parse into an empty store that went well leaves a store that tells the ledger of its source. -/
theorem parse_empty_tells {source : Source} (h : Session.outcome source ({} : Memory) = some .ok) :
    source.failure? = none ∧ (Session.parse source ({} : Memory)).2.Tells source.ledger := by
  have hreturns : Session.outcome source ({} : Memory) ≠ none := by
    rw [h]
    exact Option.some_ne_none _
  have hroom := room_of_outcome (by decide) hreturns
  obtain ⟨-, htells, -⟩ := parse_memory source hroom
  obtain ⟨t, hwrite, -⟩ := Session.outcome_eq_ok h
  exact ⟨(Pass.write_ok hwrite).1, htells {} Memory.tells_empty⟩

/-- A parse into an empty store that went well leaves the ledger of its source. -/
theorem parse_empty {source : Source} (h : Session.outcome source ({} : Memory) = some .ok) :
    source.failure? = none ∧ (Session.parse source ({} : Memory)).2.graph.Reads source.ledger := by
  obtain ⟨hfailure, htells⟩ := parse_empty_tells h
  exact ⟨hfailure, htells.reads⟩

end LayoutGraph
