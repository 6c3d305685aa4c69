-- Bindings stay as they are. A typedef of an entry without a name is not bound
-- while that entry is walked, so a member that refers to the typedef walks it
-- once more, inside, and both walks bind it. They agree: the typedef has its
-- own name and the size of the entry in both, and the entry is bound before its
-- members are walked.
import LayoutGraph.Proofs.Growth
import LayoutGraph.Proofs.Ledger.Pass
import LayoutGraph.Proofs.Survey.Held

namespace LayoutGraph

open Chain Survey

namespace Survey

variable {source : Source} {before : List Step} {w : Watched}

/-! ## Surveys -/

theorem held_empty (source : Source) : Held source [] {} where
  leads _ _ h := by cases h
  written _ _ h := by cases h
  void h := by cases h
  bound _ _ := iff_of_false (fun h => by cases h) (fun h => by cases h)
  once := List.nodup_nil
  stable := stable_nil
  settled _ _ h := by cases h

theorem Held.restart (h : Held source before w) :
    Held source (before ++ w.progress.steps.toList) w.restart where
  leads id key hid := (h.leads id key hid).mono (retains_of_bindings rfl)
  written id key hid := wrote_restart.mpr (h.written id key hid)
  void hv := wrote_restart.mpr (h.void hv)
  bound := h.bound
  once := h.once
  stable := h.stable
  settled := h.settled

/-- A listed entry that is passed over leaves all as it was; one that is walked adds its steps, and
leaves nothing pending where it is done. -/
theorem watchTop_held (coherent : source.Coherent) (sized : source.SizedByTargets) (id : EntryId)
    (hw : Held source before w.restart) (done : w.progress.pending = []) :
    (watchTop source id w).1 = none ∧ (watchTop source id w).2 = w ∨
    ∃ r, (watchTop source id w).1 = some r ∧
      Held source (before ++ r.steps.toList) (watchTop source id w).2.restart ∧
      (r.failure = none → (watchTop source id w).2.progress.pending = []) := by
  unfold watchTop
  cases source.entry id with
  | error e =>
    refine .inr ⟨_, rfl, ?_, nofun⟩
    rw [List.append_nil]
    exact hw
  | ok entry =>
    dsimp only
    split
    · exact .inl ⟨rfl, rfl⟩
    · have came := watchResolve_came coherent sized fullRoom (offered_none source _ id) hw
      have same := shadows_watchResolve source fullRoom id none w.restart _ rfl
      cases hwatched : watchResolve source fullRoom id none w.restart with
      | error e v =>
        rw [hwatched] at came
        exact .inr ⟨_, rfl, came.restart, nofun⟩
      | ok key v =>
        rw [hwatched] at came same
        obtain ⟨p, hp, rfl⟩ := onState_eq_ok.mp same.symm
        have pending : v.progress.pending = [] :=
          List.subset_nil.mp (done ▸ (resolve_walks (Nat.le_refl _) hp).pending)
        exact .inr ⟨_, rfl, (came.held.listed id pending).restart, fun _ => pending⟩

/-- The record of a survey, what the survey has written and how much it has bound. -/
theorem watchFrom_held (coherent : source.Coherent) (sized : source.SizedByTargets)
    (ids : List EntryId) (before : List Step) {w : Watched} (hw : Held source before w.restart)
    (done : w.progress.pending = []) :
    ∃ last, Held source (before ++ stepsOf (watchFrom source ids w).1.resolutions) last ∧
      last.progress.steps = #[] ∧ last.events = (watchFrom source ids w).2 ∧
      last.progress.bindings.length = (watchFrom source ids w).1.bound := by
  induction ids generalizing w before with
  | nil => exact ⟨w.restart, by simpa [watchFrom, stepsOf] using hw, rfl, rfl, rfl⟩
  | cons id rest ih =>
    unfold watchFrom
    have htop := watchTop_held coherent sized id hw done
    generalize watchTop source id w = top at htop ⊢
    obtain ⟨resolution, next⟩ := top
    rcases htop with ⟨hnone, hnext⟩ | ⟨r, hsome, hnext, hpending⟩
    · cases hnone
      cases hnext
      exact ih before hw done
    · cases hsome
      dsimp only
      split
      · exact ⟨next.restart, by simpa [stepsOf] using hnext, rfl, rfl, rfl⟩
      · rename_i hfailure
        have hfailure : r.failure = none := by simpa using hfailure
        obtain ⟨last, hlast, hsteps, hrecord⟩ := ih _ hnext (hpending hfailure)
        exact ⟨last, by simpa using hlast, hsteps, hrecord⟩

end Survey

/-! ## The law -/

/-- Where typedefs and qualifiers have no size of their own, an id that a pass has bound to a symbol
is bound and resolved to the same symbol in all the rest of the pass, whatever ends it, and nothing
is pending whenever a listed entry is done. In the store that the pass leaves in memory this symbol
is one row. The record is that of the survey: under watch it finds the same, and the record has as
many ids bound as the survey counts. -/
theorem an_id_keeps_the_symbol_that_it_was_bound_to (source : Source) (coherent : source.Coherent)
    (sized : source.SizedByTargets) :
    let events := (watch source).2
    (watch source).1 = survey source ∧
    (∃ ids : List EntryId, ids.Nodup ∧ ids.length = (survey source).bound ∧
      ∀ id, id ∈ ids ↔ ∃ key, .bound id key ∈ events) ∧
    (∀ before id key after, events = before ++ .bound id key :: after →
      ∀ other, .bound id other ∈ after ∨ .resolved id other ∈ after → other = key) ∧
    (∀ id pending, .listed id pending ∈ events → pending = []) ∧
    ∀ m : Memory, m.Reached → m.lists.last ≤ ListCounter.greatest →
      Session.outcome source m ≠ none → ∀ id key, .bound id key ∈ events →
        ∃! s, s ∈ (Session.parse source m).2.graph.symbols ∧ s.key = key := by
  intro events
  obtain ⟨last, hlast, hsteps, hevents, hcount⟩ :=
    watchFrom_held coherent sized source.topLevel [] (w := {}) (held_empty source) rfl
  have hfindings : (watch source).1 = survey source := watch_findings source
  have hevents : last.events = events := hevents
  refine ⟨hfindings, ⟨last.progress.bindings.map Prod.fst, hlast.once, ?_, fun id => ?_⟩,
    hevents ▸ hlast.stable, hevents ▸ hlast.settled, fun m reached counter returns id key he => ?_⟩
  · rw [List.length_map, ← hfindings]
    exact hcount
  · rw [last.progress.mem_bindings_iff, ← hevents]
    exact exists_congr fun key => (hlast.bound id key).symm
  have hbound : last.progress.symbol? id = some key := (hlast.bound id key).mp (hevents ▸ he)
  have hstep : Step.symbol key ∈ [] ++ stepsOf (watch source).1.resolutions :=
    (wrote_of_no_steps hsteps).mp (hlast.written id key hbound)
  rw [hfindings] at hstep
  obtain ⟨symbol, hsymbol⟩ := parse_holds source (room_of_outcome counter returns) _ hstep
  have sound : (Session.parse source m).2.Sound :=
    (Memory.steady_reached.parse source reached).sound
  obtain ⟨s, hs, hkey, -⟩ := sound.symbols.mem_of_found ((Memory.holds_iff _ _).mp hsymbol)
  refine ⟨s, ⟨hs, hkey⟩, fun other hother => ?_⟩
  exact List.inj_on_of_nodup_map sound.keysOnce.symbols hother.1 hs (hother.2.trans hkey.symm)

/-- A ring of entries without names: its link leads back to the typedef that names it. -/
def knot : Listing :=
  let (name, l) := Listing.declare { origin := "knot.o" }
  let (body, l) := l.declare
  let (link, l) := l.add none (some 8) (.pointer (some name))
  let l := l.define body none (some 8)
    (.compound .struct [⟨some "next", 0, link, none, none⟩] false)
  l.define name (some "knot") none (.typedef (some body))

theorem knot_coherent : knot.toSource.Coherent :=
  ((((Listing.defined_empty _ _).declare.declare.add _ _ _).define _ _ _ _).define _ _ _ _).coherent

theorem knot_sized : knot.toSource.SizedByTargets := by
  intro id e target hfind hkind
  have hmem : (id, e) ∈ knot.entries.pairs := Table.mem_of_lookup hfind
  have hpairs : knot.entries.pairs =
      [(⟨1⟩, ⟨⟨1⟩, some "knot", none, .typedef (some ⟨2⟩)⟩),
        (⟨2⟩, ⟨⟨2⟩, none, some 8, .compound .struct [⟨some "next", 0, ⟨3⟩, none, none⟩] false⟩),
        (⟨3⟩, ⟨⟨3⟩, none, some 8, .pointer (some ⟨1⟩)⟩)] := rfl
  simp only [hpairs, List.mem_cons, Prod.mk.injEq, List.not_mem_nil, or_false] at hmem
  rcases hmem with ⟨-, rfl⟩ | ⟨-, rfl⟩ | ⟨-, rfl⟩
  · rfl
  · rcases hkind with hkind | hkind <;> cases hkind
  · rcases hkind with hkind | hkind <;> cases hkind

/-- The typedef of the knot is bound three times, always to the one symbol. -/
theorem the_knot_is_bound_to_one_symbol :
    let events := (watch knot.toSource).2
    knot.toSource.Coherent ∧ knot.toSource.SizedByTargets ∧
    events.count (.bound ⟨1⟩ ⟨"knot", 8⟩) = 3 ∧ .listed ⟨1⟩ [] ∈ events ∧
    (∀ before id key after, events = before ++ .bound id key :: after →
      ∀ other, .bound id other ∈ after ∨ .resolved id other ∈ after → other = key) ∧
    (∀ id pending, .listed id pending ∈ events → pending = []) ∧
    Session.outcome knot.toSource ({} : Memory) ≠ none ∧
    ∃! s, s ∈ (Session.parse knot.toSource ({} : Memory)).2.graph.symbols ∧ s.key = ⟨"knot", 8⟩ := by
  intro events
  have hcount : events.count (.bound ⟨1⟩ ⟨"knot", 8⟩) = 3 := by decide +kernel
  have hmem : .bound ⟨1⟩ ⟨"knot", 8⟩ ∈ events := List.count_pos_iff.mp (by rw [hcount]; decide)
  have done : .listed ⟨1⟩ [] ∈ events := by decide +kernel
  have returns : Session.outcome knot.toSource ({} : Memory) ≠ none := by decide +kernel
  obtain ⟨-, -, hstable, hlisted, hsymbol⟩ :=
    an_id_keeps_the_symbol_that_it_was_bound_to knot.toSource knot_coherent knot_sized
  exact ⟨knot_coherent, knot_sized, hcount, done, hstable, hlisted, returns,
    hsymbol {} .empty (by decide) returns _ _ hmem⟩

end LayoutGraph
