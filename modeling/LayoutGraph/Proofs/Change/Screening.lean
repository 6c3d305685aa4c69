-- Which changes are made. A remap or an override is made exactly when all of
-- its requests are in order: what is checked is all that can go wrong, for no
-- write behind the checks fails. A change that is refused has written nothing.
import LayoutGraph.Proofs.Change.Overriding

namespace LayoutGraph.Change

open Chain

/-- A change is made exactly when its requests are in order. If it is not made, it says what is
wrong with the first request that offends, and no row is another. -/
structure Screens {α β : Type} (inOrder : List α → Prop) (offends : List α → α → Failure → Prop)
    (g : Graph) (requests : List α) (result : EStateM.Result Failure (Recorder AnyStore) β) :
    Prop where
  accepted : (∃ report t, result = .ok report t) ↔ inOrder requests
  refused : ∀ e t, result = .error e t → t.store.graph = g ∧
    ∃ before a rest, requests = before ++ a :: rest ∧ inOrder before ∧ offends before a e

/-- Where the good end needs requests in order and the bad end excludes them. -/
theorem screens_of_ends {α β : Type} {inOrder : List α → Prop}
    {offends : List α → α → Failure → Prop} {g : Graph} {requests : List α}
    {result : EStateM.Result Failure (Recorder AnyStore) β}
    (ends : Ends (fun _ _ => inOrder requests)
      (fun e t => t.store.graph = g ∧ ∃ before a rest, requests = before ++ a :: rest ∧
        inOrder before ∧ offends before a e) result)
    (excludes : ∀ before a rest e, offends before a e → ¬ inOrder (before ++ a :: rest)) :
    Screens inOrder offends g requests result := by
  cases result with
  | ok report t =>
    constructor
    · exact ⟨fun _ => ends, fun _ => ⟨report, t, rfl⟩⟩
    · intro e t h
      cases h
  | error e t =>
    obtain ⟨same, before, a, rest, rfl, ok, hoffends⟩ := ends
    constructor
    · constructor
      · rintro ⟨report, u, h⟩
        cases h
      · intro h
        exact absurd h (excludes before a rest e hoffends)
    · intro e' u h
      cases h
      exact ⟨same, before, a, rest, rfl, ok, hoffends⟩

/-- On a store in order, in memory or in a database, whose graph is closed, remaps and overrides are
made exactly when their requests are in order; if not, the first request that offends is named and
nothing has changed. -/
theorem changes_are_made_exactly_when_they_are_in_order (s : AnyStore) (sound : s.Sound)
    (closed : s.graph.Closed) :
    (∀ mappings : List Mapping,
      Screens (Remappable s.graph) (Mapping.Offends s.graph) s.graph mappings
        (remap mappings { store := s })) ∧
    ∀ requests : List Override,
      Screens (Overridable s.graph) (Override.Offends s.graph) s.graph requests
        (override requests { store := s }) := by
  constructor
  · intro mappings
    have ends := remap_ends (r := { store := s }) sound mappings
    refine screens_of_ends (ends.mono (fun _ _ h => h.1) ?_) fun _ _ rest _ h => ?_
    · rintro e t ⟨rfl, offends⟩
      exact ⟨rfl, offends⟩
    · exact h.not_remappable rest
  · intro requests
    have ends := override_ends sound closed requests
    refine screens_of_ends (ends.mono (fun _ _ h => h.1) ?_) fun _ _ rest _ h => ?_
    · rintro e t ⟨rfl, offends⟩
      exact ⟨rfl, offends⟩
    · exact h.not_overridable sound.ordered rest

/-- What a change that was refused says. -/
def refused? {α : Type} : EStateM.Result Failure (Recorder AnyStore) α → Option Failure
  | .ok _ _ => none
  | .error e _ => some e

theorem refused?_eq_some {α : Type} {result : EStateM.Result Failure (Recorder AnyStore) α}
    {e : Failure} (h : refused? result = some e) : ∃ t, result = .error e t := by
  unfold refused? at h
  split at h <;> cases h
  exact ⟨_, rfl⟩

/-- Words can become cells. A pair has no width, so nothing is made of a request for it, nor of the
request before it that is in order. -/
theorem words_may_become_cells_and_a_pair_has_no_width :
    let g := wordsInMemory.graph
    let widths : List Override :=
      [⟨"pair", "short", .named "flag"⟩, ⟨"pair", "width", .named "flag"⟩]
    wordsInMemory.Sound ∧ g.Closed ∧ Remappable g [⟨"word", "cell"⟩] ∧ ¬ Overridable g widths ∧
      ∃ t, override widths { store := wordsInMemory } = .error (.unknownField "pair" "width") t ∧
        t.store.graph = g := by
  intro g widths
  obtain ⟨remaps, overrides⟩ := changes_are_made_exactly_when_they_are_in_order wordsInMemory
    sound_wordsInMemory closed_wordsInMemory
  obtain ⟨t, made, -⟩ := made?_eq_some
    (show made? (remap [⟨"word", "cell"⟩] { store := wordsInMemory }) =
      some ([⟨⟨"word", "cell"⟩, ⟨1⟩, 2⟩], wordsTyped ⟨1⟩ ⟨1⟩) by decide +kernel)
  obtain ⟨u, refused⟩ := refused?_eq_some
    (show refused? (override widths { store := wordsInMemory }) =
      some (.unknownField "pair" "width") by decide +kernel)
  refine ⟨sound_wordsInMemory, closed_wordsInMemory, (remaps _).accepted.mp ⟨_, t, made⟩, ?_, u,
    refused, ((overrides widths).refused _ u refused).1⟩
  intro ok
  obtain ⟨report, v, made⟩ := (overrides widths).accepted.mpr ok
  cases made.symm.trans refused

end LayoutGraph.Change
