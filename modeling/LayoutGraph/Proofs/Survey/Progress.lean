-- States of a walk: the moves that change one, which entries a state binds,
-- and what a later state keeps of an earlier one.
import LayoutGraph.Proofs.Ledger.Table
import LayoutGraph.Survey.Walk

namespace LayoutGraph.Survey

/-! ## Moves -/

namespace Progress

def push (p : Progress) (s : Step) : Progress := { p with steps := p.steps.push s }

/-- The constants of an enumeration are written under a symbol. -/
def pushConstants (p : Progress) (key : SymbolKey) (constants : List Constant) : Progress :=
  constants.foldl (fun p c => p.push (.enumerator key c)) p

/-- The symbol of `void` is written, if it was not. -/
def withVoid (p : Progress) : Progress :=
  if p.voidWritten then p else { p.push (.symbol voidKey) with voidWritten := true }

def visit (p : Progress) (id : EntryId) (e : Entry) : Progress := p.push (.visit id e.shownName)

/-- The entry's symbol is written, and its needs are still being walked. -/
def enter (p : Progress) (id : EntryId) (e : Entry) (key : SymbolKey) : Progress :=
  ((p.visit id e).push (.symbol key)).bind e.id ⟨key, false⟩

/-! ## Bindings -/

theorem lookup_filter_ne {l : List (EntryId × Binding)} {id other : EntryId} (h : other ≠ id) :
    (l.filter fun q => q.1 ≠ id).lookup other = l.lookup other := by
  induction l with
  | nil => rfl
  | cons first rest ih =>
    by_cases hfirst : first.1 = id
    · have hne : (other == first.1) = false := beq_eq_false_iff_ne.mpr (hfirst ▸ h)
      rw [List.filter_cons_of_neg (by simpa using hfirst), List.lookup_cons, hne, ih]
    · rw [List.filter_cons_of_pos (by simpa using hfirst), List.lookup_cons, List.lookup_cons, ih]

theorem lookup_bind (p : Progress) (id : EntryId) (b : Binding) (other : EntryId) :
    (p.bind id b).bindings.lookup other =
      if other = id then some b else p.bindings.lookup other := by
  unfold bind
  rw [List.lookup_cons]
  by_cases h : other = id
  · rw [beq_iff_eq.mpr h, if_pos h]
  · rw [beq_eq_false_iff_ne.mpr h, if_neg h]
    exact lookup_filter_ne h

theorem symbol?_bind (p : Progress) (id : EntryId) (b : Binding) (other : EntryId) :
    (p.bind id b).symbol? other = if other = id then some b.symbol else p.symbol? other := by
  unfold symbol?
  rw [lookup_bind]
  split <;> rfl

theorem mem_bindings_iff (p : Progress) (id : EntryId) :
    id ∈ p.bindings.map Prod.fst ↔ ∃ key, p.symbol? id = some key := by
  unfold symbol?
  rw [← Table.lookup_isSome_iff_mem, ← Option.isSome_iff_exists, Option.isSome_map]

theorem mem_pending_bind {p : Progress} {id other : EntryId} {b : Binding} :
    other ∈ (p.bind id b).pending ↔
      other = id ∧ b.complete = false ∨ other ≠ id ∧ other ∈ p.pending := by
  unfold pending bind
  simp only [List.mem_map, List.mem_filter, List.mem_cons, Prod.exists, exists_and_right,
    exists_eq_right]
  constructor
  · rintro ⟨c, hmem | ⟨hmem, hne⟩, hc⟩
    · cases hmem
      exact .inl ⟨rfl, by simpa using hc⟩
    · exact .inr ⟨by simpa using hne, c, hmem, hc⟩
  · rintro (⟨rfl, hb⟩ | ⟨hne, c, hmem, hc⟩)
    · exact ⟨b, .inl rfl, by simpa using hb⟩
    · exact ⟨c, .inr ⟨hmem, by simpa using hne⟩, hc⟩

@[simp] theorem pending_push (p : Progress) (s : Step) :
    (p.push s).pending = p.pending := rfl

@[simp] theorem pending_withVoid (p : Progress) : p.withVoid.pending = p.pending := by
  unfold withVoid
  split <;> rfl

@[simp] theorem pending_pushConstants (p : Progress) (key : SymbolKey)
    (constants : List Constant) : (p.pushConstants key constants).pending = p.pending := by
  unfold pushConstants
  induction constants generalizing p with
  | nil => rfl
  | cons c rest ih => exact ih _

/-- An entry that is bound and not pending has all its needs walked. -/
theorem complete_of_pending {p : Progress} {id : EntryId} {b : Binding}
    (h : p.bindings.lookup id = some b) (hid : id ∉ p.pending) : b.complete = true := by
  cases hb : b.complete with
  | true => rfl
  | false =>
    refine absurd (List.mem_map.mpr ⟨(id, b), List.mem_filter.mpr ⟨?_, ?_⟩, rfl⟩) hid
    · exact Table.mem_of_lookup h
    · simpa using hb

end Progress

/-! ## Later states -/

/-- From `p` to `q` nothing that was done is undone. -/
structure Extends (p q : Progress) : Prop where
  steps : ∀ s ∈ p.steps, s ∈ q.steps
  bound : ∀ id, (p.symbol? id).isSome → (q.symbol? id).isSome
  void : p.voidWritten = true → q.voidWritten = true

namespace Extends

variable {p q r : Progress}

theorem refl (p : Progress) : Extends p p := ⟨fun _ h => h, fun _ h => h, fun h => h⟩

theorem trans (h : Extends p q) (h' : Extends q r) : Extends p r where
  steps s hs := h'.steps s (h.steps s hs)
  bound id hid := h'.bound id (h.bound id hid)
  void hv := h'.void (h.void hv)

theorem push (p : Progress) (s : Step) : Extends p (p.push s) where
  steps _ ht := Array.mem_push_of_mem s ht
  bound _ h := h
  void h := h

theorem bind (p : Progress) (id : EntryId) (b : Binding) : Extends p (p.bind id b) where
  steps _ h := h
  bound other h := by
    rw [Progress.symbol?_bind]
    split
    · rfl
    · exact h
  void h := h

theorem withVoid (p : Progress) : Extends p p.withVoid := by
  unfold Progress.withVoid
  split
  · exact refl p
  · exact ⟨fun t ht => Array.mem_push_of_mem _ ht, fun _ h => h, fun _ => rfl⟩

theorem pushConstants (p : Progress) (key : SymbolKey) (constants : List Constant) :
    Extends p (p.pushConstants key constants) := by
  unfold Progress.pushConstants
  induction constants generalizing p with
  | nil => exact refl p
  | cons c rest ih => exact (push p _).trans (ih _)

theorem enter (p : Progress) (id : EntryId) (e : Entry) (key : SymbolKey) :
    Extends p (p.enter id e key) :=
  ((push p _).trans (push _ _)).trans (bind _ _ _)

end Extends

end LayoutGraph.Survey
