-- Tables of keyed rows that only grow. An entry whose key is there already
-- is dropped, so the first entry of a key wins and each key has one row.
import Mathlib.Data.List.Nodup

namespace LayoutGraph.Table

variable {κ ν : Type} [DecidableEq κ]

/-- The rows, and behind them the entry if its key is new. -/
def addNew (rows : List (κ × ν)) (entry : κ × ν) : List (κ × ν) :=
  if (rows.lookup entry.1).isSome then rows else rows ++ [entry]

/-- The rows after entries were added one by one. -/
def merge (rows entries : List (κ × ν)) : List (κ × ν) := entries.foldl addNew rows

/-- Each key has one row. -/
def KeysOnce (rows : List (κ × ν)) : Prop := (rows.map Prod.fst).Nodup

/-! ## Keys -/

omit [DecidableEq κ] in
theorem keysOnce_nil : KeysOnce ([] : List (κ × ν)) := List.nodup_nil

theorem lookup_isSome_iff_mem {rows : List (κ × ν)} {key : κ} :
    (rows.lookup key).isSome ↔ key ∈ rows.map Prod.fst := by
  simp [List.lookup_isSome_iff]

theorem lookup_eq_none_iff_not_mem {rows : List (κ × ν)} {key : κ} :
    rows.lookup key = none ↔ key ∉ rows.map Prod.fst := by
  rw [← lookup_isSome_iff_mem, Bool.not_eq_true, Option.isSome_eq_false_iff,
    Option.isNone_iff_eq_none]

theorem lookup_of_mem {rows : List (κ × ν)} {entry : κ × ν} (once : KeysOnce rows)
    (h : entry ∈ rows) : rows.lookup entry.1 = some entry.2 := by
  induction rows with
  | nil => cases h
  | cons first rest ih =>
    obtain ⟨hnot, once⟩ := List.nodup_cons.mp once
    rcases List.mem_cons.mp h with rfl | h
    · exact List.lookup_cons_self
    · have hne : entry.1 ≠ first.1 := fun heq => hnot (heq ▸ List.mem_map_of_mem h)
      rw [List.lookup_cons, beq_eq_false_iff_ne.mpr hne]
      exact ih once h

theorem mem_of_lookup {rows : List (κ × ν)} {key : κ} {value : ν}
    (h : rows.lookup key = some value) : (key, value) ∈ rows := by
  obtain ⟨before, after, rfl, -⟩ := List.lookup_eq_some_iff.mp h
  simp

/-- A key that is there has the one value that its rows can have. -/
theorem lookup_eq_some_iff {rows : List (κ × ν)} {key : κ} {P : ν → Prop}
    (sound : ∀ v, rows.lookup key = some v → P v) (present : ∀ v, P v → key ∈ rows.map Prod.fst)
    (unique : ∀ v w, P v → P w → v = w) (value : ν) :
    rows.lookup key = some value ↔ P value := by
  refine ⟨sound value, fun h => ?_⟩
  obtain ⟨other, hother⟩ := Option.isSome_iff_exists.mp (lookup_isSome_iff_mem.mpr (present _ h))
  rw [hother, unique _ _ (sound other hother) h]

/-! ## Adding -/

theorem addNew_of_mem {rows : List (κ × ν)} {key : κ} {value : ν}
    (h : (rows.lookup key).isSome) : addNew rows (key, value) = rows := if_pos h

theorem addNew_of_new {rows : List (κ × ν)} {key : κ} {value : ν} (h : rows.lookup key = none) :
    addNew rows (key, value) = rows ++ [(key, value)] := if_neg (by simp [h])

theorem exists_addNew (rows : List (κ × ν)) (entry : κ × ν) :
    ∃ added, addNew rows entry = rows ++ added ∧ added ⊆ [entry] := by
  unfold addNew
  split
  · exact ⟨[], (List.append_nil rows).symm, List.nil_subset _⟩
  · exact ⟨[entry], rfl, List.Subset.refl _⟩

theorem lookup_addNew (rows : List (κ × ν)) (entry : κ × ν) (key : κ) :
    (addNew rows entry).lookup key = (rows.lookup key).or ([entry].lookup key) := by
  unfold addNew
  split
  · rename_i hsome
    by_cases heq : key = entry.1
    · subst heq
      obtain ⟨value, hvalue⟩ := Option.isSome_iff_exists.mp hsome
      rw [hvalue]
      rfl
    · have hne : (key == entry.1) = false := beq_eq_false_iff_ne.mpr heq
      rw [List.lookup_cons, hne]
      simp
  · rw [List.lookup_append]

theorem keysOnce_addNew {rows : List (κ × ν)} (h : KeysOnce rows) (entry : κ × ν) :
    KeysOnce (addNew rows entry) := by
  unfold addNew
  split
  · exact h
  · rename_i hnone
    rw [lookup_isSome_iff_mem] at hnone
    unfold KeysOnce
    rw [List.map_append, List.nodup_append]
    refine ⟨h, by simp, ?_⟩
    intro key hkey other hother heq
    rw [List.map_singleton, List.mem_singleton] at hother
    exact hnone (hother ▸ heq ▸ hkey)

/-! ## Merging -/

@[simp] theorem merge_nil (rows : List (κ × ν)) : merge rows [] = rows := rfl

theorem merge_append (rows a b : List (κ × ν)) : merge rows (a ++ b) = merge (merge rows a) b :=
  List.foldl_append

/-- A merge keeps what is there and adds what is new. -/
theorem lookup_merge (rows entries : List (κ × ν)) (key : κ) :
    (merge rows entries).lookup key = (rows.lookup key).or (entries.lookup key) := by
  induction entries generalizing rows with
  | nil => simp
  | cons entry rest ih =>
    have hsplit : (entry :: rest).lookup key = ([entry].lookup key).or (rest.lookup key) := by
      rw [← List.lookup_append, List.singleton_append]
    show (merge (addNew rows entry) rest).lookup key = _
    rw [ih, lookup_addNew, hsplit, Option.or_assoc]

theorem keysOnce_merge {rows : List (κ × ν)} (h : KeysOnce rows) (entries : List (κ × ν)) :
    KeysOnce (merge rows entries) := by
  induction entries generalizing rows with
  | nil => exact h
  | cons entry rest ih => exact ih (keysOnce_addNew h entry)

/-- Entries whose keys are all there add nothing. -/
theorem merge_of_keys {rows entries : List (κ × ν)}
    (h : ∀ entry ∈ entries, entry.1 ∈ rows.map Prod.fst) : merge rows entries = rows := by
  induction entries with
  | nil => rfl
  | cons entry rest ih =>
    obtain ⟨head, others⟩ := List.forall_mem_cons.mp h
    show merge (addNew rows entry) rest = rows
    rw [addNew_of_mem (lookup_isSome_iff_mem.mpr head)]
    exact ih others

theorem mem_of_mem_merge {rows entries : List (κ × ν)} {entry : κ × ν}
    (h : entry ∈ merge rows entries) : entry ∈ rows ∨ entry ∈ entries := by
  induction entries generalizing rows with
  | nil => exact .inl h
  | cons first rest ih =>
    rcases ih h with h | h
    · unfold addNew at h
      split at h
      · exact .inl h
      · rcases List.mem_append.mp h with h | h
        · exact .inl h
        · exact .inr (List.mem_singleton.mp h ▸ List.mem_cons_self)
    · exact .inr (List.mem_cons_of_mem _ h)

theorem mem_keys_merge {rows entries : List (κ × ν)} {key : κ} :
    key ∈ (merge rows entries).map Prod.fst ↔
      key ∈ rows.map Prod.fst ∨ key ∈ entries.map Prod.fst := by
  rw [← lookup_isSome_iff_mem, lookup_merge, Option.isSome_or, Bool.or_eq_true,
    lookup_isSome_iff_mem, lookup_isSome_iff_mem]

/-- Of entries with different keys, a merge adds those whose keys are new. -/
theorem length_merge (rows : List (κ × ν)) {entries : List (κ × ν)} (once : KeysOnce entries) :
    (merge rows entries).length =
      rows.length + (entries.filter fun entry => entry.1 ∉ rows.map Prod.fst).length := by
  induction entries generalizing rows with
  | nil => rfl
  | cons entry rest ih =>
    obtain ⟨hnot, once⟩ := List.nodup_cons.mp once
    show (merge (addNew rows entry) rest).length = _
    rw [ih (addNew rows entry) once]
    by_cases h : entry.1 ∈ rows.map Prod.fst
    · rw [addNew_of_mem (lookup_isSome_iff_mem.mpr h), List.filter_cons_of_neg (by simpa using h)]
    · rw [addNew_of_new (lookup_eq_none_iff_not_mem.mpr h),
        List.filter_cons_of_pos (by simpa using h)]
      have same : (rest.filter fun later => later.1 ∉ (rows ++ [entry]).map Prod.fst) =
          rest.filter fun later => later.1 ∉ rows.map Prod.fst := by
        apply List.filter_congr
        intro later hlater
        have hne : later.1 ≠ entry.1 := fun heq => hnot (heq ▸ List.mem_map_of_mem hlater)
        simp [hne]
      rw [same]
      simp only [List.length_append, List.length_cons, List.length_nil]
      omega

/-- Into an empty table, entries come as they would be looked up among themselves. -/
theorem lookup_merge_nil (entries : List (κ × ν)) (key : κ) :
    (merge [] entries).lookup key = entries.lookup key := by
  rw [lookup_merge]
  simp

theorem mem_keys_merge_nil {entries : List (κ × ν)} {key : κ} :
    key ∈ (merge [] entries).map Prod.fst ↔ key ∈ entries.map Prod.fst := by
  rw [← lookup_isSome_iff_mem, lookup_merge_nil, lookup_isSome_iff_mem]

theorem mem_of_mem_merge_nil {entries : List (κ × ν)} {entry : κ × ν}
    (h : entry ∈ merge [] entries) : entry ∈ entries :=
  (mem_of_mem_merge h).resolve_left List.not_mem_nil

/-- Entries that come in parts are found in the first part that has the key. -/
theorem lookup_flatMap {α : Type} (f : α → List (κ × ν)) (parts : List α) (key : κ) :
    (parts.flatMap f).lookup key = parts.findSome? fun part => (f part).lookup key := by
  induction parts with
  | nil => rfl
  | cons part rest ih =>
    rw [List.flatMap_cons, List.lookup_append, List.findSome?_cons, ih]
    cases (f part).lookup key <;> rfl

/-- A table that has the first row of each key has all keys. -/
theorem mem_keys_of_first {α : Type} {rows : List (κ × ν)} {parts : List α}
    {table : α → List (κ × ν)} {key : κ}
    (first : rows.lookup key = parts.findSome? fun part => (table part).lookup key) :
    key ∈ rows.map Prod.fst ↔ ∃ part ∈ parts, key ∈ (table part).map Prod.fst := by
  rw [← lookup_isSome_iff_mem, first, List.findSome?_isSome_iff]
  exact exists_congr fun part => and_congr_right fun _ => lookup_isSome_iff_mem

end LayoutGraph.Table
