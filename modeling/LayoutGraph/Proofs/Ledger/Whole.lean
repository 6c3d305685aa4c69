-- Graphs whose lists are whole: each array field has a list of its own that
-- has all of its axes, in order, and no axis is there without a field. A field
-- keeps this where it comes with all axes of a list that nothing uses.
import LayoutGraph.Proofs.Ledger.Field
import LayoutGraph.Proofs.Store.Lists

namespace LayoutGraph.Graph

/-- The axes of a list, in the order of their rows: each with its extent and its place. -/
def axesOf (g : Graph) (list : ListId) : List (Nat × Nat) :=
  (g.dimensions.filter fun d => d.list = list).map fun d => (d.extent, d.order)

/-- No two fields have one list, each axis is in the list of a field, and each list has an axis and
has its axes at the places from zero on. -/
structure Whole (g : Graph) : Prop where
  once : g.fieldLists.Nodup
  owned : ∀ d ∈ g.dimensions, d.list ∈ g.fieldLists
  axes : ∀ list ∈ g.fieldLists, g.extentsOf (some list) ≠ [] ∧
    g.axesOf list = (g.extentsOf (some list)).zipIdx

theorem whole_empty : Whole {} where
  once := List.nodup_nil
  owned _ h := by cases h
  axes _ h := by cases h

theorem extentsOf_congr {g next : Graph} {list : ListId}
    (h : (next.dimensions.filter fun d => d.list = list) =
      g.dimensions.filter fun d => d.list = list) :
    next.extentsOf (some list) = g.extentsOf (some list) := by
  show ((next.dimensions.filter fun d => d.list = list).mergeSort _).map _ = _
  rw [h]
  rfl

theorem mem_fieldLists {g : Graph} {list : ListId} :
    list ∈ g.fieldLists ↔ ∃ f ∈ g.fields, f.dimensions = some list := List.mem_filterMap

namespace Whole

variable {g next : Graph}

/-- Rows may come that are neither array fields nor axes. -/
theorem congr (h : g.Whole) (lists : next.fieldLists = g.fieldLists)
    (dimensions : next.dimensions = g.dimensions) : next.Whole where
  once := lists ▸ h.once
  owned d hd := lists ▸ h.owned d (dimensions ▸ hd)
  axes list hlist := by
    unfold axesOf
    rw [extentsOf_congr (congrArg _ dimensions), dimensions]
    exact h.axes list (lists ▸ hlist)

theorem plain (h : g.Whole) {row : NewField} {id : FieldId}
    (fields : next.fields = g.fields ++ [row.withId id]) (plain : row.dimensions = none)
    (dimensions : next.dimensions = g.dimensions) : next.Whole := by
  refine h.congr ?_ dimensions
  rw [fieldLists_snoc fields, plain]
  exact List.append_nil _

/-- A list without axes is no field's list. -/
theorem not_mem_of_unused (h : g.Whole) {list : ListId}
    (unused : ∀ d ∈ g.dimensions, d.list ≠ list) : list ∉ g.fieldLists := by
  intro hlist
  obtain ⟨hsome, -⟩ := h.axes list hlist
  have hnone : (g.dimensions.filter fun d => d.list = list) = [] := by
    rw [List.filter_eq_nil_iff]
    intro d hd
    simpa using unused d hd
  refine hsome ?_
  show ((g.dimensions.filter fun d => d.list = list).mergeSort _).map _ = []
  rw [hnone, List.mergeSort_nil, List.map_nil]

theorem array (h : g.Whole) {row : NewField} {id : FieldId} {list : ListId}
    {axes : List Dimension} {extents : List Nat}
    (fields : next.fields = g.fields ++ [row.withId id]) (listed : row.dimensions = some list)
    (dimensions : next.dimensions = g.dimensions ++ axes)
    (unused : ∀ d ∈ g.dimensions, d.list ≠ list) (some_extent : extents ≠ [])
    (haxes : (axes.map fun d => (d.list, d.order, d.extent)) =
      (extents.zipIdx 0).map (fun (extent, k) => (list, k, extent))) : next.Whole := by
  have hlists : next.fieldLists = g.fieldLists ++ [list] := by
    rw [fieldLists_snoc fields, listed]
    rfl
  have hnew := h.not_mem_of_unused unused
  have hown := Memory.list_of_axes haxes
  refine ⟨?_, fun d hd => ?_, fun other hother => ?_⟩
  · rw [hlists]
    refine List.nodup_append.mpr ⟨h.once, List.nodup_singleton list, ?_⟩
    rintro other hused _ hsame rfl
    exact hnew (List.mem_singleton.mp hsame ▸ hused)
  · rw [hlists]
    rcases List.mem_append.mp (dimensions ▸ hd) with hd | hd
    · exact List.mem_append_left _ (h.owned d hd)
    · exact List.mem_append_right _ (List.mem_singleton.mpr (hown d hd))
  · rcases List.mem_append.mp (hlists ▸ hother) with hother | hother
    · -- The new axes are none of another list.
      have hsame : (next.dimensions.filter fun d => d.list = other) =
          g.dimensions.filter fun d => d.list = other := by
        have hnone : (axes.filter fun d => d.list = other) = [] := by
          rw [List.filter_eq_nil_iff]
          intro d hd heq
          have hlist : list = other := (hown d hd).symm.trans (by simpa using heq)
          exact hnew (hlist ▸ hother)
        rw [dimensions, List.filter_append, hnone, List.append_nil]
      unfold axesOf
      rw [extentsOf_congr hsame, hsame]
      exact h.axes other hother
    · rw [List.mem_singleton.mp hother, Memory.extentsOf_axes dimensions unused haxes]
      refine ⟨some_extent, ?_⟩
      unfold axesOf
      rw [dimensions, Memory.filter_axes unused hown]
      have hpairs := congrArg (List.map fun t : ListId × Nat × Nat => (t.2.2, t.2.1)) haxes
      simpa [List.map_map, Function.comp_def] using hpairs

end Whole

end LayoutGraph.Graph
