-- Fields in the ledger of a store in memory. An array field takes a list that
-- nothing uses, and its axes are inserted behind it in order, so the list
-- reads as the extents of the field.
import LayoutGraph.Proofs.Ledger.Memory

namespace LayoutGraph.Memory

variable {m : Memory} {l : Ledger}

/-! ## New fields -/

/-- The store with a field of a new key and the axes of its list. -/
def withField (m : Memory) (row : NewField) (axes : List Dimension)
    (dimensionIndex : Index DimensionKey DimensionId) (lists : ListCounter) : Memory :=
  let new := row.withId ⟨nextId m.graph.fields⟩
  { m with
    graph := { m.graph with
      fields := m.graph.fields ++ [new]
      dimensions := m.graph.dimensions ++ axes }
    fieldIndex := m.fieldIndex.insert row.key new.id
    dimensionIndex
    lists }

section

variable {row : NewField} {key : MemberKey} {type : SymbolKey} {extents : List Nat}
  {axes : List Dimension} {index : Index DimensionKey DimensionId} {lists : ListCounter}

theorem withField_graph : (m.withField row axes index lists).graph =
    m.graph ++ { fields := [row.withId ⟨nextId m.graph.fields⟩], dimensions := axes } := by
  simp [withField, Graph.append_def]

/-- A new field whose owner and type are there reads as what was inserted. -/
theorem readField_withField (howner : m.graph.symbolKey? row.owner = some key.owner)
    (hname : row.name = key.name) (htype : m.graph.symbolKey? row.type = some type)
    (hextents : (m.withField row axes index lists).graph.extentsOf row.dimensions = extents) :
    (m.withField row axes index lists).graph.readField (row.withId ⟨nextId m.graph.fields⟩) =
      some (key, row.content type extents) := by
  let new := row.withId ⟨nextId m.graph.fields⟩
  rw [withField_graph] at hextents ⊢
  unfold Graph.readField
  rw [show new.owner = row.owner from rfl, show new.type = row.type from rfl,
    Graph.symbolKey?_append howner, Graph.symbolKey?_append htype,
    show new.dimensions = row.dimensions from rfl, hextents]
  show some ((⟨key.owner, row.name⟩ : MemberKey), _) = some (key, _)
  rw [hname]
  rfl

/-- The field's list is no list in use, and its axes are all that it has. -/
theorem Tells.withField (h : m.Tells l) (howner : m.symbolIndex.find? key.owner = some row.owner)
    (hname : row.name = key.name) (htype : m.symbolIndex.find? type = some row.type)
    (absent : m.fieldIndex.find? row.key = none) (hlast : m.lists.last ≤ lists.last)
    (haxes : ∀ d ∈ axes, m.lists.last < d.list.raw ∧ d.list.raw ≤ lists.last)
    (hindex : ∀ key id, index.find? key = some id → key.list.raw ≤ lists.last)
    (hlist : ∀ list, row.dimensions = some list → list.raw ≤ lists.last)
    (hextents : (m.withField row axes index lists).graph.extentsOf row.dimensions = extents) :
    (m.withField row axes index lists).Tells
      { l with fields := Table.addNew l.fields (key, row.content type extents) } := by
  have hkey : row.key = ⟨row.owner, key.name⟩ := congrArg (FieldKey.mk row.owner) hname
  rw [Table.addNew_of_new (h.field_absent howner (hkey ▸ absent))]
  let new := row.withId ⟨nextId m.graph.fields⟩
  let more : Graph := { fields := [new], dimensions := axes }
  have hgraph : m.graph ++ more = (m.withField row axes index lists).graph := withField_graph.symm
  have hentry : (m.graph ++ more).readField new = some (key, row.content type extents) := by
    rw [hgraph]
    exact readField_withField (h.symbolKey?_of_find howner) hname (h.symbolKey?_of_find htype)
      hextents
  have hreads := h.add_rows more { fields := [(key, row.content type extents)] }
    ⟨rfl, rfl, by simp [more, hentry], rfl⟩ fun d hd => (haxes d hd).1
  rw [hgraph] at hreads
  simp only [Ledger.append_def, List.append_nil] at hreads
  refine { h with
    reads := hreads
    fields := h.fields.snoc new absent rfl
    dimensions := fun d hd => ?_
    axes := hindex
    lists := fun f hf list heq => ?_ }
  · rcases List.mem_append.mp hd with hd | hd
    · exact Int.le_trans (h.dimensions d hd) hlast
    · exact (haxes d hd).2
  · rcases List.mem_append.mp hf with hf | hf
    · exact Int.le_trans (h.lists f hf list heq) hlast
    · rw [List.mem_singleton.mp hf] at heq
      exact hlist list heq

end

/-! ## Axes -/

/-- The store after the extents were inserted as the axes of a list, from `order` on. -/
def withAxes (list : ListId) : (order : Nat) → List Nat → Memory → Memory
  | _, [], m => m
  | order, extent :: rest, m =>
    withAxes list (order + 1) rest (m.insertDimension list order extent).2

theorem insertDimension_lists {list : ListId} (order extent : Nat)
    (seen : list.raw ≤ m.lists.last) :
    (m.insertDimension list order extent).2.lists = m.lists := by
  unfold insertDimension
  split
  · rfl
  · show ListCounter.mk (max m.lists.last list.raw) = m.lists
    rw [Int.max_eq_left seen]

theorem withAxes_lists {list : ListId} (extents : List Nat) {order : Nat} {m : Memory}
    (seen : list.raw ≤ m.lists.last) : (withAxes list order extents m).lists = m.lists := by
  induction extents generalizing order m with
  | nil => rfl
  | cons extent rest ih =>
    have hone := insertDimension_lists order extent seen
    unfold withAxes
    rw [ih (by rw [hone]; exact seen), hone]

/-- Axes that are new come behind the others, and nothing else changes. -/
theorem withAxes_new (list : ListId) (order : Nat) (extents : List Nat) {m : Memory}
    (new : ∀ k, order ≤ k → m.dimensionIndex.find? ⟨list, k⟩ = none)
    (seen : list.raw ≤ m.lists.last) :
    ∃ axes index, withAxes list order extents m =
        { m with
          graph := { m.graph with dimensions := m.graph.dimensions ++ axes }
          dimensionIndex := index } ∧
      (axes.map fun d => (d.list, d.order, d.extent)) =
        (extents.zipIdx order).map (fun (extent, k) => (list, k, extent)) ∧
      ∀ key id, index.find? key = some id →
        key.list = list ∨ m.dimensionIndex.find? key = some id := by
  induction extents generalizing order m with
  | nil => exact ⟨[], m.dimensionIndex, by simp [withAxes], rfl, fun _ _ h => .inr h⟩
  | cons extent rest ih =>
    let row : Dimension := ⟨⟨nextId m.graph.dimensions⟩, list, order, extent⟩
    let next : Memory :=
      { m with
        graph := { m.graph with dimensions := m.graph.dimensions ++ [row] }
        dimensionIndex := m.dimensionIndex.insert ⟨list, order⟩ row.id }
    have hnext : (m.insertDimension list order extent).2 = next := by
      have hlists := insertDimension_lists order extent seen
      unfold insertDimension at hlists ⊢
      rw [new order (Nat.le_refl _)] at hlists ⊢
      exact congrArg (fun lists => { next with lists := lists }) hlists
    have hnew : ∀ k, order + 1 ≤ k → next.dimensionIndex.find? ⟨list, k⟩ = none := by
      intro k hk
      rw [Index.find?_insert, if_neg (by simp; omega)]
      exact new k (by omega)
    obtain ⟨axes, index, hwith, haxes, hindex⟩ := ih _ hnew seen
    refine ⟨row :: axes, index, ?_, ?_, fun key id hid => ?_⟩
    · unfold withAxes
      rw [hnext, hwith]
      simp [next]
    · rw [List.map_cons, haxes, List.zipIdx_cons, List.map_cons]
    · rcases hindex key id hid with h | h
      · exact .inl h
      · rw [Index.find?_insert] at h
        split at h
        · rename_i heq
          exact .inl (by rw [heq])
        · exact .inr h

section

variable {list : ListId} {axes before : List Dimension} {extents : List Nat}

theorem list_of_axes (haxes : (axes.map fun d => (d.list, d.order, d.extent)) =
      (extents.zipIdx 0).map (fun (extent, k) => (list, k, extent))) :
    ∀ d ∈ axes, d.list = list := by
  intro d hd
  have hmem : (d.list, d.order, d.extent) ∈ axes.map fun d => (d.list, d.order, d.extent) :=
    List.mem_map_of_mem hd
  rw [haxes] at hmem
  obtain ⟨x, -, hx⟩ := List.mem_map.mp hmem
  exact (Prod.mk.inj hx).1.symm

/-- Axes that come behind the rows of other lists are all the rows of their own. -/
theorem filter_axes (other : ∀ d ∈ before, d.list ≠ list) (own : ∀ d ∈ axes, d.list = list) :
    ((before ++ axes).filter fun d => d.list = list) = axes := by
  have hbefore : (before.filter fun d => d.list = list) = [] := by
    rw [List.filter_eq_nil_iff]
    intro d hd
    simpa using other d hd
  have hall : (axes.filter fun d => d.list = list) = axes := by
    rw [List.filter_eq_self]
    intro d hd
    simpa using own d hd
  rw [List.filter_append, hbefore, hall, List.nil_append]

/-- Axes that are all rows of their list, and are in order, are read as they are. -/
theorem extentsOf_axes {g : Graph} (dimensions : g.dimensions = before ++ axes)
    (other : ∀ d ∈ before, d.list ≠ list)
    (haxes : (axes.map fun d => (d.list, d.order, d.extent)) =
      (extents.zipIdx 0).map (fun (extent, k) => (list, k, extent))) :
    g.extentsOf (some list) = extents := by
  have horders : axes.map Dimension.order = List.range' 0 extents.length := by
    have h := congrArg (List.map fun t : ListId × Nat × Nat => t.2.1) haxes
    simpa [List.map_map, Function.comp_def] using h
  have hsorted : axes.Pairwise fun a b => decide (a.order ≤ b.order) = true := by
    have h : (axes.map Dimension.order).Pairwise (· ≤ ·) := by
      rw [horders]
      exact List.pairwise_le_range' 1
    simpa [List.pairwise_map] using h
  have hextents : axes.map Dimension.extent = extents := by
    have h := congrArg (List.map fun t : ListId × Nat × Nat => t.2.2) haxes
    simpa [List.map_map, Function.comp_def] using h
  show ((g.dimensions.filter fun d => d.list = list).mergeSort _).map Dimension.extent = extents
  rw [dimensions, filter_axes other (list_of_axes haxes), List.mergeSort_of_pairwise hsorted]
  exact hextents

end

/-! ## Fields with and without axes -/

theorem insertField_of_none {row : NewField} (h : m.fieldIndex.find? row.key = none) :
    m.insertField row =
      (.created ⟨nextId m.graph.fields⟩, m.withField row [] m.dimensionIndex m.lists) := by
  unfold insertField withField
  rw [h]
  simp [NewField.withId]

theorem Tells.insertField (h : m.Tells l) (key : MemberKey) {row : NewField} {type : SymbolKey}
    (howner : m.symbolIndex.find? key.owner = some row.owner) (hname : row.name = key.name)
    (htype : m.symbolIndex.find? type = some row.type) (plain : row.dimensions = none) :
    (m.insertField row).2.Tells
      { l with fields := Table.addNew l.fields (key, row.content type []) } := by
  cases hfind : m.fieldIndex.find? row.key with
  | some id =>
    have hkey : row.key = ⟨row.owner, key.name⟩ := congrArg (FieldKey.mk row.owner) hname
    have hpresent := h.field_present key howner (hkey ▸ hfind)
    rw [insertField_of_some hfind, Table.addNew_of_mem hpresent]
    exact h
  | none =>
    rw [insertField_of_none hfind]
    refine h.withField howner hname htype hfind (Int.le_refl _) (by simp) h.axes
      (by simp [plain]) ?_
    rw [plain]
    rfl

theorem list_unused (seen : ∀ d ∈ m.graph.dimensions, d.list.raw ≤ m.lists.last) :
    ∀ d ∈ m.graph.dimensions, d.list ≠ ⟨m.lists.last + 1⟩ := by
  intro d hd heq
  have hle : d.list.raw ≤ m.lists.last := seen d hd
  rw [heq] at hle
  dsimp only at hle
  omega

/-- The list is taken first, then the field is inserted, then its axes, which are all that the list
has. -/
theorem placeArray (seen : ∀ key id, m.dimensionIndex.find? key = some id →
    key.list.raw ≤ m.lists.last) (row : NewField) (extents : List Nat)
    (absent : m.fieldIndex.find? row.key = none) :
    ∃ axes index,
      withAxes ⟨m.lists.last + 1⟩ 0 extents
        ({ m with lists := ⟨m.lists.last + 1⟩ }.insertField row).2 =
          m.withField row axes index ⟨m.lists.last + 1⟩ ∧
      (axes.map fun d => (d.list, d.order, d.extent)) =
        (extents.zipIdx 0).map (fun (extent, k) => (⟨m.lists.last + 1⟩, k, extent)) ∧
      ∀ key id, index.find? key = some id →
        key.list = ⟨m.lists.last + 1⟩ ∨ m.dimensionIndex.find? key = some id := by
  let list : ListId := ⟨m.lists.last + 1⟩
  let taken : Memory := { m with lists := ⟨m.lists.last + 1⟩ }
  let base : Memory := taken.withField row [] m.dimensionIndex taken.lists
  have hbase : (taken.insertField row).2 = base := by
    rw [insertField_of_none (m := taken) absent]
  have hnew : ∀ k, 0 ≤ k → base.dimensionIndex.find? ⟨list, k⟩ = none := by
    intro k _
    cases hfind : m.dimensionIndex.find? ⟨list, k⟩ with
    | none => exact hfind
    | some id =>
      have hle : m.lists.last + 1 ≤ m.lists.last := seen ⟨list, k⟩ id hfind
      omega
  obtain ⟨axes, index, hwith, haxes, hindex⟩ :=
    withAxes_new _ _ extents hnew (Int.le_refl _)
  refine ⟨axes, index, ?_, haxes, hindex⟩
  rw [hbase, hwith]
  simp [base, taken, Memory.withField]

theorem Tells.insertArray (h : m.Tells l) (key : MemberKey) {row : NewField} {type : SymbolKey}
    (extents : List Nat) (howner : m.symbolIndex.find? key.owner = some row.owner)
    (hname : row.name = key.name) (htype : m.symbolIndex.find? type = some row.type)
    (listed : row.dimensions = some ⟨m.lists.last + 1⟩)
    (absent : m.fieldIndex.find? row.key = none) :
    (withAxes ⟨m.lists.last + 1⟩ 0 extents
        ({ m with lists := ⟨m.lists.last + 1⟩ }.insertField row).2).Tells
      { l with fields := Table.addNew l.fields (key, row.content type extents) } := by
  obtain ⟨axes, index, hwhole, haxes, hindex⟩ := placeArray h.axes row extents absent
  rw [hwhole]
  refine h.withField howner hname htype absent ?_ ?_ ?_ ?_ ?_
  · exact Int.le_add_one (Int.le_refl _)
  · intro d hd
    rw [list_of_axes haxes d hd]
    exact ⟨Int.lt_succ _, Int.le_refl _⟩
  · intro key id hid
    rcases hindex key id hid with heq | hold
    · exact Int.le_of_eq (congrArg ListId.raw heq)
    · exact Int.le_trans (h.axes key id hold) (Int.le_add_one (Int.le_refl _))
  · intro other heq
    rw [listed] at heq
    cases heq
    exact Int.le_refl _
  · rw [listed]
    exact extentsOf_axes rfl (list_unused h.dimensions) haxes

end LayoutGraph.Memory
