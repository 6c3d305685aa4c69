-- Stores in memory that differ in the numbers of their dimension lists alone.
-- Steps that are laid in both leave such stores again: the lists that are
-- taken from then on lie as far apart as the counters do.
import Mathlib.Logic.Function.Basic
import LayoutGraph.Proofs.Recorder.Plain

namespace LayoutGraph

open Recording Survey

/-! ## Other numbers for lists -/

/-- The numbers of lists where those behind `kept` come `taken` later. -/
def ListId.shift (kept taken : Int) (list : ListId) : ListId :=
  if list.raw ≤ kept then list else ⟨list.raw + taken⟩

theorem ListId.shift_injective {kept taken : Int} (h : 0 ≤ taken) :
    Function.Injective (shift kept taken) := by
  intro a b heq
  have hraw := congrArg ListId.raw heq
  unfold shift at hraw
  obtain ⟨a⟩ := a
  obtain ⟨b⟩ := b
  congr 1
  split at hraw <;> split at hraw <;> simp_all <;> omega

def Field.relist (number : ListId → ListId) (f : Field) : Field :=
  { f with dimensions := f.dimensions.map number }

def NewField.relist (number : ListId → ListId) (row : NewField) : NewField :=
  { row with dimensions := row.dimensions.map number }

theorem NewField.relist_of_plain {number : ListId → ListId} {row : NewField}
    (plain : row.dimensions = none) : row.relist number = row := by
  unfold relist
  rw [plain, Option.map_none, ← plain]

def Dimension.relist (number : ListId → ListId) (d : Dimension) : Dimension :=
  { d with list := number d.list }

/-- The graph with other numbers for its lists. -/
def Graph.relist (number : ListId → ListId) (g : Graph) : Graph :=
  { g with
    fields := g.fields.map (Field.relist number)
    dimensions := g.dimensions.map (Dimension.relist number) }

namespace Memory

/-! ## Lists in use -/

/-- No list beyond the counter is in use. -/
structure Bounded (m : Memory) : Prop where
  fields : ∀ f ∈ m.graph.fields, ∀ list, f.dimensions = some list → list.raw ≤ m.lists.last
  dimensions : ∀ d ∈ m.graph.dimensions, d.list.raw ≤ m.lists.last
  axes : ∀ key id, m.dimensionIndex.find? key = some id → key.list.raw ≤ m.lists.last

theorem bounded_empty : Bounded {} where
  fields _ h := by cases h
  dimensions _ h := by cases h
  axes _ _ h := by cases h

namespace Bounded

variable {m : Memory}

theorem moved (h : m.Bounded) {lists : ListCounter} (hle : m.lists.last ≤ lists.last) :
    Bounded { m with lists } where
  fields f hf list hlist := Int.le_trans (h.fields f hf list hlist) hle
  dimensions d hd := Int.le_trans (h.dimensions d hd) hle
  axes key id hid := Int.le_trans (h.axes key id hid) hle

theorem next_unused (h : m.Bounded) (order : Nat) :
    m.dimensionIndex.find? ⟨⟨m.lists.last + 1⟩, order⟩ = none := by
  by_contra hfind
  obtain ⟨id, hid⟩ := Option.ne_none_iff_exists'.mp hfind
  have hle : m.lists.last + 1 ≤ m.lists.last := h.axes _ _ hid
  omega

theorem insertOrigin (h : m.Bounded) (name : String) (littleEndian : Bool) :
    (m.insertOrigin name littleEndian).2.Bounded := by
  unfold Memory.insertOrigin
  split
  · exact h
  · exact ⟨h.fields, h.dimensions, h.axes⟩

theorem insertSymbol (h : m.Bounded) (row : NewSymbol) : (m.insertSymbol row).2.Bounded := by
  unfold Memory.insertSymbol
  split
  · exact h
  · exact ⟨h.fields, h.dimensions, h.axes⟩

theorem insertEnumerator (h : m.Bounded) (symbol : SymbolId) (name : String) (value : Int) :
    (m.insertEnumerator symbol name value).2.Bounded := by
  unfold Memory.insertEnumerator
  split
  · exact h
  · exact ⟨h.fields, h.dimensions, h.axes⟩

theorem insertField (h : m.Bounded) {row : NewField}
    (hrow : ∀ list, row.dimensions = some list → list.raw ≤ m.lists.last) :
    (m.insertField row).2.Bounded := by
  unfold Memory.insertField
  split
  · exact h
  · refine ⟨fun f hf list hlist => ?_, h.dimensions, h.axes⟩
    rcases List.mem_append.mp hf with hf | hf
    · exact h.fields f hf list hlist
    · rw [List.mem_singleton.mp hf] at hlist
      exact hrow list hlist

theorem insertDimension (h : m.Bounded) (list : ListId) (order extent : Nat) :
    (m.insertDimension list order extent).2.Bounded := by
  unfold Memory.insertDimension
  split
  · exact h
  · refine ⟨fun f hf other heq => ?_, fun d hd => ?_, fun key id hid => ?_⟩
    · exact Int.le_trans (h.fields f hf other heq) (Int.le_max_left _ _)
    · rcases List.mem_append.mp hd with hd | hd
      · exact Int.le_trans (h.dimensions d hd) (Int.le_max_left _ _)
      · rw [List.mem_singleton.mp hd]
        exact Int.le_max_right _ _
    · rw [Index.find?_insert] at hid
      split at hid
      · rename_i heq
        rw [heq]
        exact Int.le_max_right _ _
      · exact Int.le_trans (h.axes key id hid) (Int.le_max_left _ _)

theorem withAxes (list : ListId) (extents : List Nat) {order : Nat} (h : m.Bounded) :
    (withAxes list order extents m).Bounded := by
  induction extents generalizing order m with
  | nil => exact h
  | cons extent rest ih => exact ih (h.insertDimension list order extent)

theorem placeField (h : m.Bounded) {row : NewField} (extents : List Nat)
    (hrow : ∀ list, row.dimensions = some list → list.raw ≤ m.lists.last) :
    (m.placeField row extents).Bounded := by
  have hfield := h.insertField hrow
  unfold Memory.placeField
  dsimp only
  split
  · exact hfield.withAxes _ _
  · exact hfield

theorem takeList (h : m.Bounded) (extents : List Nat) :
    (m.takeList extents).2.Bounded ∧
      ∀ list, (m.takeList extents).1 = some list →
        list.raw ≤ (m.takeList extents).2.lists.last := by
  unfold Memory.takeList
  split
  · exact ⟨h, nofun⟩
  · refine ⟨h.moved (Int.le_add_one (Int.le_refl _)), fun list hlist => ?_⟩
    cases hlist
    exact Int.le_refl _

variable {setting : Setting}

theorem intern (h : m.Bounded) (keys : List SymbolKey) : (m.intern setting keys).Bounded := by
  induction keys generalizing m with
  | nil => exact h
  | cons key rest ih => exact ih (h.insertSymbol _)

theorem lay (h : m.Bounded) (step : Step) : (m.lay setting step).Bounded := by
  have hinterned : (m.intern setting step.symbols).Bounded := h.intern step.symbols
  unfold Memory.lay
  cases step with
  | visit | symbol => exact hinterned
  | field step =>
    obtain ⟨htaken, hlist⟩ := hinterned.takeList step.extents
    exact htaken.placeField step.extents hlist
  | enumerator key constant => exact hinterned.insertEnumerator _ _ _

theorem layAll (h : m.Bounded) (steps : List Step) : (m.layAll setting steps).Bounded := by
  induction steps generalizing m with
  | nil => exact h
  | cons step rest ih => exact ih (h.lay step)

end Bounded

/-! ## Stores that are alike -/

/-- The rows of `m` are those of `w`, but for the numbers of the lists behind `kept` and, where
axes were torn off, for the axes. -/
structure Alike (torn : Prop) (kept taken : Int) (m w : Memory) : Prop where
  origins : m.graph.origins = w.graph.origins
  symbols : m.graph.symbols = w.graph.symbols
  fields : m.graph.fields = w.graph.fields.map (Field.relist (.shift kept taken))
  enumerators : m.graph.enumerators = w.graph.enumerators
  dimensions :
    torn ∨ m.graph.dimensions = w.graph.dimensions.map (Dimension.relist (.shift kept taken))
  symbolIndex : m.symbolIndex = w.symbolIndex
  fieldIndex : m.fieldIndex = w.fieldIndex
  enumeratorIndex : m.enumeratorIndex = w.enumeratorIndex
  last : m.lists.last = w.lists.last + taken
  kept : kept ≤ w.lists.last
  bounded : m.Bounded
  bounded' : w.Bounded

namespace Alike

variable {torn : Prop} {kept taken : Int} {m w : Memory} {setting : Setting}

/-- A counter that moved on changes no row. -/
theorem moved (h : w.Bounded) {last : Int} (hle : w.lists.last ≤ last) :
    Alike torn w.lists.last (last - w.lists.last) { w with lists := ⟨last⟩ } w where
  origins := rfl
  symbols := rfl
  fields := by
    refine (List.map_id _).symm.trans (List.map_congr_left fun f hf => ?_)
    unfold Field.relist
    cases hlist : f.dimensions with
    | none => rw [Option.map_none, ← hlist]; rfl
    | some list =>
      rw [Option.map_some, ListId.shift, if_pos (h.fields f hf list hlist), ← hlist]
      rfl
  enumerators := rfl
  dimensions := by
    refine .inr ((List.map_id _).symm.trans (List.map_congr_left fun d hd => ?_))
    unfold Dimension.relist
    rw [ListId.shift, if_pos (h.dimensions d hd)]
    rfl
  symbolIndex := rfl
  fieldIndex := rfl
  enumeratorIndex := rfl
  last := by
    dsimp only
    omega
  kept := Int.le_refl _
  bounded := h.moved hle
  bounded' := h

/-! ### Inserts in both -/

theorem insertSymbol (h : Alike torn kept taken m w) (row : NewSymbol) :
    Alike torn kept taken (m.insertSymbol row).2 (w.insertSymbol row).2 := by
  have hleft := h.bounded.insertSymbol row
  have hright := h.bounded'.insertSymbol row
  unfold Memory.insertSymbol at hleft hright ⊢
  rw [h.symbolIndex] at hleft ⊢
  cases hfind : w.symbolIndex.find? row.key with
  | some id => exact h
  | none =>
    rw [hfind] at hleft hright
    rw [h.symbols] at hleft ⊢
    exact { h with symbols := rfl, symbolIndex := rfl, bounded := hleft, bounded' := hright }

theorem insertEnumerator (h : Alike torn kept taken m w) (symbol : SymbolId) (name : String)
    (value : Int) :
    Alike torn kept taken (m.insertEnumerator symbol name value).2
      (w.insertEnumerator symbol name value).2 := by
  have hleft := h.bounded.insertEnumerator symbol name value
  have hright := h.bounded'.insertEnumerator symbol name value
  unfold Memory.insertEnumerator at hleft hright ⊢
  rw [h.enumeratorIndex] at hleft ⊢
  cases hfind : w.enumeratorIndex.find? ⟨symbol, name⟩ with
  | some id => exact h
  | none =>
    rw [hfind] at hleft hright
    rw [h.enumerators] at hleft ⊢
    exact { h with
      enumerators := rfl, enumeratorIndex := rfl, bounded := hleft, bounded' := hright }

/-- A field with its list renumbered is as new as the field is. -/
theorem insertField (h : Alike torn kept taken m w) (row : NewField)
    (hrow : ∀ list, row.dimensions = some list → list.raw ≤ w.lists.last ∧
      (list.shift kept taken).raw ≤ m.lists.last) :
    (m.insertField (row.relist (.shift kept taken))).1 = (w.insertField row).1 ∧
      Alike torn kept taken (m.insertField (row.relist (.shift kept taken))).2
        (w.insertField row).2 := by
  have hleft : (m.insertField (row.relist (.shift kept taken))).2.Bounded := by
    refine h.bounded.insertField fun list hlist => ?_
    obtain ⟨own, hown, rfl⟩ := Option.map_eq_some_iff.mp hlist
    exact (hrow own hown).2
  have hright := h.bounded'.insertField fun list hlist => (hrow list hlist).1
  have hkey : (row.relist (.shift kept taken)).key = row.key := rfl
  unfold Memory.insertField at hleft hright ⊢
  rw [hkey, h.fieldIndex] at hleft ⊢
  cases hfind : w.fieldIndex.find? row.key with
  | some id => exact ⟨rfl, h⟩
  | none =>
    rw [hfind] at hleft hright
    have hnext : nextId m.graph.fields = nextId w.graph.fields := by
      rw [h.fields, nextId, List.length_map, nextId]
    have hrows :
        m.graph.fields ++ [(row.relist (.shift kept taken)).withId ⟨nextId m.graph.fields⟩] =
        (w.graph.fields ++ [row.withId ⟨nextId w.graph.fields⟩]).map
          (Field.relist (.shift kept taken)) := by
      rw [hnext, h.fields, List.map_append]
      rfl
    dsimp only
    rw [hnext]
    rw [hnext] at hleft hrows
    exact ⟨rfl, { h with fields := hrows, fieldIndex := rfl, bounded := hleft, bounded' := hright }⟩

/-- An axis that is new in both goes behind the others in both. -/
theorem insertDimension (h : Alike torn kept taken m w) {list : ListId} {order : Nat} (extent : Nat)
    (seen : list.raw ≤ w.lists.last) (seen' : (list.shift kept taken).raw ≤ m.lists.last)
    (new : w.dimensionIndex.find? ⟨list, order⟩ = none)
    (new' : m.dimensionIndex.find? ⟨list.shift kept taken, order⟩ = none) :
    Alike torn kept taken (m.insertDimension (list.shift kept taken) order extent).2
      (w.insertDimension list order extent).2 := by
  have hleft := h.bounded.insertDimension (list.shift kept taken) order extent
  have hright := h.bounded'.insertDimension list order extent
  unfold Memory.insertDimension at hleft hright ⊢
  rw [new'] at hleft ⊢
  rw [new] at hright ⊢
  refine { h with dimensions := ?_, last := ?_, kept := ?_, bounded := hleft, bounded' := hright }
  · refine h.dimensions.imp_right fun hrows => ?_
    have hnext : nextId m.graph.dimensions = nextId w.graph.dimensions := by
      rw [hrows, nextId, List.length_map, nextId]
    dsimp only
    rw [hnext, hrows, List.map_append]
    rfl
  · show max m.lists.last _ = max w.lists.last _ + taken
    rw [Int.max_eq_left seen, Int.max_eq_left seen']
    exact h.last
  · exact Int.le_trans h.kept (Int.le_max_left _ _)

theorem withAxes (h : Alike torn kept taken m w) {list : ListId} {order : Nat} (extents : List Nat)
    (seen : list.raw ≤ w.lists.last) (seen' : (list.shift kept taken).raw ≤ m.lists.last)
    (new : ∀ k, order ≤ k → w.dimensionIndex.find? ⟨list, k⟩ = none)
    (new' : ∀ k, order ≤ k → m.dimensionIndex.find? ⟨list.shift kept taken, k⟩ = none) :
    Alike torn kept taken (withAxes (list.shift kept taken) order extents m)
      (withAxes list order extents w) := by
  -- The axes that are still to come are new as long as they lie behind those that are there.
  induction extents generalizing order m w with
  | nil => exact h
  | cons extent rest ih =>
    have hnow := new order (Nat.le_refl _)
    have hnow' := new' order (Nat.le_refl _)
    have hlists := insertDimension_lists (m := w) order extent seen
    have hlists' := insertDimension_lists (m := m) order extent seen'
    refine ih (h.insertDimension extent seen seen' hnow hnow') (by rw [hlists]; exact seen)
      (by rw [hlists']; exact seen') (fun k hk => ?_) (fun k hk => ?_)
    · unfold Memory.insertDimension
      rw [hnow, Index.find?_insert, if_neg (by simp; omega)]
      exact new k (by omega)
    · unfold Memory.insertDimension
      rw [hnow', Index.find?_insert, if_neg (by simp; omega)]
      exact new' k (by omega)

/-! ### Steps in both -/

theorem intern (h : Alike torn kept taken m w) (keys : List SymbolKey) :
    Alike torn kept taken (m.intern setting keys) (w.intern setting keys) := by
  induction keys generalizing m w with
  | nil => exact h
  | cons key rest ih => exact ih (h.insertSymbol _)

theorem symbolOf (h : Alike torn kept taken m w) (key : SymbolKey) :
    m.symbolOf key = w.symbolOf key := by
  unfold Memory.symbolOf
  rw [h.symbolIndex]

/-- A plain field is laid alike. -/
theorem placePlain (h : Alike torn kept taken m w) {row : NewField} (extents : List Nat)
    (plain : row.dimensions = none) :
    Alike torn kept taken (m.placeField row extents) (w.placeField row extents) := by
  obtain ⟨-, hfield⟩ := h.insertField row (by rw [plain]; nofun)
  rw [NewField.relist_of_plain plain] at hfield
  unfold Memory.placeField
  dsimp only
  rw [plain]
  cases (m.insertField row).1 <;> cases (w.insertField row).1 <;> exact hfield

theorem shift_next (h : Alike torn kept taken m w) :
    (ListId.mk (w.lists.last + 1)).shift kept taken = ⟨m.lists.last + 1⟩ := by
  have hkept := h.kept
  have hlast := h.last
  unfold ListId.shift
  rw [if_neg (show ¬ w.lists.last + 1 ≤ kept by omega)]
  congr 1
  show w.lists.last + 1 + taken = _
  omega

/-- The lists that both counters give next are alike, and so is an array field that takes them. -/
theorem placeArray (h : Alike torn kept taken m w) (row : NewField) (extents : List Nat)
    (listed : row.dimensions = some ⟨w.lists.last + 1⟩) :
    Alike torn kept taken
      (placeField { m with lists := ⟨m.lists.last + 1⟩ } (row.relist (.shift kept taken)) extents)
      (placeField { w with lists := ⟨w.lists.last + 1⟩ } row extents) := by
  let next : ListId := ⟨w.lists.last + 1⟩
  have hnext : next.shift kept taken = ⟨m.lists.last + 1⟩ := h.shift_next
  have htaken : Alike torn kept taken { m with lists := ⟨m.lists.last + 1⟩ }
      { w with lists := ⟨w.lists.last + 1⟩ } := { h with
    last := by
      have hlast := h.last
      dsimp only
      omega
    kept := Int.le_trans h.kept (Int.le_add_one (Int.le_refl _))
    bounded := h.bounded.moved (Int.le_add_one (Int.le_refl _))
    bounded' := h.bounded'.moved (Int.le_add_one (Int.le_refl _)) }
  have hseen : ∀ list, row.dimensions = some list → list.raw ≤ w.lists.last + 1 ∧
      (list.shift kept taken).raw ≤ m.lists.last + 1 := by
    intro list hlist
    rw [listed] at hlist
    cases hlist
    rw [hnext]
    exact ⟨Int.le_refl _, Int.le_refl _⟩
  obtain ⟨hreply, hfield⟩ := htaken.insertField _ hseen
  have hrelisted : (row.relist (.shift kept taken)).dimensions = some (next.shift kept taken) :=
    congrArg (Option.map (ListId.shift kept taken)) listed
  unfold placeField
  dsimp only
  rw [hreply, hrelisted, listed]
  cases hinserted : (Memory.insertField { w with lists := ⟨w.lists.last + 1⟩ } row).1 with
  | existing id => exact hfield
  | created id =>
    dsimp only
    refine hfield.withAxes extents ?_ ?_ (fun k _ => ?_) (fun k _ => ?_)
    · simpa only [insertField_lists] using (hseen _ listed).1
    · simpa only [insertField_lists] using (hseen _ listed).2
    · rw [insertField_axes]
      exact h.bounded'.next_unused k
    · rw [insertField_axes, hnext]
      exact h.bounded.next_unused k

theorem layField (h : Alike torn kept taken m w) (step : FieldStep) :
    Alike torn kept taken (m.layField setting step) (w.layField setting step) := by
  have hrow : ∀ dimensions, m.fieldRow setting step (dimensions.map (ListId.shift kept taken)) =
      (w.fieldRow setting step dimensions).relist (.shift kept taken) := by
    intro dimensions
    unfold fieldRow
    rw [h.symbolOf, h.symbolOf]
    rfl
  unfold Memory.layField
  cases hempty : step.extents.isEmpty with
  | true =>
    have hplain := (hrow none).trans (NewField.relist_of_plain rfl)
    rw [Option.map_none] at hplain
    rw [takeList_of_plain hempty, takeList_of_plain hempty]
    dsimp only
    rw [hplain]
    exact h.placePlain step.extents rfl
  | false =>
    have hlisted := hrow (some ⟨w.lists.last + 1⟩)
    rw [Option.map_some, h.shift_next] at hlisted
    rw [takeList_of_array hempty, takeList_of_array hempty]
    dsimp only
    rw [hlisted]
    exact h.placeArray _ step.extents rfl

theorem lay (h : Alike torn kept taken m w) (setting : Setting) (step : Step) :
    Alike torn kept taken (m.lay setting step) (w.lay setting step) := by
  have hinterned : Alike torn kept taken (m.intern setting step.symbols)
      (w.intern setting step.symbols) := h.intern step.symbols
  unfold Memory.lay
  cases step with
  | visit | symbol => exact hinterned
  | field step => exact hinterned.layField step
  | enumerator key constant =>
    unfold layRow
    dsimp only
    rw [hinterned.symbolOf]
    exact hinterned.insertEnumerator _ _ _

theorem layAll (h : Alike torn kept taken m w) (steps : List Step) :
    Alike torn kept taken (m.layAll setting steps) (w.layAll setting steps) := by
  induction steps generalizing m w with
  | nil => exact h
  | cons step rest ih => exact ih (h.lay setting step)

/-! ### The graphs of both -/

theorem graph_eq (h : Alike torn kept taken m w) (whole : ¬ torn) :
    m.graph = w.graph.relist (.shift kept taken) := by
  have hgraph : m.graph = ⟨m.graph.origins, m.graph.symbols, m.graph.fields, m.graph.dimensions,
    m.graph.enumerators⟩ := rfl
  rw [hgraph, h.origins, h.symbols, h.fields, h.dimensions.resolve_left whole, h.enumerators]
  rfl

end Alike

end Memory

end LayoutGraph
