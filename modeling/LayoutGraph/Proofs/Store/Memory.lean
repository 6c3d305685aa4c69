-- The store in memory has no faults: an index only ever gains keys that it
-- did not have.
import LayoutGraph.Proofs.Store.Faultless
import LayoutGraph.Store.Memory

namespace LayoutGraph.Memory

open Chain

/-! ## Inserts -/

theorem insertSymbol_of_some {m : Memory} {row : NewSymbol} {id : SymbolId}
    (h : m.symbolIndex.find? row.key = some id) : m.insertSymbol row = (.existing id, m) := by
  unfold insertSymbol
  rw [h]

theorem insertField_of_some {m : Memory} {row : NewField} {id : FieldId}
    (h : m.fieldIndex.find? row.key = some id) : m.insertField row = (.existing id, m) := by
  unfold insertField
  rw [h]

theorem insertOrigin_lists (m : Memory) (name : String) (littleEndian : Bool) :
    (m.insertOrigin name littleEndian).2.lists = m.lists := by
  unfold insertOrigin
  split <;> rfl

theorem insertSymbol_lists (m : Memory) (row : NewSymbol) :
    (m.insertSymbol row).2.lists = m.lists := by
  unfold insertSymbol
  split <;> rfl

theorem insertField_lists (m : Memory) (row : NewField) :
    (m.insertField row).2.lists = m.lists := by
  unfold insertField
  split <;> rfl

theorem insertField_axes (m : Memory) (row : NewField) :
    (m.insertField row).2.dimensionIndex = m.dimensionIndex := by
  unfold insertField
  split <;> rfl

theorem insertEnumerator_lists (m : Memory) (symbol : SymbolId) (name : String) (value : Int) :
    (m.insertEnumerator symbol name value).2.lists = m.lists := by
  unfold insertEnumerator
  split <;> rfl

/-- The indexes name the row of the holding. -/
def Names (m : Memory) : Holding → Prop
  | .origin name id => m.originIndex.find? name = some id
  | .symbol key id => m.symbolIndex.find? key = some id
  | .field key id => m.fieldIndex.find? key = some id
  | .enumerator key id => m.enumeratorIndex.find? key = some id

theorem insertEnumerator_of_some {m : Memory} {key : EnumeratorKey} {id : EnumeratorId}
    (h : m.enumeratorIndex.find? key = some id) (value : Int) :
    m.insertEnumerator key.symbol key.name value = (.existing id, m) := by
  unfold insertEnumerator
  split
  · rename_i heq
    rw [heq] at h
    cases h
    rfl
  · rename_i heq
    rw [heq] at h
    cases h

theorem insertEnumerator_existing_iff {m : Memory} {key : EnumeratorKey} {id : EnumeratorId}
    {value : Int} :
    m.insertEnumerator key.symbol key.name value = (.existing id, m) ↔
      m.enumeratorIndex.find? key = some id := by
  refine ⟨fun h => ?_, fun h => insertEnumerator_of_some h value⟩
  unfold insertEnumerator at h
  split at h
  · rename_i heq
    cases h
    exact heq
  · cases h

theorem holds_iff (m : Memory) (held : Holding) : Holds m held ↔ m.Names held := by
  cases held with
  | origin name id => simp [Holds, Names, Store.serve, ofStep_ok_iff, answer]
  | symbol key id => simp [Holds, Names, Store.serve, ofStep_ok_iff, answer]
  | field key id => simp [Holds, Names, Store.serve, ofStep_ok_iff, answer]
  | enumerator key id =>
    simp [Holds, Names, Store.serve, ofStep_ok_iff, answer, insertEnumerator_existing_iff]

theorem find?_insert_of_some {κ ι : Type} [DecidableEq κ] {index : Index κ ι} {key other : κ}
    {id new : ι} (h : index.find? other = some id) (absent : index.find? key = none) :
    (index.insert key new).find? other = some id := by
  rw [Index.find?_insert]
  split
  · rename_i heq
    rw [heq, absent] at h
    cases h
  · exact h

/-- A request of an index adds to it under a key that was not there, and so hides no key. -/
theorem names_lasts {α : Type} (request : Request α) {m n : Memory} {reply : α} {held : Holding}
    (h : m.answer request = .ok (reply, n)) (hm : m.Names held) : n.Names held := by
  cases request with
  | insertOrigin name littleEndian =>
    simp only [answer, Except.ok.injEq, insertOrigin] at h
    split at h <;> cases h
    · exact hm
    · rename_i habsent
      cases held <;> first | exact hm | exact find?_insert_of_some hm habsent
  | insertSymbol row =>
    simp only [answer, Except.ok.injEq, insertSymbol] at h
    split at h <;> cases h
    · exact hm
    · rename_i habsent
      cases held <;> first | exact hm | exact find?_insert_of_some hm habsent
  | insertField row =>
    simp only [answer, Except.ok.injEq, insertField] at h
    split at h <;> cases h
    · exact hm
    · rename_i habsent
      cases held <;> first | exact hm | exact find?_insert_of_some hm habsent
  | insertEnumerator symbol name value =>
    simp only [answer, Except.ok.injEq, insertEnumerator] at h
    split at h <;> cases h
    · exact hm
    · rename_i habsent
      cases held <;> first | exact hm | exact find?_insert_of_some hm habsent
  | insertDimension list order extent =>
    simp only [answer, Except.ok.injEq, insertDimension] at h
    split at h <;> cases h <;> cases held <;> exact hm
  | allocateList =>
    simp only [answer, allocateList, ListCounter.next] at h
    split at h <;> cases h
    cases held <;> exact hm
  | retargetFields old new =>
    cases h
    cases held <;> exact hm
  | setFieldType field type =>
    cases h
    cases held <;> exact hm
  | findOrigin _ | findSymbol _ | findField _ | symbolById _ | fieldById _ | symbolsNamed _
  | snapshot | commit =>
    cases h
    exact hm

theorem names_of_insert {α : Type} (request : Request α) {m n : Memory} {reply : α}
    {held : Holding} (h : m.answer request = .ok (reply, n))
    (hheld : Holding.ofInsert request reply = some held) : n.Names held := by
  cases request <;> simp only [Holding.ofInsert, reduceCtorEq, Option.some.injEq] at hheld
  case insertOrigin name littleEndian =>
    subst hheld
    simp only [answer, Except.ok.injEq, insertOrigin] at h
    split at h <;> cases h
    · assumption
    · simp [Names, Index.find?_insert, Inserted.id]
  case insertSymbol row =>
    subst hheld
    simp only [answer, Except.ok.injEq, insertSymbol] at h
    split at h <;> cases h
    · assumption
    · simp [Names, Index.find?_insert, Inserted.id]
  case insertField row =>
    subst hheld
    simp only [answer, Except.ok.injEq, insertField] at h
    split at h <;> cases h
    · assumption
    · simp [Names, Index.find?_insert, Inserted.id]
  case insertEnumerator symbol name value =>
    subst hheld
    simp only [answer, Except.ok.injEq, insertEnumerator] at h
    split at h <;> cases h
    · assumption
    · simp [Names, Index.find?_insert, Inserted.id]

theorem allocateList_of_lt {m : Memory} (h : m.lists.last < ListCounter.greatest) :
    m.allocateList = .ok (⟨m.lists.last + 1⟩, { m with lists := ⟨m.lists.last + 1⟩ }) := by
  unfold allocateList ListCounter.next
  rw [if_neg (by omega)]
  rfl

/-- Only the list counter can fail. -/
theorem answer_error {α : Type} {request : Request α} {m : Memory} {e : Failure}
    (h : m.answer request = .error e) : e = .overflow .add := by
  cases request <;> simp only [answer, reduceCtorEq] at h
  case allocateList =>
    unfold allocateList ListCounter.next at h
    split at h <;> cases h
    rfl

instance : Faultless Memory where
  graph := Memory.graph
  lists := Memory.lists
  commit _ := rfl
  findOrigin h := by
    have h := ofStep_ok_iff.mp h
    simp only [answer, Except.ok.injEq, Prod.mk.injEq] at h
    exact h.2.symm
  findSymbol h := by
    have h := ofStep_ok_iff.mp h
    simp only [answer, Except.ok.injEq, Prod.mk.injEq] at h
    exact h.2.symm
  findField h := by
    have h := ofStep_ok_iff.mp h
    simp only [answer, Except.ok.injEq, Prod.mk.injEq] at h
    exact h.2.symm
  insert h hheld := (holds_iff _ _).mpr (names_of_insert _ (ofStep_ok_iff.mp h) hheld)
  lasts request m held h := by
    rw [holds_iff] at h ⊢
    exact left_ofStep (P := fun n : Memory => n.Names held) h fun _ _ heq => names_lasts _ heq h
  noConflict h := by
    cases answer_error (ofStep_error_iff.mp h).1
  allocate m h := ⟨_, _, ofStep_ok_iff.mpr (allocateList_of_lt h), rfl, rfl⟩

end LayoutGraph.Memory
