-- Moves of the recorder on a store in memory. The memo changes nothing: each
-- move ends well and leaves the store that the plain insert leaves.
import LayoutGraph.Proofs.Ledger.Field
import LayoutGraph.Proofs.Recorder.Agreement
import LayoutGraph.Proofs.Store.Memory

namespace LayoutGraph

open Chain Recording

variable {r : Recorder Memory}

/-! ## Moves as plain inserts -/

theorem ask_memory {α : Type} {request : Request α} {reply : α} {m : Memory}
    (h : r.store.answer request = .ok (reply, m)) :
    ask request r = .ok reply { r with store := m } :=
  ask_of_ok (ofStep_ok_iff.mpr h)

theorem names_symbol {m : Memory} {key : SymbolKey} {id : SymbolId}
    (h : Holds m (.symbol key id)) : m.symbolIndex.find? key = some id :=
  (Memory.holds_iff m (.symbol key id)).mp h

theorem names_field {m : Memory} {key : FieldKey} {id : FieldId}
    (h : Holds m (.field key id)) : m.fieldIndex.find? key = some id :=
  (Memory.holds_iff m (.field key id)).mp h

theorem findSymbol_memory (hr : Agrees r) (key : SymbolKey) :
    ∃ t, findSymbol key r = .ok (r.store.symbolIndex.find? key) t ∧ t.store = r.store := by
  rw [findSymbol_eq]
  cases hmemo : r.memo.symbols.find? key with
  | some id =>
    rw [names_symbol (hr.symbols key id hmemo)]
    exact ⟨r, rfl, rfl⟩
  | none =>
    dsimp only
    rw [bind_of_ok (ask_memory rfl)]
    cases r.store.symbolIndex.find? key <;> exact ⟨_, rfl, rfl⟩

theorem findField_memory (hr : Agrees r) (key : FieldKey) :
    ∃ t, findField key r = .ok (r.store.fieldIndex.find? key) t ∧ t.store = r.store := by
  rw [findField_eq]
  cases hmemo : r.memo.fields.find? key with
  | some id =>
    rw [names_field (hr.fields key id hmemo)]
    exact ⟨r, rfl, rfl⟩
  | none =>
    dsimp only
    rw [bind_of_ok (ask_memory rfl)]
    cases r.store.fieldIndex.find? key <;> exact ⟨_, rfl, rfl⟩

theorem recover_of_ok {ι : Type} (taken : TakenKey) (raw : ι → Int)
    (again : Recording Memory (Option ι)) {request : Request (Inserted ι)} {inserted : Inserted ι}
    {m : Recorder Memory} (h : ask request r = .ok inserted m) :
    ∃ t, recover taken raw (ask request) again r = .ok inserted t ∧ t.store = m.store := by
  unfold recover
  rw [h]
  cases inserted <;> exact ⟨_, rfl, rfl⟩

theorem origin_memory (name : String) (littleEndian : Bool) :
    ∃ t, origin name littleEndian r = .ok (r.store.insertOrigin name littleEndian).1.id t ∧
      t.store = (r.store.insertOrigin name littleEndian).2 := by
  unfold origin
  rw [bind_of_ok (ask_memory rfl)]
  cases hfind : r.store.originIndex.find? name with
  | some id =>
    unfold Memory.insertOrigin
    rw [hfind]
    exact ⟨_, rfl, rfl⟩
  | none =>
    have hask : ask (.insertOrigin name littleEndian) r = _ := ask_memory rfl
    obtain ⟨t, ht, hstore⟩ :=
      recover_of_ok ⟨"origin", name⟩ OriginId.raw (ask (.findOrigin name)) hask
    exact ⟨t, bind_of_ok ht, hstore⟩

theorem symbol_memory (hr : Agrees r) (row : NewSymbol) :
    ∃ t, symbol row r = .ok (r.store.insertSymbol row).1 t ∧
      t.store = (r.store.insertSymbol row).2 := by
  obtain ⟨m, hfind, hm⟩ := findSymbol_memory hr row.key
  unfold symbol
  rw [bind_of_ok hfind]
  cases hindex : r.store.symbolIndex.find? row.key with
  | some id =>
    rw [Memory.insertSymbol_of_some hindex]
    exact ⟨_, rfl, hm⟩
  | none =>
    rcases hinsert : r.store.insertSymbol row with ⟨inserted, after⟩
    have hask : ask (.insertSymbol row) m = .ok inserted { m with store := after } :=
      ask_memory (by rw [hm]; exact congrArg Except.ok hinsert)
    obtain ⟨t, ht, hstore⟩ :=
      recover_of_ok ⟨"symbol", row.key.text⟩ SymbolId.raw (ask (.findSymbol row.key)) hask
    dsimp only
    rw [bind_of_ok ht]
    cases inserted <;> exact ⟨_, rfl, hstore⟩

theorem field_memory (hr : Agrees r) (row : NewField) :
    ∃ t, field row r = .ok (r.store.insertField row).1 t ∧
      t.store = (r.store.insertField row).2 := by
  obtain ⟨m, hfind, hm⟩ := findField_memory hr row.key
  unfold field
  rw [bind_of_ok hfind]
  cases hindex : r.store.fieldIndex.find? row.key with
  | some id =>
    rw [Memory.insertField_of_some hindex]
    exact ⟨_, rfl, hm⟩
  | none =>
    rcases hinsert : r.store.insertField row with ⟨inserted, after⟩
    have hask : ask (.insertField row) m = .ok inserted { m with store := after } :=
      ask_memory (by rw [hm]; exact congrArg Except.ok hinsert)
    obtain ⟨t, ht, hstore⟩ :=
      recover_of_ok ⟨"field", row.key.text⟩ FieldId.raw (ask (.findField row.key)) hask
    dsimp only
    rw [bind_of_ok ht]
    cases inserted <;> exact ⟨_, rfl, hstore⟩

theorem enumerator_memory (owner : SymbolId) (name : String) (value : Int) :
    ∃ t, enumerator owner name value r = .ok () t ∧
      t.store = (r.store.insertEnumerator owner name value).2 := by
  rcases hinsert : r.store.insertEnumerator owner name value with ⟨inserted, after⟩
  have hask : ask (.insertEnumerator owner name value) r = .ok inserted { r with store := after } :=
    ask_memory (congrArg Except.ok hinsert)
  unfold enumerator
  rw [hask]
  cases inserted <;> exact ⟨_, rfl, rfl⟩

/-- A key that the pass has written already is in the index, so an insert would change nothing. -/
theorem symbolId_memory (hr : Agrees r) (setting : Setting) (key : SymbolKey) :
    let row : NewSymbol := ⟨setting.origin, key.name, key.byteSize⟩
    ∃ t, symbolId setting key r = .ok (r.store.insertSymbol row).1.id t ∧
      t.store = (r.store.insertSymbol row).2 := by
  intro row
  rw [symbolId_eq]
  cases hmemo : r.memo.symbols.find? key with
  | some id =>
    have hfind : r.store.symbolIndex.find? row.key = some id :=
      names_symbol (hr.symbols key id hmemo)
    rw [Memory.insertSymbol_of_some hfind]
    exact ⟨r, rfl, rfl⟩
  | none =>
    obtain ⟨t, ht, hstore⟩ := symbol_memory hr row
    exact ⟨t, bind_of_ok ht, hstore⟩

theorem writeDimensions_memory (list : ListId) (extents : List Nat) :
    ∃ t, writeDimensions list extents r = .ok ⟨⟩ t ∧
      t.store = Memory.withAxes list 0 extents r.store := by
  unfold writeDimensions
  generalize 0 = order
  induction extents generalizing order r with
  | nil => exact ⟨r, rfl, rfl⟩
  | cons extent rest ih =>
    let next : Recorder Memory :=
      { r with store := (r.store.insertDimension list order extent).2 }
    have hone : (do
        let _ ← ask (.insertDimension list order extent) : Recording Memory Unit) r = .ok () next :=
      bind_of_ok (ask_memory rfl)
    obtain ⟨t, ht, hstore⟩ := ih (r := next) (order + 1)
    rw [List.zipIdx_cons]
    refine ⟨t, ?_, hstore⟩
    exact Eq.trans (bind_of_ok hone) ht

end LayoutGraph
