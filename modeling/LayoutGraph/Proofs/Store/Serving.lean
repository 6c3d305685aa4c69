-- What a store in order answers to the requests of a change: look-ups scan the
-- rows, an insert puts a row behind the others unless its key is there, and a
-- type is changed where the rows are that it names. None of them is refused.
import LayoutGraph.Proofs.Store.Order

namespace LayoutGraph.AnyStore

/-! ## Answers of the store behind the choice -/

theorem served_memory {α : Type} {request : Request α} {m n : Memory} {reply : α}
    (h : m.answer request = .ok (reply, n)) :
    Store.serve request (memory m) = .ok reply (memory n) :=
  serve_memory_ok.mpr ⟨n, ofStep_ok_iff.mpr h, rfl⟩

theorem served_database {α : Type} {request : Request α} {db next : Database} {reply : α}
    (h : db.answer request = .ok (reply, next)) :
    Store.serve request (database db) = .ok reply (database next) :=
  serve_database_ok.mpr ⟨next, ofStep_ok_iff.mpr h, rfl⟩

namespace Sound

open Database (bind_eq_ok checkFits_of checkMayWrite_of checkNames_of ok_bind)
open Mirrors (isSome_originById? isSome_symbolById?)

variable {s : AnyStore}

/-! ## Look-ups -/

theorem findField (h : s.Sound) (key : FieldKey) :
    Store.serve (.findField key) s =
      .ok ((s.graph.fields.find? fun f => f.key = key).map Field.id) s := by
  cases s with
  | memory m =>
    have h : m.Sound := h
    apply served_memory
    show Except.ok (m.fieldIndex.find? key, m) = _
    rw [h.fields.find?_eq key]
    rfl
  | database db => rfl

/-- A size that a symbol has fits its column, so a look-up of it is not refused. -/
theorem findSymbol (h : s.Sound) {key : SymbolKey}
    (known : ∃ p ∈ s.graph.symbols, p.byteSize = key.byteSize) :
    Store.serve (.findSymbol key) s =
      .ok ((s.graph.symbols.find? fun x => x.key = key).map Symbol.id) s := by
  cases s with
  | memory m =>
    have h : m.Sound := h
    apply served_memory
    show Except.ok (m.symbolIndex.find? key, m) = _
    rw [h.symbols.find?_eq key]
    rfl
  | database db =>
    have h : db.Sound := h
    obtain ⟨p, hp, hsize⟩ := known
    have fits : key.byteSize < Database.columnEnd := hsize ▸ h.sizes p hp
    apply served_database
    show (db.findSymbol key).map _ = _
    rw [Database.findSymbol_eq_ok.mpr ⟨fits, rfl⟩]
    rfl

/-! ## Inserts -/

/-- A symbol of a new key goes behind the others. -/
theorem insertSymbol (h : s.Sound) {row : NewSymbol}
    (known : ∃ p ∈ s.graph.symbols, p.byteSize = row.byteSize)
    (origin : ∃ o ∈ s.graph.origins, o.id = row.origin)
    (absent : (s.graph.symbols.find? fun x => x.key = row.key) = none) :
    ∃ id t, Store.serve (.insertSymbol row) s = .ok (.created id) t ∧
      t.graph = { s.graph with symbols := s.graph.symbols ++ [row.withId id] } := by
  cases s with
  | memory m =>
    have h : m.Sound := h
    have hnone : m.symbolIndex.find? row.key = none := by
      rw [h.symbols.find?_eq row.key]
      exact congrArg (Option.map Symbol.id) absent
    let id : SymbolId := ⟨Memory.nextId m.graph.symbols⟩
    let next : Memory := { m with
      graph := { m.graph with symbols := m.graph.symbols ++ [row.withId id] }
      symbolIndex := m.symbolIndex.insert row.key id }
    have inserted : m.insertSymbol row = (.created id, next) := by
      unfold Memory.insertSymbol
      rw [hnone]
    exact ⟨id, memory next, served_memory (congrArg Except.ok inserted), rfl⟩
  | database db =>
    have h : db.Sound := h
    obtain ⟨p, hp, hsize⟩ := known
    have fits : row.byteSize < Database.columnEnd := hsize ▸ h.sizes p hp
    have origin : ∃ o ∈ db.graph.origins, o.id = row.origin := origin
    have absent : (db.graph.symbols.find? fun x => x.key = row.key) = none := absent
    let id : SymbolId := ⟨Database.nextId (db.graph.symbols.map fun s => s.id.raw)⟩
    let next : Database := { db with graph.symbols := db.graph.symbols ++ [row.withId id] }
    have inserted : db.insertSymbol row = .ok (.created id, next) := by
      unfold Database.insertSymbol
      rw [checkFits_of fits, ok_bind, checkMayWrite_of h.mayWrite, ok_bind, absent]
      dsimp only
      rw [checkNames_of (isSome_originById? origin), ok_bind]
      rfl
    exact ⟨id, database next, served_database inserted, rfl⟩

/-- A constant that is there stays as it is. -/
theorem insertEnumerator_found (h : s.Sound) {symbol : SymbolId} {name : String} {e : Enumerator}
    (there : e ∈ s.graph.enumerators) (key : e.key = ⟨symbol, name⟩) (value : Int) :
    Store.serve (.insertEnumerator symbol name value) s = .ok (.existing e.id) s := by
  cases s with
  | memory m =>
    have h : m.Sound := h
    have hfind := h.enumerators.listed e there
    rw [key] at hfind
    exact served_memory (congrArg Except.ok (Memory.insertEnumerator_of_some hfind value))
  | database db =>
    have h : db.Sound := h
    have hfind := h.ordered.enumerators.find?_eq_some.mpr ⟨there, key⟩
    have names : db.Names (.enumerator ⟨symbol, name⟩ e.id) :=
      ⟨h.mayWrite, congrArg (Option.map Enumerator.id) hfind⟩
    exact served_database (Database.insertEnumerator_existing names value)

/-- A constant of a new key goes behind the others. -/
theorem insertEnumerator_new (h : s.Sound) {symbol : SymbolId} {name : String} (value : Int)
    (there : ∃ x ∈ s.graph.symbols, x.id = symbol)
    (absent : ∀ e ∈ s.graph.enumerators, e.key ≠ ⟨symbol, name⟩) :
    ∃ id t, Store.serve (.insertEnumerator symbol name value) s = .ok (.created id) t ∧
      t.graph = { s.graph with
        enumerators := s.graph.enumerators ++ [⟨id, symbol, name, value⟩] } := by
  have hnone : (s.graph.enumerators.find? fun e => e.key = ⟨symbol, name⟩) = none := by
    simpa using absent
  cases s with
  | memory m =>
    have h : m.Sound := h
    have hfind : m.enumeratorIndex.find? ⟨symbol, name⟩ = none := by
      rw [h.enumerators.find?_eq ⟨symbol, name⟩]
      exact congrArg (Option.map Enumerator.id) hnone
    let id : EnumeratorId := ⟨Memory.nextId m.graph.enumerators⟩
    let next : Memory := { m with
      graph := { m.graph with enumerators := m.graph.enumerators ++ [⟨id, symbol, name, value⟩] }
      enumeratorIndex := m.enumeratorIndex.insert ⟨symbol, name⟩ id }
    have inserted : m.insertEnumerator symbol name value = (.created id, next) := by
      unfold Memory.insertEnumerator
      rw [hfind]
    exact ⟨id, memory next, served_memory (congrArg Except.ok inserted), rfl⟩
  | database db =>
    have h : db.Sound := h
    have there : ∃ x ∈ db.graph.symbols, x.id = symbol := there
    have hnone : (db.graph.enumerators.find? fun e => e.key = ⟨symbol, name⟩) = none := hnone
    let id : EnumeratorId := ⟨Database.nextId (db.graph.enumerators.map fun e => e.id.raw)⟩
    let next : Database :=
      { db with graph.enumerators := db.graph.enumerators ++ [⟨id, symbol, name, value⟩] }
    have inserted : db.insertEnumerator symbol name value = .ok (.created id, next) := by
      unfold Database.insertEnumerator
      rw [checkMayWrite_of h.mayWrite, ok_bind, hnone]
      dsimp only
      rw [checkNames_of (isSome_symbolById? there), ok_bind]
      rfl
    exact ⟨id, database next, served_database inserted, rfl⟩

/-! ## Changes of a field's type -/

theorem setFieldType (h : s.Sound) {field : FieldId} {type : SymbolId}
    (found : s.graph.HasField field) (there : ∃ x ∈ s.graph.symbols, x.id = type) :
    ∃ t, Store.serve (.setFieldType field type) s = .ok true t ∧
      t.graph = { s.graph with
        fields := s.graph.fields.map fun f => if f.id = field then { f with type } else f } := by
  cases s with
  | memory m =>
    have any : (m.graph.fields.any fun f => f.id = field) = true := found.any
    let next : Memory := (m.setFieldType field type).2
    have set : m.setFieldType field type = (true, next) := Prod.ext any rfl
    exact ⟨memory next, served_memory (congrArg Except.ok set), rfl⟩
  | database db =>
    have h : db.Sound := h
    have there : ∃ x ∈ db.graph.symbols, x.id = type := there
    have any : (db.graph.fields.any fun f => f.id = field) = true := found.any
    let next : Database := { db with
      graph.fields := db.graph.fields.map fun f => if f.id = field then { f with type } else f }
    have set : db.setFieldType field type = .ok (true, next) := by
      unfold Database.setFieldType
      rw [checkMayWrite_of h.mayWrite, ok_bind, any]
      dsimp only
      rw [if_pos rfl, checkNames_of (isSome_symbolById? there), ok_bind]
      rfl
    exact ⟨database next, served_database set, rfl⟩

theorem retargetFields (h : s.Sound) (old : SymbolId) {new : SymbolId}
    (there : ∃ x ∈ s.graph.symbols, x.id = new) :
    ∃ t, Store.serve (.retargetFields old new) s =
        .ok (s.graph.fields.filter fun f => f.type = old).length t ∧
      t.graph = { s.graph with
        fields := s.graph.fields.map fun f =>
          if f.type = old then { f with type := new } else f } := by
  cases s with
  | memory m =>
    let next : Memory := (m.retargetFields old new).2
    exact ⟨memory next, served_memory rfl, rfl⟩
  | database db =>
    have h : db.Sound := h
    have there : ∃ x ∈ db.graph.symbols, x.id = new := there
    let next : Database := { db with
      graph.fields := db.graph.fields.map fun f =>
        if f.type = old then { f with type := new } else f }
    have served : db.retargetFields old new =
        .ok ((db.graph.fields.filter fun f => f.type = old).length, next) := by
      unfold Database.retargetFields
      rw [checkMayWrite_of h.mayWrite, ok_bind, checkNames_of (isSome_symbolById? there)]
      dsimp only
      split <;> rfl
    exact ⟨database next, served_database served, rfl⟩

end Sound

end LayoutGraph.AnyStore
