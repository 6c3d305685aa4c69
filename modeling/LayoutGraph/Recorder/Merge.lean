-- Merging: a row whose natural key is there already is reused, any other is
-- inserted. A look-up asks the memo first and the store on a miss. An insert
-- that meets a taken key is no failure: the row that has the key is reused.
import LayoutGraph.Recorder.Basic

namespace LayoutGraph.Recording

variable {σ : Type} [Store σ]

/-! ## Look-ups -/

def findSymbol (key : SymbolKey) : Recording σ (Option SymbolId) := do
  match (← get).memo.symbols.find? key with
  | some id => return some id
  | none =>
    match ← ask (.findSymbol key) with
    | some id =>
      modifyMemo fun m => { m with symbols := m.symbols.insert key id }
      return some id
    | none => return none

def findField (key : FieldKey) : Recording σ (Option FieldId) := do
  match (← get).memo.fields.find? key with
  | some id => return some id
  | none =>
    match ← ask (.findField key) with
    | some id =>
      modifyMemo fun m => { m with fields := m.fields.insert key id }
      return some id
    | none => return none

/-! ## Taken keys -/

/-- What a taken key is called in a message. -/
structure TakenKey where
  entity : String
  key : String

def countConflict : Recording σ Unit :=
  count fun t => { t with conflictsRecovered := t.conflictsRecovered + 1 }

/-- The row of an insert. Where the key is taken, that is the row that has it: the one the
store names, or else the one that `again` finds. -/
def recover {ι : Type} (taken : TakenKey) (raw : ι → Int) (insert : Recording σ (Inserted ι))
    (again : Recording σ (Option ι)) : Recording σ (Inserted ι) := fun start =>
  match insert start with
  | .ok (.created id) r => .ok (.created id) r
  | .ok (.existing id) r =>
    (do
      countConflict
      note (.collided taken.entity taken.key (raw id))
      return .existing id : Recording σ (Inserted ι)) r
  | .error (.conflict _ _) r =>
    (do
      match ← again with
      | some id =>
        countConflict
        note (.lookedUpAgain taken.entity taken.key (raw id))
        return .existing id
      | none => throw (.store (.lostRow taken.entity taken.key)) : Recording σ (Inserted ι)) r
  | .error e r => .error e r

/-! ## Rows -/

/-- The origin of a name. Reading an input again reuses its origin. -/
def origin (name : String) (littleEndian : Bool) : Recording σ OriginId := do
  match ← ask (.findOrigin name) with
  | some id =>
    note (.reusedOrigin id name)
    return id
  | none =>
    let inserted ← recover ⟨"origin", name⟩ OriginId.raw (ask (.insertOrigin name littleEndian))
      (ask (.findOrigin name))
    return inserted.id

/-- The symbol of a key. -/
def symbol (row : NewSymbol) : Recording σ (Inserted SymbolId) := do
  match ← findSymbol row.key with
  | some id =>
    count fun t => { t with symbolsReused := t.symbolsReused + 1 }
    note (.reusedSymbol id row.key)
    return .existing id
  | none =>
    let inserted ← recover ⟨"symbol", row.key.text⟩ SymbolId.raw (ask (.insertSymbol row))
      (ask (.findSymbol row.key))
    modifyMemo fun m => { m with symbols := m.symbols.insert row.key inserted.id }
    match inserted with
    | .created id =>
      count fun t => { t with symbolsCreated := t.symbolsCreated + 1 }
      note (.createdSymbol id row.key)
    | .existing _ => count fun t => { t with symbolsReused := t.symbolsReused + 1 }
    return inserted

/-- The field of a key. -/
def field (row : NewField) : Recording σ (Inserted FieldId) := do
  match ← findField row.key with
  | some id =>
    count fun t => { t with fieldsReused := t.fieldsReused + 1 }
    return .existing id
  | none =>
    let inserted ← recover ⟨"field", row.key.text⟩ FieldId.raw (ask (.insertField row))
      (ask (.findField row.key))
    modifyMemo fun m => { m with fields := m.fields.insert row.key inserted.id }
    match inserted with
    | .created id =>
      count fun t => { t with fieldsCreated := t.fieldsCreated + 1 }
      note (.createdField id row.key row.byteOffset)
    | .existing _ => count fun t => { t with fieldsReused := t.fieldsReused + 1 }
    return inserted

/-- One enumeration constant. A constant that is there already keeps its value. -/
def enumerator (symbol : SymbolId) (name : String) (value : Int) : Recording σ Unit := fun start =>
  match ask (.insertEnumerator symbol name value) start with
  | .ok (.created _) r =>
    count (fun t => { t with enumeratorsCreated := t.enumeratorsCreated + 1 }) r
  | .ok (.existing _) r => .ok () r
  | .error (.conflict entity key) r =>
    (do
      note (.enumeratorTaken entity key)
      countConflict : Recording σ Unit) r
  | .error e r => .error e r

end LayoutGraph.Recording
