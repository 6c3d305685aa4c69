-- What can be asked of a store, and what it replies. A store is whatever
-- serves these requests, so the rules that hold for every store are stated
-- once, over `Store`.
import LayoutGraph.Failure
import LayoutGraph.Graph.Row

namespace LayoutGraph

/-! ## Replies -/

/-- The reply to an insert: a new row, or the row that already has the key. -/
inductive Inserted (ι : Type) where
  | created (id : ι)
  | existing (id : ι)
deriving DecidableEq, Repr, Inhabited

namespace Inserted

variable {ι : Type}

/-- The row, whichever way it was had. -/
def id : Inserted ι → ι
  | .created i | .existing i => i

def wasCreated : Inserted ι → Bool
  | .created _ => true
  | .existing _ => false

end Inserted

/-! ## Requests -/

/-- A request, indexed by the type of its reply. -/
inductive Request : Type → Type where
  | insertOrigin (name : String) (littleEndian : Bool) : Request (Inserted OriginId)
  | insertSymbol (row : NewSymbol) : Request (Inserted SymbolId)
  | insertField (row : NewField) : Request (Inserted FieldId)
  | insertDimension (list : ListId) (order extent : Nat) : Request DimensionId
  | insertEnumerator (symbol : SymbolId) (name : String) (value : Int) :
    Request (Inserted EnumeratorId)
  /-- A dimension list that no dimension row uses. -/
  | allocateList : Request ListId
  | findOrigin (name : String) : Request (Option OriginId)
  | findSymbol (key : SymbolKey) : Request (Option SymbolId)
  | findField (key : FieldKey) : Request (Option FieldId)
  | symbolById (id : SymbolId) : Request (Option Symbol)
  | fieldById (id : FieldId) : Request (Option Field)
  /-- The symbols of a name, in the order of their ids. -/
  | symbolsNamed (name : String) : Request (List Symbol)
  /-- Every field of one type is given another; the reply counts them. -/
  | retargetFields (old new : SymbolId) : Request Nat
  /-- One field is given another type; the reply says whether the field exists. -/
  | setFieldType (field : FieldId) (type : SymbolId) : Request Bool
  | snapshot : Request Graph
  | commit : Request Unit

/-- A request without its arguments and its reply. -/
inductive Method
  | insertOrigin
  | insertSymbol
  | insertField
  | insertDimension
  | insertEnumerator
  | allocateList
  | findOrigin
  | findSymbol
  | findField
  | symbolById
  | fieldById
  | symbolsNamed
  | retargetFields
  | setFieldType
  | snapshot
  | commit
deriving DecidableEq, Repr, Inhabited

def Method.all : List Method :=
  [.insertOrigin, .insertSymbol, .insertField, .insertDimension, .insertEnumerator, .allocateList,
   .findOrigin, .findSymbol, .findField, .symbolById, .fieldById, .symbolsNamed, .retargetFields,
   .setFieldType, .snapshot, .commit]

def Method.text : Method → String
  | .insertOrigin => "insert_origin"
  | .insertSymbol => "insert_symbol"
  | .insertField => "insert_field"
  | .insertDimension => "insert_dimension"
  | .insertEnumerator => "insert_enumerator"
  | .allocateList => "allocate_dimension_list_id"
  | .findOrigin => "find_origin"
  | .findSymbol => "find_symbol"
  | .findField => "find_field"
  | .symbolById => "symbol_by_id"
  | .fieldById => "field_by_id"
  | .symbolsNamed => "symbols_named"
  | .retargetFields => "retarget_fields"
  | .setFieldType => "set_field_type"
  | .snapshot => "snapshot"
  | .commit => "commit"

/-- The method of a written name. -/
def Method.ofText? (s : String) : Option Method := Method.all.find? fun m => m.text = s

def Request.method {α : Type} : Request α → Method
  | .insertOrigin .. => .insertOrigin
  | .insertSymbol _ => .insertSymbol
  | .insertField _ => .insertField
  | .insertDimension .. => .insertDimension
  | .insertEnumerator .. => .insertEnumerator
  | .allocateList => .allocateList
  | .findOrigin _ => .findOrigin
  | .findSymbol _ => .findSymbol
  | .findField _ => .findField
  | .symbolById _ => .symbolById
  | .fieldById _ => .fieldById
  | .symbolsNamed _ => .symbolsNamed
  | .retargetFields .. => .retargetFields
  | .setFieldType .. => .setFieldType
  | .snapshot => .snapshot
  | .commit => .commit

/-! ## Stores -/

/-- Work on a state that may fail; the state it leaves counts either way. -/
abbrev Attempt (σ α : Type) := EStateM Failure σ α

class Store (σ : Type) where
  serve {α : Type} : Request α → Attempt σ α

/-- Work that changes nothing when it fails, as work on a state. -/
def Attempt.ofStep {σ α : Type} (step : σ → Except Failure (α × σ)) : Attempt σ α := fun s =>
  match step s with
  | .ok (a, next) => .ok a next
  | .error e => .error e s

end LayoutGraph
