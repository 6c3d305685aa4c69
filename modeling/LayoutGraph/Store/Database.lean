-- The store in a relational database. A row's id is one more than the
-- greatest in its table; a natural key is unique; a reference must name a
-- row; a number must fit 64 bits with a sign. A statement that breaks a rule
-- changes nothing. A taken key shows before a dangling reference. A store
-- that may only be read refuses every write, also one that would change
-- nothing, but a number that does not fit shows first.
import LayoutGraph.Graph.Query
import LayoutGraph.Store.Counter
import LayoutGraph.Store.Request

namespace LayoutGraph

structure Database where
  graph : Graph := {}
  lists : ListCounter := {}
  mayWrite : Bool := true
deriving DecidableEq, Repr, Inhabited

namespace Database

/-! ## Opening and closing -/

/-- The greatest list of the dimension rows, or zero where there is no row. -/
def greatestList : List Dimension → Int
  | [] => 0
  | d :: rest => rest.foldl (fun greatest row => max greatest row.list.raw) d.list.raw

/-- The store over stored rows. Lists that were handed out and never stored are forgotten. -/
def ofGraph (g : Graph) : Database := { graph := g, lists := ⟨greatestList g.dimensions⟩ }

/-- Closing a store and opening its rows again. -/
def reopen (db : Database) : Database := { ofGraph db.graph with mayWrite := db.mayWrite }

/-! ## Rules -/

/-- Nothing is written to a store that may only be read. -/
def checkMayWrite (db : Database) : Except Failure Unit :=
  if db.mayWrite then .ok () else .error (.store .notWritable)

/-- The id after the greatest of a table. -/
def nextId (ids : List Int) : Int := ids.foldl max 0 + 1

/-- The numbers that a column can hold. -/
def columnEnd : Nat := Word.signedEnd

/-- A number in a column must fit it. -/
def checkFits (column : String) (value : Nat) : Except Failure Unit :=
  if value < columnEnd then .ok () else .error (.store (.outOfRange column value))

/-- A number in a column that may be empty must fit it when it is there. -/
def checkFits? (column : String) : Option Nat → Except Failure Unit
  | some value => checkFits column value
  | none => .ok ()

/-- A reference must name a row. -/
def checkNames {α : Type} (row : Option α) : Except Failure Unit :=
  if row.isSome then .ok () else .error (.store .danglingReference)

/-! ## Inserts -/

def insertOrigin (db : Database) (name : String) (littleEndian : Bool) :
    Except Failure (Inserted OriginId × Database) := do
  db.checkMayWrite
  match db.graph.origins.find? fun o => o.name = name with
  | some row => return (.existing row.id, db)
  | none =>
    let id : OriginId := ⟨nextId (db.graph.origins.map fun o => o.id.raw)⟩
    return (.created id,
      { db with graph.origins := db.graph.origins ++ [⟨id, name, littleEndian⟩] })

def insertSymbol (db : Database) (row : NewSymbol) :
    Except Failure (Inserted SymbolId × Database) := do
  checkFits "byte_size" row.byteSize
  db.checkMayWrite
  match db.graph.symbols.find? fun s => s.key = row.key with
  | some taken => return (.existing taken.id, db)
  | none =>
    checkNames (db.graph.originById? row.origin)
    let id : SymbolId := ⟨nextId (db.graph.symbols.map fun s => s.id.raw)⟩
    return (.created id, { db with graph.symbols := db.graph.symbols ++ [row.withId id] })

def insertField (db : Database) (row : NewField) :
    Except Failure (Inserted FieldId × Database) := do
  checkFits "byte_offset" row.byteOffset
  checkFits? "bit_size" row.bitSize
  checkFits? "bit_offset" row.bitOffset
  db.checkMayWrite
  match db.graph.fields.find? fun f => f.key = row.key with
  | some taken => return (.existing taken.id, db)
  | none =>
    checkNames (db.graph.symbolById? row.owner)
    checkNames (db.graph.symbolById? row.type)
    let id : FieldId := ⟨nextId (db.graph.fields.map fun f => f.id.raw)⟩
    return (.created id, { db with graph.fields := db.graph.fields ++ [row.withId id] })

/-- A dimension row counts as seen by the list counter, also one that was there before. -/
def insertDimension (db : Database) (list : ListId) (order extent : Nat) :
    Except Failure (DimensionId × Database) := do
  checkFits "extent" extent
  db.checkMayWrite
  match db.graph.dimensions.find? fun d => d.key = ⟨list, order⟩ with
  | some taken => return (taken.id, { db with lists := db.lists.see list })
  | none =>
    let id : DimensionId := ⟨nextId (db.graph.dimensions.map fun d => d.id.raw)⟩
    return (id,
      { db with
        graph.dimensions := db.graph.dimensions ++ [⟨id, list, order, extent⟩]
        lists := db.lists.see list })

def insertEnumerator (db : Database) (symbol : SymbolId) (name : String) (value : Int) :
    Except Failure (Inserted EnumeratorId × Database) := do
  db.checkMayWrite
  match db.graph.enumerators.find? fun e => e.key = ⟨symbol, name⟩ with
  | some taken => return (.existing taken.id, db)
  | none =>
    checkNames (db.graph.symbolById? symbol)
    let id : EnumeratorId := ⟨nextId (db.graph.enumerators.map fun e => e.id.raw)⟩
    return (.created id,
      { db with graph.enumerators := db.graph.enumerators ++ [⟨id, symbol, name, value⟩] })

def allocateList (db : Database) : Except Failure (ListId × Database) :=
  db.lists.next.map fun (list, lists) => (list, { db with lists })

/-! ## Look-ups -/

def findOrigin (db : Database) (name : String) : Option OriginId :=
  (db.graph.origins.find? fun o => o.name = name).map Origin.id

/-- A size that no column can hold is refused in a look-up too. -/
def findSymbol (db : Database) (key : SymbolKey) : Except Failure (Option SymbolId) := do
  checkFits "byte_size" key.byteSize
  return (db.graph.symbols.find? fun s => s.key = key).map Symbol.id

def findField (db : Database) (key : FieldKey) : Option FieldId :=
  (db.graph.fields.find? fun f => f.key = key).map Field.id

/-! ## Changes of a field's type -/

/-- Every field of type `old` is given the type `new`, which must exist if there is such a field. -/
def retargetFields (db : Database) (old new : SymbolId) : Except Failure (Nat × Database) := do
  db.checkMayWrite
  let touched := db.graph.fields.filter fun f => f.type = old
  if !touched.isEmpty then checkNames (db.graph.symbolById? new)
  return (touched.length,
    { db with
      graph.fields := db.graph.fields.map fun f =>
        if f.type = old then { f with type := new } else f })

/-- The field of the id is given the type, which must exist if the field does. -/
def setFieldType (db : Database) (field : FieldId) (type : SymbolId) :
    Except Failure (Bool × Database) := do
  db.checkMayWrite
  let found := db.graph.fields.any fun f => f.id = field
  if found then checkNames (db.graph.symbolById? type)
  return (found,
    { db with
      graph.fields := db.graph.fields.map fun f => if f.id = field then { f with type } else f })

/-! ## Service -/

def answer {α : Type} (db : Database) : Request α → Except Failure (α × Database)
  | .insertOrigin name littleEndian => db.insertOrigin name littleEndian
  | .insertSymbol row => db.insertSymbol row
  | .insertField row => db.insertField row
  | .insertDimension list order extent => db.insertDimension list order extent
  | .insertEnumerator symbol name value => db.insertEnumerator symbol name value
  | .allocateList => db.allocateList
  | .findOrigin name => .ok (db.findOrigin name, db)
  | .findSymbol key => (db.findSymbol key).map fun found => (found, db)
  | .findField key => .ok (db.findField key, db)
  | .symbolById id => .ok (db.graph.symbolById? id, db)
  | .fieldById id => .ok (db.graph.fieldById? id, db)
  | .symbolsNamed name => .ok (db.graph.symbolsNamed name, db)
  | .retargetFields old new => db.retargetFields old new
  | .setFieldType field type => db.setFieldType field type
  | .snapshot => .ok (db.graph, db)
  | .commit => .ok ((), db)

instance : Store Database where
  serve request := Attempt.ofStep fun db => db.answer request

end Database

end LayoutGraph
