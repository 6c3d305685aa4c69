-- The store in memory. Rows lie in tables in the order of their insertion
-- and a row's id is its place, counted from one. Beside each table lies an
-- index from natural keys to ids, so that no look-up scans a table.
import LayoutGraph.Index
import LayoutGraph.Graph.Query
import LayoutGraph.Store.Counter
import LayoutGraph.Store.Request

namespace LayoutGraph

structure Memory where
  graph : Graph := {}
  originIndex : Index String OriginId := {}
  symbolIndex : Index SymbolKey SymbolId := {}
  fieldIndex : Index FieldKey FieldId := {}
  dimensionIndex : Index DimensionKey DimensionId := {}
  enumeratorIndex : Index EnumeratorKey EnumeratorId := {}
  lists : ListCounter := {}
deriving Repr, Inhabited

namespace Memory

/-- The id of the row that is added next to a table. -/
def nextId {α : Type} (table : List α) : Int := table.length + 1

/-! ## Inserts -/

def insertOrigin (m : Memory) (name : String) (littleEndian : Bool) : Inserted OriginId × Memory :=
  match m.originIndex.find? name with
  | some id => (.existing id, m)
  | none =>
    let id : OriginId := ⟨nextId m.graph.origins⟩
    (.created id,
      { m with
        graph := { m.graph with origins := m.graph.origins ++ [⟨id, name, littleEndian⟩] }
        originIndex := m.originIndex.insert name id })

def insertSymbol (m : Memory) (row : NewSymbol) : Inserted SymbolId × Memory :=
  match m.symbolIndex.find? row.key with
  | some id => (.existing id, m)
  | none =>
    let id : SymbolId := ⟨nextId m.graph.symbols⟩
    (.created id,
      { m with
        graph := { m.graph with symbols := m.graph.symbols ++ [row.withId id] }
        symbolIndex := m.symbolIndex.insert row.key id })

def insertField (m : Memory) (row : NewField) : Inserted FieldId × Memory :=
  match m.fieldIndex.find? row.key with
  | some id => (.existing id, m)
  | none =>
    let id : FieldId := ⟨nextId m.graph.fields⟩
    (.created id,
      { m with
        graph := { m.graph with fields := m.graph.fields ++ [row.withId id] }
        fieldIndex := m.fieldIndex.insert row.key id })

/-- A dimension row counts as seen by the list counter. -/
def insertDimension (m : Memory) (list : ListId) (order extent : Nat) : DimensionId × Memory :=
  match m.dimensionIndex.find? ⟨list, order⟩ with
  | some id => (id, m)
  | none =>
    let id : DimensionId := ⟨nextId m.graph.dimensions⟩
    (id,
      { m with
        graph := { m.graph with dimensions := m.graph.dimensions ++ [⟨id, list, order, extent⟩] }
        dimensionIndex := m.dimensionIndex.insert ⟨list, order⟩ id
        lists := m.lists.see list })

def insertEnumerator (m : Memory) (symbol : SymbolId) (name : String) (value : Int) :
    Inserted EnumeratorId × Memory :=
  match m.enumeratorIndex.find? ⟨symbol, name⟩ with
  | some id => (.existing id, m)
  | none =>
    let id : EnumeratorId := ⟨nextId m.graph.enumerators⟩
    (.created id,
      { m with
        graph := { m.graph with enumerators := m.graph.enumerators ++ [⟨id, symbol, name, value⟩] }
        enumeratorIndex := m.enumeratorIndex.insert ⟨symbol, name⟩ id })

def allocateList (m : Memory) : Except Failure (ListId × Memory) :=
  m.lists.next.map fun (list, lists) => (list, { m with lists })

/-! ## Changes of a field's type -/

/-- Every field of type `old` is given the type `new`. -/
def retargetFields (m : Memory) (old new : SymbolId) : Nat × Memory :=
  ((m.graph.fields.filter fun f => f.type = old).length,
    { m with
      graph.fields := m.graph.fields.map fun f =>
        if f.type = old then { f with type := new } else f })

/-- The field of the id is given the type, if there is such a field. -/
def setFieldType (m : Memory) (field : FieldId) (type : SymbolId) : Bool × Memory :=
  (m.graph.fields.any fun f => f.id = field,
    { m with
      graph.fields := m.graph.fields.map fun f => if f.id = field then { f with type } else f })

/-! ## Service -/

/-- The reply of each request and the store after it. Only the list counter can fail. -/
def answer {α : Type} (m : Memory) : Request α → Except Failure (α × Memory)
  | .insertOrigin name littleEndian => .ok (m.insertOrigin name littleEndian)
  | .insertSymbol row => .ok (m.insertSymbol row)
  | .insertField row => .ok (m.insertField row)
  | .insertDimension list order extent => .ok (m.insertDimension list order extent)
  | .insertEnumerator symbol name value => .ok (m.insertEnumerator symbol name value)
  | .allocateList => m.allocateList
  | .findOrigin name => .ok (m.originIndex.find? name, m)
  | .findSymbol key => .ok (m.symbolIndex.find? key, m)
  | .findField key => .ok (m.fieldIndex.find? key, m)
  | .symbolById id => .ok (m.graph.symbolById? id, m)
  | .fieldById id => .ok (m.graph.fieldById? id, m)
  | .symbolsNamed name => .ok (m.graph.symbolsNamed name, m)
  | .retargetFields old new => .ok (m.retargetFields old new)
  | .setFieldType field type => .ok (m.setFieldType field type)
  | .snapshot => .ok (m.graph, m)
  | .commit => .ok ((), m)

instance : Store Memory where
  serve request := Attempt.ofStep fun m => m.answer request

end Memory

end LayoutGraph
