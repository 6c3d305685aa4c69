-- The rows of the graph: inputs, symbols, fields, array dimensions and
-- enumeration constants, and the graph as its five tables.

namespace LayoutGraph

/-! ## Row ids -/

structure OriginId where
  raw : Int
deriving DecidableEq, Repr, Inhabited

structure SymbolId where
  raw : Int
deriving DecidableEq, Repr, Inhabited

structure FieldId where
  raw : Int
deriving DecidableEq, Repr, Inhabited

structure DimensionId where
  raw : Int
deriving DecidableEq, Repr, Inhabited

/-- Names the dimension rows that belong to one array field. -/
structure ListId where
  raw : Int
deriving DecidableEq, Repr, Inhabited

structure EnumeratorId where
  raw : Int
deriving DecidableEq, Repr, Inhabited

/-! ## Rows -/

/-- One input. -/
structure Origin where
  id : OriginId
  name : String
  littleEndian : Bool
deriving DecidableEq, Repr, Inhabited

/-- One type, and the input that first had it. -/
structure Symbol where
  id : SymbolId
  origin : OriginId
  name : String
  byteSize : Nat
deriving DecidableEq, Repr, Inhabited

/-- One member of a symbol. -/
structure Field where
  id : FieldId
  owner : SymbolId
  name : String
  byteOffset : Nat
  type : SymbolId
  dimensions : Option ListId
  littleEndian : Bool
  bitSize : Option Nat
  bitOffset : Option Nat
  pointerDepth : Nat
deriving DecidableEq, Repr, Inhabited

/-- One axis of an array field. -/
structure Dimension where
  id : DimensionId
  list : ListId
  order : Nat
  extent : Nat
deriving DecidableEq, Repr, Inhabited

/-- One constant of an enumeration. -/
structure Enumerator where
  id : EnumeratorId
  symbol : SymbolId
  name : String
  value : Int
deriving DecidableEq, Repr, Inhabited

/-! ## Rows to be inserted -/

/-- A symbol without its row id. -/
structure NewSymbol where
  origin : OriginId
  name : String
  byteSize : Nat
deriving DecidableEq, Repr, Inhabited

/-- A field without its row id. -/
structure NewField where
  owner : SymbolId
  name : String
  byteOffset : Nat
  type : SymbolId
  dimensions : Option ListId
  littleEndian : Bool
  bitSize : Option Nat
  bitOffset : Option Nat
  pointerDepth : Nat
deriving DecidableEq, Repr, Inhabited

def NewSymbol.withId (new : NewSymbol) (id : SymbolId) : Symbol :=
  ⟨id, new.origin, new.name, new.byteSize⟩

def NewField.withId (new : NewField) (id : FieldId) : Field :=
  ⟨id, new.owner, new.name, new.byteOffset, new.type, new.dimensions, new.littleEndian,
    new.bitSize, new.bitOffset, new.pointerDepth⟩

/-! ## Natural keys -/

/-- What tells two symbols apart: the name and the size in bytes. -/
structure SymbolKey where
  name : String
  byteSize : Nat
deriving DecidableEq, Repr, Inhabited

/-- What tells two fields apart: the owner and the name. -/
structure FieldKey where
  owner : SymbolId
  name : String
deriving DecidableEq, Repr, Inhabited

/-- What tells two dimension rows apart: the list and the axis. -/
structure DimensionKey where
  list : ListId
  order : Nat
deriving DecidableEq, Repr, Inhabited

/-- What tells two enumerators apart: the symbol and the name. -/
structure EnumeratorKey where
  symbol : SymbolId
  name : String
deriving DecidableEq, Repr, Inhabited

def Symbol.key (s : Symbol) : SymbolKey := ⟨s.name, s.byteSize⟩

def NewSymbol.key (s : NewSymbol) : SymbolKey := ⟨s.name, s.byteSize⟩

def Field.key (f : Field) : FieldKey := ⟨f.owner, f.name⟩

def NewField.key (f : NewField) : FieldKey := ⟨f.owner, f.name⟩

def Dimension.key (d : Dimension) : DimensionKey := ⟨d.list, d.order⟩

def Enumerator.key (e : Enumerator) : EnumeratorKey := ⟨e.symbol, e.name⟩

/-- A key as it is shown in a message: its two parts in parentheses. -/
def pairText (a b : String) : String := "(" ++ a ++ ", " ++ b ++ ")"

def SymbolKey.text (k : SymbolKey) : String := pairText k.name (toString k.byteSize)

def FieldKey.text (k : FieldKey) : String := pairText (toString k.owner.raw) k.name

def EnumeratorKey.text (k : EnumeratorKey) : String := pairText (toString k.symbol.raw) k.name

/-! ## The graph -/

/-- The content of a store, each table in the order of its ids. -/
structure Graph where
  origins : List Origin := []
  symbols : List Symbol := []
  fields : List Field := []
  dimensions : List Dimension := []
  enumerators : List Enumerator := []
deriving DecidableEq, Repr, Inhabited

end LayoutGraph
