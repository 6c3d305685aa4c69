-- Reading a graph: rows by id, symbols by name, and what belongs to a
-- symbol or to a dimension list, in the order in which it is shown.
import LayoutGraph.Graph.Row

namespace LayoutGraph.Graph

/-! ## Symbols -/

/-- The symbols of a name, in the order of their ids. -/
def symbolsNamed (g : Graph) (name : String) : List Symbol :=
  g.symbols.filter fun s => s.name = name

/-- The symbol of a name that exactly one symbol has. -/
def symbol? (g : Graph) (name : String) : Option Symbol :=
  match g.symbolsNamed name with
  | [s] => some s
  | _ => none

def symbolById? (g : Graph) (id : SymbolId) : Option Symbol := g.symbols.find? fun s => s.id = id

def fieldById? (g : Graph) (id : FieldId) : Option Field := g.fields.find? fun f => f.id = id

def originById? (g : Graph) (id : OriginId) : Option Origin := g.origins.find? fun o => o.id = id

/-! ## What belongs to a row -/

/-- The order in which fields are shown: by byte offset, and by id where offsets agree. -/
def shownBefore (a b : Field) : Bool :=
  decide (a.byteOffset < b.byteOffset)
    || (decide (a.byteOffset = b.byteOffset) && decide (a.id.raw ≤ b.id.raw))

def fieldsOf (g : Graph) (owner : SymbolId) : List Field :=
  (g.fields.filter fun f => f.owner = owner).mergeSort shownBefore

/-- The axes of a list, the outermost first. -/
def dimensionsOf (g : Graph) (list : ListId) : List Dimension :=
  (g.dimensions.filter fun d => d.list = list).mergeSort fun a b => decide (a.order ≤ b.order)

def enumeratorsOf (g : Graph) (symbol : SymbolId) : List Enumerator :=
  g.enumerators.filter fun e => e.symbol = symbol

end LayoutGraph.Graph
