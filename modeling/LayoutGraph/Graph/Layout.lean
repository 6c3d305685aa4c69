-- The layout of a symbol as text: one line for the symbol, one for each
-- field with its place and type, one for each enumeration constant.
import LayoutGraph.Graph.Query

namespace LayoutGraph.Graph

/-! ## Columns -/

/-- The text with blanks after it until it is `width` characters long. -/
def column (width : Nat) (s : String) : String := String.ofList (s.toList.rightpad width ' ')

/-- The widths of the columns for a field's place and for a name. -/
def placeWidth : Nat := 8

def nameWidth : Nat := 24

/-! ## Lines -/

/-- A type as it is shown: the symbol's name, a star for each pointer, then the extents. -/
def typeText (g : Graph) (f : Field) : String :=
  let name := match g.symbolById? f.type with
    | some s => s.name
    | none => "<symbol " ++ toString f.type.raw ++ ">"
  let extents := match f.dimensions with
    | some list => (g.dimensionsOf list).map fun d => "[" ++ toString d.extent ++ "]"
    | none => []
  name ++ String.ofList (List.replicate f.pointerDepth '*') ++ String.join extents

/-- A place as it is shown: the byte offset, and the bit offset after a point. -/
def placeText (f : Field) : String :=
  "+" ++ toString f.byteOffset ++ (match f.bitOffset with
    | some bits => "." ++ toString bits
    | none => "")

/-- A field's name as it is shown, with its width in bits after a colon. -/
def fieldName (f : Field) : String :=
  f.name ++ (match f.bitSize with
    | some bits => ":" ++ toString bits
    | none => "")

def fieldLine (g : Graph) (f : Field) : String :=
  "  " ++ column placeWidth (placeText f) ++ " " ++ column nameWidth (fieldName f) ++ " "
    ++ g.typeText f ++ "\n"

def enumeratorLine (e : Enumerator) : String :=
  "  " ++ column nameWidth e.name ++ " = " ++ toString e.value ++ "\n"

def symbolLine (g : Graph) (s : Symbol) : String :=
  let origin := match g.originById? s.origin with
    | some o => o.name
    | none => "?"
  s.name ++ " (" ++ toString s.byteSize ++ " bytes, symbol " ++ toString s.id.raw ++ ", from "
    ++ origin ++ ")\n"

/-! ## The layout -/

/-- The layout of one symbol, fields by place, then constants by id. -/
def layout (g : Graph) (s : Symbol) : String :=
  g.symbolLine s ++ String.join ((g.fieldsOf s.id).map g.fieldLine)
    ++ String.join ((g.enumeratorsOf s.id).map enumeratorLine)

end LayoutGraph.Graph
