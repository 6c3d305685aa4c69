-- The file form of a graph: a first line that names the form, then a line
-- for each row. A line is words between blanks; texts are written as their
-- bytes in hexadecimal, so that no word holds a blank.
import LayoutGraph.Graph.Row
import LayoutGraph.Text.Cut
import LayoutGraph.Text.Lossy
import LayoutGraph.Text.Numeral

namespace LayoutGraph.Archive

/-- The line in front of every graph. -/
def firstLine : String := "layout graph 1"

/-! ## Words -/

/-- Two hexadecimal digits. -/
def byteDigits (b : UInt8) : List Char := (Nat.toDigits 16 b.toNat).leftpad 2 '0'

/-- A text as a word. The mark in front keeps the word of an empty text from being empty. -/
def ofText (s : String) : String := String.ofList ('x' :: s.toUTF8.data.toList.flatMap byteDigits)

def bytes? : List Char → Option (List UInt8)
  | [] => some []
  | high :: low :: rest => do
    let n ← Text.natural? 16 [high, low]
    return UInt8.ofNat n :: (← bytes? rest)
  | _ => none

def text? (word : String) : Option String :=
  match word.toList with
  | 'x' :: digits => (bytes? digits).map Text.lossy
  | _ => none

def int? (word : String) : Option Int := Text.signed? 10 word.toList

def nat? (word : String) : Option Nat := Text.natural? 10 word.toList

def ofFlag (b : Bool) : String := if b then "1" else "0"

def flag? : String → Option Bool
  | "1" => some true
  | "0" => some false
  | _ => none

/-- A number that can be absent. -/
def ofOptional (n : Option Int) : String := n.elim "-" toString

def optional? {α : Type} (read : String → Option α) (word : String) : Option (Option α) :=
  if word = "-" then some none else (read word).map some

/-! ## Lines -/

def originLine (o : Origin) : List String :=
  ["origin", toString o.id.raw, ofText o.name, ofFlag o.littleEndian]

def symbolLine (s : Symbol) : List String :=
  ["symbol", toString s.id.raw, toString s.origin.raw, ofText s.name, toString s.byteSize]

def fieldLine (f : Field) : List String :=
  ["field", toString f.id.raw, toString f.owner.raw, ofText f.name, toString f.byteOffset,
   toString f.type.raw, ofOptional (f.dimensions.map ListId.raw), ofFlag f.littleEndian,
   ofOptional (f.bitSize.map Int.ofNat), ofOptional (f.bitOffset.map Int.ofNat),
   toString f.pointerDepth]

def dimensionLine (d : Dimension) : List String :=
  ["dimension", toString d.id.raw, toString d.list.raw, toString d.order, toString d.extent]

def enumeratorLine (e : Enumerator) : List String :=
  ["enumerator", toString e.id.raw, toString e.symbol.raw, ofText e.name, toString e.value]

/-- The file form of a graph. -/
def ofGraph (g : Graph) : String :=
  let lines := g.origins.map originLine ++ g.symbols.map symbolLine ++ g.fields.map fieldLine
    ++ g.dimensions.map dimensionLine ++ g.enumerators.map enumeratorLine
  firstLine ++ "\n" ++ String.join (lines.map fun words => " ".intercalate words ++ "\n")

/-- A graph with the row of one line more. -/
def addLine (g : Graph) (words : List String) : Option Graph :=
  match words with
  | ["origin", id, name, littleEndian] => do
    let row : Origin := ⟨⟨← int? id⟩, ← text? name, ← flag? littleEndian⟩
    return { g with origins := g.origins ++ [row] }
  | ["symbol", id, origin, name, byteSize] => do
    let row : Symbol := ⟨⟨← int? id⟩, ⟨← int? origin⟩, ← text? name, ← nat? byteSize⟩
    return { g with symbols := g.symbols ++ [row] }
  | ["field", id, owner, name, place, type, list, littleEndian, bitSize, bitOffset, depth] => do
    let row : Field :=
      ⟨⟨← int? id⟩, ⟨← int? owner⟩, ← text? name, ← nat? place, ⟨← int? type⟩,
       (← optional? int? list).map ListId.mk, ← flag? littleEndian, ← optional? nat? bitSize,
       ← optional? nat? bitOffset, ← nat? depth⟩
    return { g with fields := g.fields ++ [row] }
  | ["dimension", id, list, order, extent] => do
    let row : Dimension := ⟨⟨← int? id⟩, ⟨← int? list⟩, ← nat? order, ← nat? extent⟩
    return { g with dimensions := g.dimensions ++ [row] }
  | ["enumerator", id, symbol, name, value] => do
    let row : Enumerator := ⟨⟨← int? id⟩, ⟨← int? symbol⟩, ← text? name, ← int? value⟩
    return { g with enumerators := g.enumerators ++ [row] }
  | _ => none

/-- The words of a line. -/
def wordsOf (line : List Char) : List String := (Text.pieces ' ' line).map String.ofList

/-- The graph of a file form, if all of its lines are in order. -/
def graph? (s : String) : Option Graph :=
  match Text.pieces '\n' s.toList with
  | first :: lines =>
    if String.ofList first = firstLine then
      (lines.filter fun line => !line.isEmpty).foldlM (fun g line => addLine g (wordsOf line)) {}
    else none
  | [] => none

end LayoutGraph.Archive
