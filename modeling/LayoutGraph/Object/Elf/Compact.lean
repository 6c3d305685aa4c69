-- Compact tables of relocations. A number in front tells how many there are
-- and how they are written; each is stated by what changes from the last.
import LayoutGraph.Dwarf.Reader

namespace LayoutGraph.Object.Elf.Compact

open Dwarf (Cursor Read Script Sections)

/-! ## Relocations -/

/-- How the relocations of a table are written. -/
structure Layout where
  statesAddends : Bool
  /-- The power of two that all places are multiples of. -/
  shift : Nat
deriving DecidableEq, Repr, Inhabited

/-- One relocation of a table. -/
structure Entry where
  place : Nat := 0
  symbol : Nat := 0
  type : Nat := 0
  /-- The addend as a word, zero where none is stated. -/
  addend : Nat := 0
deriving DecidableEq, Repr, Inhabited

/-- The low bits of the first byte that tell which fields change. -/
def Layout.flagBits (l : Layout) : Nat := if l.statesAddends then 3 else 2

/-- A number of `range` values after a change. -/
def move (range number : Nat) (change : Int) : Nat := ((number + change) % range).toNat

/-- A field, whose change is written if it changes. -/
def readField (changes : Bool) (range last : Nat) : Read Nat := do
  if changes then return move range last (← Read.signed) else return last

/-- The relocation after `last`. The first byte holds the flags and the low bits of how far the
place moves on; the high bits follow. -/
def readNext (l : Layout) (last : Entry) : Read Entry := do
  let first ← Read.byte
  let high ← if Read.continues first then Read.unsigned else pure 0
  let low := Read.lowBits first >>> l.flagBits
  let distance := (low + high <<< (7 - l.flagBits)) <<< l.shift
  let flag (index : Nat) : Bool := decide (index < l.flagBits) && first.toNat.testBit index
  let symbol ← readField (flag 0) Word.halfCount last.symbol
  let type ← readField (flag 1) Word.halfCount last.type
  let addend ← readField (flag 2) Word.count last.addend
  return { place := Word.wrap (last.place + distance), symbol, type, addend }

/-! ## Tables -/

/-- The relocations from a cursor on, after those of `seen`. One that cannot be read ends the
table. -/
def entriesFrom (l : Layout) (seen : List Entry) :
    (count : Nat) → Entry → Cursor → Script (List Entry)
  | 0, _, _ => return seen.reverse
  | count + 1, last, c => do
    match ← (Read.on c (readNext l last)).run with
    | .ok (entry, c) => entriesFrom l (entry :: seen) count entry c
    | .error _ => return seen.reverse

/-- How the table at a cursor is written, and its relocations. A table whose first number cannot be
read is empty. -/
def readAt (c : Cursor) : Script (Layout × List Entry) := do
  match ← (Read.on c Read.unsigned).run with
  | .ok (number, c) =>
    let layout : Layout := { statesAddends := number.testBit 2, shift := number % 4 }
    return (layout, ← entriesFrom layout [] (number / 8) {} c)
  | .error _ => return (default, [])

/-- The table in bytes, which are read as a section of their own. -/
def read (bytes : List UInt8) : Layout × List Entry :=
  let sections : Sections := { info := { bytes := bytes.toArray } }
  (readAt ⟨.info, 0, bytes.length⟩).run sections

end LayoutGraph.Object.Elf.Compact
