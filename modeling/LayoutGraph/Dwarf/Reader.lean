-- Reading a debug section. A cursor stands in a section and reads bytes,
-- numbers and offsets up to its end.
import LayoutGraph.Dwarf.Fault
import LayoutGraph.Dwarf.Script

namespace LayoutGraph.Dwarf

/-! ## Cursors -/

/-- A place in a section, and the end that no read passes. -/
structure Cursor where
  part : Part
  place : Nat
  stop : Nat
deriving DecidableEq, Repr, Inhabited

def Cursor.atEnd (c : Cursor) : Bool := decide (c.stop ≤ c.place)

/-- A script that can meet a defect. -/
abbrev Trial := ExceptT Defect Script

/-- A read moves a cursor on, or meets a defect. -/
abbrev Read := ExceptT Defect (StateT Cursor Script)

namespace Read

variable {α : Type}

/-- The read from a cursor, and where it ends. -/
def on (c : Cursor) (read : Read α) : Trial (α × Cursor) := do
  match ← read.run.run c with
  | (.ok a, rest) => return (a, rest)
  | (.error defect, _) => throw defect

/-- The read alone, from the start of a section. -/
def ofPart (part : Part) (read : Read α) : Trial α := do
  let stop ← Script.sizeOf part
  return (← read.on ⟨part, 0, stop⟩).1

/-- The read from another cursor, while this one stays. -/
def within (c : Cursor) (read : Read α) : Read (α × Cursor) := do
  match ← (read.on c).run with
  | .ok found => return found
  | .error defect => throw defect

/-- The number in the next `count` bytes, relocated or as it is stored. -/
def take (count : Nat) (relocates : Bool) : Read Nat := do
  let c ← get
  if c.place + count ≤ c.stop then
    match ← Script.find? ⟨c.part, c.place, count, relocates⟩ with
    | some n =>
      set { c with place := c.place + count }
      return n
    | none => throw .endOfInput
  else throw .endOfInput

/-- A number of `count` bytes. -/
def number (count : Nat) : Read Nat := take count false

/-- An offset or an address of `count` bytes, relocated. -/
def offset (count : Nat) : Read Nat := take count true

def byte : Read UInt8 := do return .ofNat (← number 1)

/-- A cursor over the next `count` bytes, which are passed over. -/
def split (count : Nat) : Read Cursor := do
  let c ← get
  if c.place + count ≤ c.stop then
    set { c with place := c.place + count }
    return { c with stop := c.place + count }
  else throw .endOfInput

/-- Passes over `count` bytes. -/
def skip (count : Nat) : Read Unit := do
  let _ ← split count

/-- Passes over `count` items of `size` bytes each. -/
def skipItems (count size : Nat) : Read Unit :=
  if Word.greatest < count * size then throw .placeOverflow else skip (count * size)

/-- The bytes up to the next zero, which is passed over, after those of `seen`; `fuel` bounds their
number. -/
def textBytesFrom (seen : List UInt8) : (fuel : Nat) → Read (List UInt8)
  | 0 => throw .endOfInput
  | fuel + 1 => do
    let b ← byte
    if b = 0 then return seen.reverse else textBytesFrom (b :: seen) fuel

/-- The bytes of a text that a zero ends. -/
def textBytes : Read (List UInt8) := do
  let c ← get
  textBytesFrom [] (c.stop - c.place)

/-! ## Numbers of variable length -/

/-- The low seven bits of a byte. -/
def lowBits (b : UInt8) : Nat := b.toNat % 128

/-- Whether another byte of the number follows. -/
def continues (b : UInt8) : Bool := decide (128 ≤ b.toNat)

/-- The most bytes that a number of 64 bits takes. -/
def longest : Nat := 10

/-- The rest of an unsigned number, of which `index` bytes are read. The tenth byte can hold one
bit and must end the number. -/
def unsignedFrom : (left index : Nat) → Read Nat
  | 0, _ => throw .unsignedOverflow
  | left + 1, index => do
    let b ← byte
    if left = 0 ∧ 1 < b.toNat then throw .unsignedOverflow
    let here := lowBits b <<< (7 * index)
    if continues b then return here + (← unsignedFrom left (index + 1)) else return here

/-- An unsigned number in LEB128. -/
def unsigned : Read Nat := unsignedFrom longest 0

/-- The rest of a signed number as the bits it holds and the number of bytes it took. The tenth
byte holds copies of the sign and must end the number. -/
def signedFrom : (left index : Nat) → Read (Nat × Nat × Bool)
  | 0, _ => throw .signedOverflow
  | left + 1, index => do
    let b ← byte
    if left = 0 ∧ b.toNat ≠ 0 ∧ b.toNat ≠ 0x7f then throw .signedOverflow
    let here := lowBits b <<< (7 * index)
    if continues b then do
      let (above, count, negative) ← signedFrom left (index + 1)
      return (here + above, count, negative)
    else return (here, index + 1, decide (64 ≤ lowBits b))

/-- A signed number in LEB128. -/
def signed : Read Int := do
  let (bits, count, negative) ← signedFrom longest 0
  let value : Int := if negative then (bits : Int) - (1 <<< (7 * count) : Nat) else bits
  return Word.signed 64 (value % Word.count).toNat

/-- An unsigned number in LEB128 of at most 16 bits and at most three bytes. -/
def unsigned16 : Read Nat := do
  let first ← byte
  if !continues first then return lowBits first
  let second ← byte
  let low := lowBits first + 128 * lowBits second
  if !continues second then return low
  let third ← byte
  if 3 < third.toNat then throw .unsignedOverflow
  return low + 16384 * third.toNat

end Read

end LayoutGraph.Dwarf
