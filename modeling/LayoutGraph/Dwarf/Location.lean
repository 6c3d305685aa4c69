-- Location expressions. All operations of one are decoded, so that a
-- defect in any of them shows; of what they do, the place of a member takes
-- the constants and the additions of constants.
import LayoutGraph.Dwarf.Attribute

namespace LayoutGraph.Dwarf

/-! ## Operations -/

inductive Operation
  /-- A constant without a sign is pushed. -/
  | constant (value : Nat)
  /-- A constant is added to the top of the stack. -/
  | addConstant (value : Nat)
  /-- The two topmost values are replaced by their sum. -/
  | add
  | other
deriving DecidableEq, Repr, Inhabited

/-- What follows the code of an operation. -/
inductive Operand
  | bytes (count : Nat)
  | address
  | offset
  | unsigned
  | signed
  /-- The number of a register, of at most 16 bits. -/
  | register
  /-- A run of bytes after its length. -/
  | block
  /-- A run of bytes after its length in one byte. -/
  | shortBlock
  /-- An offset, which was an address in version 2. -/
  | entry
  | wasm
deriving DecidableEq, Repr, Inhabited

/-- The operands of an operation that is not a constant or the addition of one. -/
def operands? (code : Nat) : Option (List Operand) :=
  match code with
  | 0x03 => some [.address]
  | 0x06 => some []
  | 0x09 => some [.bytes 1]
  | 0x0b => some [.bytes 2]
  | 0x0d => some [.bytes 4]
  | 0x0f => some [.bytes 8]
  | 0x11 => some [.signed]
  | 0x15 => some [.bytes 1]
  | 0x28 | 0x2f => some [.bytes 2]
  | 0x90 => some [.register]
  | 0x91 => some [.signed]
  | 0x92 => some [.register, .signed]
  | 0x93 => some [.unsigned]
  | 0x94 | 0x95 => some [.bytes 1]
  | 0x96 | 0x97 => some []
  | 0x98 => some [.bytes 2]
  | 0x99 => some [.bytes 4]
  | 0x9a => some [.offset]
  | 0x9b | 0x9c => some []
  | 0x9d => some [.unsigned, .unsigned]
  | 0x9e => some [.block]
  | 0x9f => some []
  | 0xa0 | 0xf2 => some [.entry, .signed]
  | 0xa1 | 0xa2 | 0xfb | 0xfc => some [.unsigned]
  | 0xa3 | 0xf3 => some [.block]
  | 0xa4 | 0xf4 => some [.unsigned, .shortBlock]
  | 0xa5 | 0xf5 => some [.register, .unsigned]
  | 0xa6 | 0xf6 | 0xa7 => some [.bytes 1, .unsigned]
  | 0xa8 | 0xa9 | 0xf7 | 0xf9 => some [.unsigned]
  | 0xe0 => some []
  | 0xed => some [.wasm]
  | 0xfa => some [.bytes 4]
  | 0xfd => some [.offset]
  | code =>
    if 0x12 ≤ code ∧ code ≤ 0x2e then some []
    else if 0x50 ≤ code ∧ code ≤ 0x6f then some []
    else if 0x70 ≤ code ∧ code ≤ 0x8f then some [.signed]
    else none

namespace Operation

def passOver (e : Encoding) : Operand → Read Unit
  | .bytes count => Read.skip count
  | .address => do let _ ← Read.offset e.addressBytes
  | .offset => do let _ ← Read.offset e.offsetBytes
  | .unsigned => do let _ ← Read.unsigned
  | .signed => do let _ ← Read.signed
  | .register => do
    if 0xffff < (← Read.unsigned) then throw .registerNumber
  | .block => do Read.skip (← Read.unsigned)
  | .shortBlock => do Read.skip (← Read.byte).toNat
  | .entry => do
    let _ ← Read.offset (if e.version = 2 then e.addressBytes else e.offsetBytes)
  | .wasm => do
    match (← Read.byte).toNat with
    | 0 | 1 | 2 => do
      if Word.halfCount ≤ (← Read.unsigned) then throw .unsignedOverflow
    | 3 => Read.skip 4
    | _ => throw .unknownOperation

/-- The next operation with its operands. -/
def read (e : Encoding) : Read Operation := do
  let code := (← Read.byte).toNat
  match code with
  | 0x08 => return .constant (← Read.number 1)
  | 0x0a => return .constant (← Read.number 2)
  | 0x0c => return .constant (← Read.number 4)
  | 0x0e => return .constant (← Read.number 8)
  | 0x10 => return .constant (← Read.unsigned)
  | 0x22 => return .add
  | 0x23 => return .addConstant (← Read.unsigned)
  | code =>
    if 0x30 ≤ code ∧ code ≤ 0x4f then return .constant (code - 0x30)
    else
      match operands? code with
      | none => throw .unknownOperation
      | some operands => do
        operands.forM (passOver e)
        return .other

/-- The operations up to the end of the expression, after those of `seen`; `fuel` bounds their
number. -/
def readAll (e : Encoding) (seen : List Operation) : (fuel : Nat) → Read (List Operation)
  | 0 => return seen.reverse
  | fuel + 1 => do
    if (← get).atEnd then return seen.reverse
    readAll e ((← read e) :: seen) fuel

/-- The operations of an expression. -/
def ofExpression (e : Encoding) (c : Cursor) : Trial (List Operation) := do
  return (← Read.on c (readAll e [] (c.stop - c.place))).1

end Operation

/-! ## The place of a member -/

/-- The place after an operation: a constant takes the place of what was there, the addition
of a constant adds to it, and any other operation leaves it. -/
def moveTo (place : Nat) : Operation → Nat
  | .constant value => value
  | .addConstant value => Word.wrap (place + value)
  | _ => place

/-- The place that an expression leads to from the start of the object. -/
def placeOf (operations : List Operation) : Nat := operations.foldl moveTo 0

end LayoutGraph.Dwarf
