-- Units: stretches of `.debug_info` or `.debug_types` with a header and a
-- tree of entries. A place in a unit counts from the start of its header.
import LayoutGraph.Dwarf.Attribute

namespace LayoutGraph.Dwarf

/-- What a unit holds, as far as references ask. -/
inductive UnitKind
  /-- The type of a signature, at a place in the unit. -/
  | type (signature place : Nat)
  | other
deriving DecidableEq, Repr, Inhabited

/-- A unit and what its root entry says about it. -/
structure CompiledUnit where
  /-- Whether the unit lies in `.debug_types`. -/
  inTypes : Bool
  /-- Where the unit starts in its section. -/
  start : Nat
  headerBytes : Nat
  /-- Where the unit ends in its section. -/
  stop : Nat
  encoding : Encoding
  kind : UnitKind
  abbreviations : List Abbreviation
  textOffsetsBase : Nat := 0
deriving DecidableEq, Repr, Inhabited

/-! ## Headers -/

/-- The length of a unit after the length itself, and the bytes of its offsets. -/
def readLength : Read (Nat × Nat) := do
  let short ← Read.number 4
  if short < 0xfffffff0 then return (short, 4)
  else if short = 0xffffffff then return (← Read.number 8, 8)
  else throw .reservedLength

def readAddressBytes : Read Nat := do
  let size := (← Read.byte).toNat
  if size = 1 ∨ size = 2 ∨ size = 4 ∨ size = 8 then return size else throw .addressSize

/-- What follows the common part of a header, by the type of the unit. -/
def readUnitKind (offsetBytes : Nat) : Nat → Read UnitKind
  | 0x01 | 0x03 => return .other
  | 0x04 | 0x05 => do
    let _ ← Read.number 8
    return .other
  | 0x02 | 0x06 => do
    let signature ← Read.number 8
    let place ← Read.offset offsetBytes
    return .type signature place
  | _ => throw .unitType

/-- The header within a unit, and the place of the abbreviations. -/
structure Header where
  encoding : Encoding
  kind : UnitKind
  abbreviationsPlace : Nat
deriving Repr, Inhabited

/-- The type of the units of a section before version 5, where headers do not tell it. -/
def oldUnitType (inTypes : Bool) : Nat := if inTypes then 0x02 else 0x01

def readHeader (inTypes : Bool) (offsetBytes : Nat) : Read Header := do
  let version ← Read.number 2
  if 2 ≤ version ∧ version ≤ 4 then
    let abbreviationsPlace ← Read.offset offsetBytes
    let addressBytes ← readAddressBytes
    let kind ← readUnitKind offsetBytes (oldUnitType inTypes)
    return ⟨⟨version, offsetBytes, addressBytes⟩, kind, abbreviationsPlace⟩
  else if version = 5 then
    let type ← Read.byte
    let addressBytes ← readAddressBytes
    let abbreviationsPlace ← Read.offset offsetBytes
    let kind ← readUnitKind offsetBytes type.toNat
    return ⟨⟨version, offsetBytes, addressBytes⟩, kind, abbreviationsPlace⟩
  else throw .unknownVersion

/-- A unit whose abbreviations are not read yet, and the place of those. -/
def readUnit (inTypes : Bool) : Read (CompiledUnit × Nat) := do
  let start := (← get).place
  let (length, offsetBytes) ← readLength
  let within ← Read.split length
  let (header, rest) ← Read.within within (readHeader inTypes offsetBytes)
  return ({ inTypes, start, headerBytes := rest.place - start, stop := within.stop,
            encoding := header.encoding, kind := header.kind, abbreviations := [] },
          header.abbreviationsPlace)

/-- The units up to the end of a section, each with the place of its abbreviations, after those of
`seen`. -/
def readUnits (inTypes : Bool) (seen : List (CompiledUnit × Nat)) :
    (fuel : Nat) → Cursor → Script (Readable (CompiledUnit × Nat))
  | 0, _ => return .found seen none
  | fuel + 1, c => do
    if c.atEnd then return .found seen none
    match ← (Read.on c (readUnit inTypes)).run with
    | .error defect => return .found seen (some defect)
    | .ok (unit, c) => readUnits inTypes (unit :: seen) fuel c

namespace CompiledUnit

/-- The section that the unit lies in. -/
def part (u : CompiledUnit) : Part := if u.inTypes then .types else .info

/-- Whether a place of the unit lies among its entries. -/
def holds (u : CompiledUnit) (place : Nat) : Bool :=
  decide (u.headerBytes ≤ place) && decide (u.start + place < u.stop)

/-- The end of the unit, as a place of it. -/
def length (u : CompiledUnit) : Nat := u.stop - u.start

def cursorAt (u : CompiledUnit) (place : Nat) : Cursor := ⟨u.part, u.start + place, u.stop⟩

/-- The place of the unit where a cursor stands. -/
def placeOf (u : CompiledUnit) (c : Cursor) : Nat := c.place - u.start

end CompiledUnit

end LayoutGraph.Dwarf
