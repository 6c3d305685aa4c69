-- Headers of line programs. Of a line program nothing is used, but a unit
-- whose line program has a broken header is not read.
import LayoutGraph.Dwarf.Unit

namespace LayoutGraph.Dwarf

namespace LineHeader

/-! ## Entries of directories and files -/

/-- Whether a form can stand in the tables of a line program. -/
def allows : Form → Bool
  | .block _ | .variableBlock | .data _ | .data16 | .unsigned | .signed | .flag | .sectionOffset
  | .text | .textOffset | .supplementaryTextOffset | .lineTextOffset | .textIndex
  | .fixedTextIndex _ => true
  | _ => false

/-- Passes over a value in the form of a code. -/
def passValue (e : Encoding) (code : Nat) : Read Unit :=
  match (Form.ofCode? code).filter allows with
  | some form => do
    let _ ← AttributeValue.readForm e ⟨.other, code, none⟩ form
  | none => throw .unknownForm

/-- What an entry of a table says in one of its values, if that is a path. -/
def pathContent : Nat := 1

/-- The contents and the forms of the values of each entry. -/
def readFormats : (count : Nat) → Read (List (Nat × Nat))
  | 0 => return []
  | count + 1 => do
    let content ← Read.unsigned
    let form ← Read.unsigned16
    return (content, form) :: (← readFormats count)

/-- Passes over `count` entries; `fuel` bounds the bytes, of which each entry takes some. -/
def passEntries (e : Encoding) (forms : List Nat) : (fuel count : Nat) → Read Unit
  | _, 0 => return ()
  | 0, _ => throw .endOfInput
  | fuel + 1, count + 1 => do
    forms.forM (passValue e)
    passEntries e forms fuel count

/-- Passes over a table that describes its own entries. One value of each must be a path. -/
def passTable (e : Encoding) : Read Unit := do
  let formats ← readFormats (← Read.byte).toNat
  if (formats.filter fun f => f.1 = pathContent).length ≠ 1 then throw .noPathFormat
  let count ← Read.unsigned
  passEntries e (formats.map Prod.snd) ((← get).stop + 1) count

/-- Passes over texts up to an empty one, and over `numbers` numbers after each. -/
def passTexts (numbers : Nat) : (fuel : Nat) → Read Unit
  | 0 => throw .endOfInput
  | fuel + 1 => do
    if (← Read.textBytes).isEmpty then return
    (List.range numbers).forM fun _ => do let _ ← Read.unsigned
    passTexts numbers fuel

/-! ## The header -/

/-- A byte that must not be zero. -/
def nonzero (defect : Defect) : Read UInt8 := do
  let b ← Read.byte
  if b = 0 then throw defect else return b

/-- The part of a header after its length. -/
def passFields (e : Encoding) : Read Unit := do
  let _ ← nonzero .zeroInstructionBytes
  if 4 ≤ e.version then
    let _ ← nonzero .zeroOperations
  Read.skip 2
  let _ ← nonzero .zeroLineRange
  let opcodes ← nonzero .zeroOpcodeBase
  Read.skip (opcodes.toNat - 1)
  if e.version ≤ 4 then
    let fuel := (← get).stop + 1
    passTexts 0 fuel
    passTexts 3 fuel
  else
    passTable e
    passTable e

/-- The part of a line program that starts with its version. -/
def passProgram (offsetBytes : Nat) : Read Unit := do
  let version ← Read.number 2
  if version < 2 ∨ 5 < version then throw .unknownVersion
  let mut addressBytes := 0
  if version = 5 then
    addressBytes ← readAddressBytes
    if (← Read.byte) ≠ 0 then throw .segmentSize
  let length ← Read.number offsetBytes
  let fields ← Read.split length
  let _ ← Read.within fields (passFields ⟨version, offsetBytes, addressBytes⟩)

end LineHeader

/-- Reads the header of a line program for its defects. -/
def checkLineHeader : Read Unit := do
  let (length, offsetBytes) ← readLength
  let program ← Read.split length
  let _ ← Read.within program (LineHeader.passProgram offsetBytes)

end LayoutGraph.Dwarf
