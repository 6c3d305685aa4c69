-- Attributes of entries. The form of an attribute says how its value is
-- stored; what the value can serve as depends on the kind of value alone.
import LayoutGraph.Dwarf.Abbreviation
import LayoutGraph.Dwarf.Readable

namespace LayoutGraph.Dwarf

/-! ## Encodings -/

/-- What a unit's header says about how its entries are stored. -/
structure Encoding where
  version : Nat
  /-- The bytes of an offset into a section: four, or eight in the long format. -/
  offsetBytes : Nat
  addressBytes : Nat
deriving DecidableEq, Repr, Inhabited

/-! ## Values -/

inductive AttributeValue
  | address (value : Nat)
  | addressIndex (index : Nat)
  /-- A number of a fixed width, with or without a sign. -/
  | data (bytes value : Nat)
  | signed (value : Int)
  | unsigned (value : Nat)
  /-- A run of bytes, told by where they stand. -/
  | block (bytes : Cursor)
  | flag (value : Bool)
  | sectionOffset (offset : Nat)
  | unitReference (offset : Nat)
  | infoReference (offset : Nat)
  | signatureReference (signature : Nat)
  | text (bytes : List UInt8)
  | textOffset (offset : Nat)
  | lineTextOffset (offset : Nat)
  | textIndex (index : Nat)
  /-- A value of use to other tools. -/
  | other
deriving DecidableEq, Repr, Inhabited

namespace AttributeValue

/-- The value as a number without a sign. -/
def unsigned? : AttributeValue → Option Nat
  | .data _ n | .unsigned n => some n
  | .signed n => if 0 ≤ n then some n.toNat else none
  | _ => none

/-- The value as a number with a sign; one of fixed width has its sign in the top bit. -/
def signed? : AttributeValue → Option Int
  | .data bytes n => some (Word.signed (8 * bytes) n)
  | .signed n => some n
  | .unsigned n => if n < Word.signedEnd then some n else none
  | _ => none

/-- The value as an expression. -/
def expression? : AttributeValue → Option Cursor
  | .block bytes => some bytes
  | _ => none

/-- The value as an offset into another section. -/
def sectionOffset? : AttributeValue → Option Nat
  | .sectionOffset offset => some offset
  | _ => none

/-- A flag that is set. -/
def isSet (v : AttributeValue) : Bool := v = .flag true

end AttributeValue

structure Attribute where
  name : AttributeName
  value : AttributeValue
deriving DecidableEq, Repr, Inhabited

/-! ## Reading -/

namespace AttributeValue

/-- Whether a number of the width of an offset is an offset. For an attribute that tells a place in
another section it always is, for the place of a member only in the versions before expressions had
a form of their own. -/
def isOffset (e : Encoding) (asked : AttributeName) (bytes : Nat) : Bool :=
  bytes = e.offsetBytes &&
    (asked = .lineProgram || asked = .otherPlace ||
      asked = .memberLocation && (e.version = 2 || e.version = 3))

/-- A run of bytes whose length is given. -/
def readBlock (length : Nat) : Read AttributeValue := return .block (← Read.split length)

/-- A value in a form that is not found in the data. -/
def readForm (e : Encoding) (spec : AttributeSpec) : Form → Read AttributeValue
  | .address => return .address (← Read.offset e.addressBytes)
  | .block lengthBytes => do readBlock (← Read.number lengthBytes)
  | .variableBlock | .expression => do readBlock (← Read.unsigned)
  | .data bytes =>
    if isOffset e spec.name bytes then return .sectionOffset (← Read.offset bytes)
    else return .data bytes (← Read.number bytes)
  | .data16 => readBlock 16
  | .text => return .text (← Read.textBytes)
  | .flag => return .flag ((← Read.byte) ≠ 0)
  | .presentFlag => return .flag true
  | .signed => return .signed (← Read.signed)
  | .unsigned => return .unsigned (← Read.unsigned)
  | .textOffset => return .textOffset (← Read.offset e.offsetBytes)
  | .lineTextOffset => return .lineTextOffset (← Read.offset e.offsetBytes)
  | .textIndex => return .textIndex (← Read.unsigned)
  | .fixedTextIndex bytes => return .textIndex (← Read.number bytes)
  | .infoReference => do
    let bytes := if e.version = 2 then e.addressBytes else e.offsetBytes
    return .infoReference (← Read.offset bytes)
  | .unitReference bytes => return .unitReference (← Read.number bytes)
  | .variableUnitReference => return .unitReference (← Read.unsigned)
  | .signatureReference => return .signatureReference (← Read.number 8)
  | .sectionOffset => return .sectionOffset (← Read.offset e.offsetBytes)
  | .addressIndex => return .addressIndex (← Read.unsigned)
  | .fixedAddressIndex bytes => return .addressIndex (← Read.number bytes)
  | .supplementaryTextOffset | .supplementaryOffset => do
    let _ ← Read.offset e.offsetBytes
    return .other
  | .supplementaryReference bytes => do
    let _ ← Read.number bytes
    return .other
  | .listIndex => do
    let _ ← Read.unsigned
    return .other
  | .implicitConstant =>
    match spec.implicitConstant with
    | some n => return .signed n
    | none => throw .strayImplicitConstant
  | .indirect => throw .unknownForm

/-- A value in the form of a code; `fuel` bounds the forms that are found in the data. -/
def readCode (e : Encoding) (spec : AttributeSpec) : (fuel code : Nat) → Read AttributeValue
  | 0, _ => throw .endOfInput
  | fuel + 1, code =>
    match Form.ofCode? code with
    | none => throw .unknownForm
    | some .indirect => do readCode e spec fuel (← Read.unsigned16)
    | some form => readForm e spec form

end AttributeValue

/-- The attributes of an entry, as far as they can be read. -/
abbrev AttributeList := Readable Attribute

namespace AttributeList

/-- Reads attributes in order. A defect ends them and moves the cursor no further. -/
def read (e : Encoding) : List AttributeSpec → Cursor → Script (AttributeList × Cursor)
  | [], c => return (.nil, c)
  | spec :: rest, c => do
    match ← (Read.on c (AttributeValue.readCode e spec (c.stop + 1) spec.form)).run with
    | .error defect => return (.broken defect, c)
    | .ok (value, c) =>
      let (later, c) ← read e rest c
      return (later.cons ⟨spec.name, value⟩, c)

/-- The value of the first attribute of the wanted name. A defect shows only where no such attribute
stands before it. -/
def find? (l : AttributeList) (wanted : AttributeName) : Except Defect (Option AttributeValue) :=
  match l.items.find? fun a => a.name = wanted with
  | some a => .ok (some a.value)
  | none => l.defect.elim (.ok none) .error

/-- The values of all attributes of the wanted name, in order. -/
def all (l : AttributeList) (wanted : AttributeName) : List AttributeValue :=
  (l.items.filter fun a => a.name = wanted).map Attribute.value

/-- The last section offset that an attribute of the wanted name gives. -/
def lastOffset? (l : AttributeList) (wanted : AttributeName) : Option Nat :=
  ((l.all wanted).filterMap AttributeValue.sectionOffset?).getLast?

end AttributeList

end LayoutGraph.Dwarf
