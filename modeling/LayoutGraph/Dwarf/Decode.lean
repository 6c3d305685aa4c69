-- From the entries of units to entries that describe types. Every entry
-- with the tag of a type becomes one; references become ids.
import LayoutGraph.Dwarf.Location
import LayoutGraph.Dwarf.Text

namespace LayoutGraph.Dwarf

/-- What the decoding of one unit can ask. -/
structure Scope where
  units : List CompiledUnit
  /-- The number of the unit among all units. -/
  index : Nat
  unit : CompiledUnit
  outline : Outline

namespace Scope

/-! ## Attributes -/

/-- The id of an entry of the unit. -/
def idOf (s : Scope) (d : Die) : EntryId := .ofUnit s.index d.place

/-- The value of an attribute, if the entry has it. -/
def attribute? (d : Die) (wanted : AttributeName) : Decoding (Option AttributeValue) :=
  .settle (.attribute wanted.text) (d.attributes.find? wanted)

/-- The value of an attribute as a number without a sign. -/
def number? (d : Die) (wanted : AttributeName) : Decoding (Option Nat) := do
  return (← attribute? d wanted).bind AttributeValue.unsigned?

/-- Whether a flag is there and set. -/
def hasFlag (d : Die) (wanted : AttributeName) : Decoding Bool := do
  return (← attribute? d wanted).any AttributeValue.isSet

/-- The name of an entry, if it has one. -/
def name? (s : Scope) (d : Die) : Decoding (Option String) := do
  match ← attribute? d .name with
  | some v => return some (← s.unit.textOf v)
  | none => return none

/-! ## References -/

/-- The number of no unit. An id with it names no entry. -/
def noUnit : Nat := 0xffffffff

/-- The id of the entry at an offset of `.debug_info`. -/
def idAt (s : Scope) (offset : Nat) : EntryId :=
  let found := s.units.zipIdx.find? fun (u, _) =>
    !u.inTypes && decide (u.start ≤ offset) && u.holds (offset - u.start)
  match found with
  | some (u, index) => .ofUnit index (offset - u.start)
  | none => .ofUnit noUnit offset

/-- The id of the type of a signature, if a unit holds it. -/
def idOfSignature? (s : Scope) (signature : Nat) : Option EntryId :=
  s.units.zipIdx.findSome? fun (u, index) =>
    match u.kind with
    | .type own place => if own = signature then some (.ofUnit index place) else none
    | .other => none

/-- The type of an entry, if it has one. A reference that leads nowhere becomes an id of no
entry. -/
def type? (s : Scope) (d : Die) : Decoding (Option EntryId) := do
  match ← attribute? d .type with
  | none => return none
  | some (.unitReference place) => return some (.ofUnit s.index place)
  | some (.infoReference offset) => return some (s.idAt offset)
  | some (.signatureReference signature) =>
    return some ((s.idOfSignature? signature).getD (.ofUnit noUnit d.place))
  | some _ =>
    .note (.unsupportedTypeForm (s.idOf d) s.unit.inTypes s.unit.start)
    return some (.ofUnit noUnit d.place)

/-! ## Members -/

/-- The place that a member gives for itself, as a number or as an expression. -/
def location? (s : Scope) (d : Die) : Decoding (Option Nat) := do
  match ← attribute? d .memberLocation with
  | none => return none
  | some v =>
    match v.unsigned?, v.expression? with
    | some place, _ => return some place
    | none, none => return none
    | none, some bytes =>
      let operations := Operation.ofExpression s.unit.encoding bytes
      return some (placeOf (← .during .location operations))

/-- A member of the class rather than of its objects. -/
def isStatic (d : Die) : Decoding Bool := do
  if ← hasFlag d .external then hasFlag d .declaration else return false

/-- The place of a member in bytes, and of a bit-field in bits from there. An offset in bits from
the start of the object gives both where there is no place in bytes. -/
def bytesAndBits (location dataBits ownBits : Option Nat) : Nat × Option Nat :=
  match location, dataBits with
  | some bytes, some bits => (bytes, some (bits - Word.mul bytes 8))
  | none, some bits => (bits / 8, some (bits % 8))
  | bytes, none => (bytes.getD 0, ownBits)

/-- A member of a known type. -/
def member (s : Scope) (d : Die) (type : EntryId) : Decoding Member := do
  let name ← s.name? d
  let location ← s.location? d
  let bitSize ← number? d .bitSize
  let dataBits ← number? d .dataBitOffset
  let ownBits ← if dataBits.isSome then pure none else number? d .bitOffset
  let (byteOffset, bitOffset) := bytesAndBits location dataBits ownBits
  let bitOffset := if bitSize.isSome then bitOffset else none
  return { name, byteOffset, type, bitSize, bitOffset }

/-- The member that a child of a struct or union is, if it is one with storage and a type. -/
def member? (s : Scope) (d : Die) : Decoding (Option Member) := do
  if d.tag ≠ .member then return none
  if ← isStatic d then return none
  match ← s.type? d with
  | some type => return some (← s.member d type)
  | none =>
    .note (.untypedMember (s.idOf d))
    return none

/-! ## Constants and extents -/

/-- The constant that a child of an enumeration is, if it is one with a name. -/
def constant? (s : Scope) (d : Die) : Decoding (Option Constant) := do
  if d.tag ≠ .enumerator then return none
  match ← s.name? d with
  | none => return none
  | some name =>
    let value := (← attribute? d .constValue).bind AttributeValue.signed?
    return some ⟨name, value.getD 0⟩

/-- The number of indices from a lower to an upper bound, or zero where that is no word. -/
def span (lower : Nat) (upper : Option Nat) : Nat :=
  match upper with
  | some upper => if lower ≤ upper ∧ upper - lower < Word.greatest then upper - lower + 1 else 0
  | none => 0

/-- The extent that a child of an array gives, if it stands for an axis. -/
def extent? (d : Die) : Decoding (Option Nat) := do
  if d.tag ≠ .subrangeType ∧ d.tag ≠ .enumerationType then return none
  match ← number? d .count with
  | some count => return some count
  | none =>
    let lower ← number? d .lowerBound
    let upper ← number? d .upperBound
    return some (span (lower.getD 0) upper)

/-! ## Kinds -/

def members (s : Scope) (d : Die) : Decoding (List Member) := do
  .gather .compoundChildren s.member? (← s.outline.children d)

def constants (s : Scope) (d : Die) : Decoding (List Constant) := do
  .gather .constants s.constant? (← s.outline.children d)

def extents (s : Scope) (d : Die) : Decoding (List Nat) := do
  .gather .subranges extent? (← s.outline.children d)

def compound (s : Scope) (kind : CompoundKind) (d : Die) : Decoding EntryKind := do
  let members ← s.members d
  return .compound kind members (← hasFlag d .declaration)

/-- What an entry describes, if its tag is that of a type. -/
def kind? (s : Scope) (d : Die) : Decoding (Option EntryKind) :=
  match d.tag with
  | .baseType | .unspecifiedType | .subroutineType => return some .base
  | .structureType | .classType => return some (← s.compound .struct d)
  | .unionType => return some (← s.compound .union d)
  | .enumerationType => return some (.enumeration (← s.constants d))
  | .arrayType => do
    let element ← s.type? d
    return some (.array (element.getD (.ofUnit noUnit d.place)) (← s.extents d))
  | .pointerType | .referenceType | .rvalueReferenceType => return some (.pointer (← s.type? d))
  | .typedef => return some (.typedef (← s.type? d))
  | .constType | .volatileType | .restrictType | .atomicType =>
    return some (.qualified (← s.type? d))
  | .member | .subrangeType | .enumerator | .other => return none

/-- The size of a type that gives none: a pointer has that of an address. -/
def sizeOr (s : Scope) (kind : EntryKind) (size : Option Nat) : Option Nat :=
  match kind, size with
  | .pointer _, none => some s.unit.encoding.addressBytes
  | _, size => size

/-- The name of a primitive type that has none. -/
def nameOr (kind : EntryKind) (name : Option String) : Option String :=
  match kind, name with
  | .base, none => some "void"
  | _, name => name

/-- The type that an entry describes, if it describes one, and whether it stands directly below
the root of its unit. -/
def entry? (s : Scope) (depth : Int) (d : Die) : Decoding (Option (Entry × Bool)) := do
  match ← s.kind? d with
  | none => return none
  | some kind =>
    let size ← number? d .byteSize
    let name ← s.name? d
    return some (⟨s.idOf d, nameOr kind name, s.sizeOr kind size, kind⟩, depth = 1)

/-- The entries of a walk with their depths: each stands its step below the one before it. -/
def depthsFrom : (depth : Int) → List (Int × Die) → List (Int × Die)
  | _, [] => []
  | depth, (step, d) :: rest => (depth + step, d) :: depthsFrom (depth + step) rest

/-- The types of the unit in order. -/
def entries (s : Scope) : Decoding (List (Entry × Bool)) := do
  let walk ← s.outline.walk
  .gather .walkTree (fun (depth, d) => s.entry? depth d)
    { walk with items := depthsFrom 0 walk.items }

end Scope

/-! ## All units -/

/-- The types of units, those of `index` and later. -/
def decodeFrom (units : List CompiledUnit) :
    (index : Nat) → List CompiledUnit → Decoding (List (Entry × Bool))
  | _, [] => return []
  | index, u :: rest => do
    let here ← Scope.entries ⟨units, index, u, u.outline⟩
    return here ++ (← decodeFrom units (index + 1) rest)

/-- What sections describe: the types in order, and how many units there are. -/
structure Contents where
  unitCount : Nat
  /-- Each type, and whether it stands directly below the root of its unit. -/
  types : List (Entry × Bool)
deriving Repr, Inhabited

/-- The types of all units. -/
def decode : Decoding Contents := do
  let units ← allUnits
  return ⟨units.length, ← decodeFrom units 0 units⟩

namespace Sections

/-- The types that the sections describe, and what their decoding left in the log. -/
def decode (sections : Sections) : Except Fault Contents × List Log.Event :=
  let (contents, log) := (Dwarf.decode.run.run #[]).run sections
  (contents, log.toList)

/-- The looks that the decoding takes at the sections. -/
def looks (sections : Sections) : List Look := (Dwarf.decode.run.run #[]).looks sections

end Sections

end LayoutGraph.Dwarf
