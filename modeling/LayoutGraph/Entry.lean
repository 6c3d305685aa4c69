-- The entries of debug information that describe types, and the names by
-- which they refer to one another.
import LayoutGraph.Text.Numeral

namespace LayoutGraph

/-! ## The identity of an entry -/

/-- Names one entry among those of one input. -/
structure EntryId where
  raw : Nat
deriving DecidableEq, Repr, Inhabited

namespace EntryId

/-- The entry at `offset` in unit number `unit`: the unit in the high 32 bits,
the offset in the low 32 bits. -/
def ofUnit (unit offset : Nat) : EntryId :=
  ⟨unit % Word.halfCount * Word.halfCount + offset % Word.halfCount⟩

def unit (id : EntryId) : Nat := id.raw / Word.halfCount

def offset (id : EntryId) : Nat := id.raw % Word.halfCount

/-- An id is written as its unit in decimal and its offset in hexadecimal. -/
def text (id : EntryId) : String :=
  "<" ++ toString id.unit ++ ":0x" ++ Text.hex id.offset ++ ">"

/-- The id of a unit and an offset gives both back, when each fits 32 bits. -/
theorem unit_offset_ofUnit {u o : Nat} (hu : u < Word.halfCount) (ho : o < Word.halfCount) :
    (ofUnit u o).unit = u ∧ (ofUnit u o).offset = o := by
  simp only [ofUnit, unit, offset, Word.halfCount] at *
  omega

end EntryId

/-! ## What an entry describes -/

inductive CompoundKind
  | struct
  | union
deriving DecidableEq, Repr, Inhabited

/-- One member of a struct or union. -/
structure Member where
  name : Option String
  byteOffset : Nat
  type : EntryId
  bitSize : Option Nat
  bitOffset : Option Nat
deriving DecidableEq, Repr, Inhabited

/-- One named constant of an enumeration. -/
structure Constant where
  name : String
  value : Int
deriving DecidableEq, Repr, Inhabited

/-- The kinds of type. An absent target stands for `void`. -/
inductive EntryKind
  /-- A primitive type, or a type with no layout of its own, such as a function. -/
  | base
  /-- A struct or union; a declaration has no members of its own. -/
  | compound (kind : CompoundKind) (members : List Member) (declaration : Bool)
  | enumeration (constants : List Constant)
  /-- One extent for each axis, the outermost first. -/
  | array (element : EntryId) (extents : List Nat)
  | pointer (target : Option EntryId)
  | typedef (target : Option EntryId)
  /-- A `const`, `volatile`, `restrict` or `_Atomic` around a type: layout looks through it. -/
  | qualified (target : Option EntryId)
deriving DecidableEq, Repr, Inhabited

structure Entry where
  id : EntryId
  name : Option String
  byteSize : Option Nat
  kind : EntryKind
deriving DecidableEq, Repr, Inhabited

namespace Entry

/-- The name, or the empty text for an entry without one. -/
def shownName (e : Entry) : String := e.name.getD ""

/-- An entry that has no name, or an empty one. -/
def anonymous (e : Entry) : Bool := e.shownName = ""

/-- A struct, union or enumeration without a name: it takes the name of the
typedef that aliases it. -/
def awaitsName (e : Entry) : Bool :=
  match e.kind with
  | .compound .. | .enumeration _ => e.anonymous
  | _ => false

end Entry

end LayoutGraph
