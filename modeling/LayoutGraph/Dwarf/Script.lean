-- What a reader does to debug sections. A script looks at numbers in the
-- sections, one look after the other; where it looks next depends on what it
-- has found. A relocation changes an offset or an address that is looked at.
import LayoutGraph.Bytes
import LayoutGraph.Word

namespace LayoutGraph.Dwarf

/-! ## Sections -/

/-- What a relocation makes of the number at its place: `addend` alone, or added to the number. -/
structure Relocation where
  addend : Nat
  addsToStored : Bool
deriving DecidableEq, Repr, Inhabited

/-- The bytes of a debug section, and the relocations by their places. -/
structure Section where
  bytes : Bytes := #[]
  littleEndian : Bool := true
  relocations : List (Nat × Relocation) := []
deriving Repr, Inhabited

/-- What is read at a place where `value` is stored. -/
def Section.relocate (s : Section) (place value : Nat) : Nat :=
  match s.relocations.lookup place with
  | some r => if r.addsToStored then Word.wrap (value + r.addend) else r.addend
  | none => value

/-- The sections that types are read from. -/
structure Sections where
  info : Section := {}
  types : Section := {}
  abbreviations : Section := {}
  text : Section := {}
  lineText : Section := {}
  textOffsets : Section := {}
  addresses : Section := {}
  lines : Section := {}
deriving Repr, Inhabited

/-- Names one of the sections. -/
inductive Part
  | info
  | types
  | abbreviations
  | text
  | lineText
  | textOffsets
  | addresses
  | lines
deriving DecidableEq, Repr, Inhabited

def Sections.part (sections : Sections) : Part → Section
  | .info => sections.info
  | .types => sections.types
  | .abbreviations => sections.abbreviations
  | .text => sections.text
  | .lineText => sections.lineText
  | .textOffsets => sections.textOffsets
  | .addresses => sections.addresses
  | .lines => sections.lines

/-! ## Looks -/

/-- A look at the number in `count` bytes of a section. -/
structure Look where
  part : Part
  place : Nat
  count : Nat
  /-- Whether the number is taken as an offset or an address, so that a relocation changes it. -/
  relocates : Bool
deriving DecidableEq, Repr, Inhabited

/-- The number that a look finds, if the section has the bytes. -/
def Section.find? (s : Section) (l : Look) : Option Nat :=
  (Bytes.numberAt? s.bytes s.littleEndian l.place l.count).map fun stored =>
    if l.relocates then s.relocate l.place stored else stored

def Sections.find? (sections : Sections) (l : Look) : Option Nat := (sections.part l.part).find? l

/-! ## Scripts -/

inductive Script (α : Type)
  | done (a : α)
  | look (l : Look) (next : Option Nat → Script α)
  /-- Asks how many bytes a section has. -/
  | size (part : Part) (next : Nat → Script α)

namespace Script

variable {α β : Type}

protected def bind : Script α → (α → Script β) → Script β
  | .done a, f => f a
  | .look l next, f => .look l fun found => (next found).bind f
  | .size part next, f => .size part fun bytes => (next bytes).bind f

instance : Monad Script where
  pure := .done
  bind := .bind

/-- One look. -/
def find? (l : Look) : Script (Option Nat) := .look l .done

/-- The number of bytes of a section. -/
def sizeOf (part : Part) : Script Nat := .size part .done

/-- What comes of a script. -/
def run (sections : Sections) : Script α → α
  | .done a => a
  | .look l next => (next (sections.find? l)).run sections
  | .size part next => (next (sections.part part).bytes.size).run sections

/-- The looks that a script takes, in order. -/
def looks (sections : Sections) : Script α → List Look
  | .done _ => []
  | .look l next => l :: (next (sections.find? l)).looks sections
  | .size part next => (next (sections.part part).bytes.size).looks sections

end Script

end LayoutGraph.Dwarf
