-- Headers of ELF files of 32 and 64 bits in both byte orders: the header of
-- the file and the table of its sections.
import LayoutGraph.Object.Basic

namespace LayoutGraph.Object.Elf

/-! ## Formats -/

/-- The width and the byte order of the numbers in a file. -/
structure Format where
  wide : Bool
  littleEndian : Bool
deriving DecidableEq, Repr, Inhabited

namespace Format

/-- The bytes of an address. -/
def word (f : Format) : Nat := if f.wide then 8 else 4

/-- The fields of the file header after the identification. -/
def headerWidths (f : Format) : List Nat :=
  [2, 2, 4, f.word, f.word, f.word, 4, 2, 2, 2, 2, 2, 2]

def programWidths (f : Format) : List Nat :=
  [4, 4, f.word, f.word, f.word, f.word, f.word, f.word]

def sectionWidths (f : Format) : List Nat :=
  [4, 4, f.word, f.word, f.word, f.word, 4, 4, f.word, f.word]

def symbolWidths (f : Format) : List Nat :=
  if f.wide then [4, 1, 1, 2, 8, 8] else [4, 4, 4, 1, 1, 2]

/-- The fields of a relocation, which may state an addend or leave it in the section. -/
def relocationWidths (f : Format) (statesAddend : Bool) : List Nat :=
  if statesAddend then [f.word, f.word, f.word] else [f.word, f.word]

/-- The fields in front of compressed bytes. -/
def compressionWidths (f : Format) : List Nat := if f.wide then [4, 4, 8, 8] else [4, 4, 4]

end Format

/-! ## Headers -/

/-- The file header, as far as sections are found from it. -/
structure Header where
  format : Format
  machine : Nat
  programPlace : Nat
  sectionPlace : Nat
  programEntrySize : Nat
  programCount : Nat
  sectionEntrySize : Nat
  sectionCount : Nat
  nameSection : Nat
deriving Repr, Inhabited

structure SectionHeader where
  name : Nat
  type : Nat
  flags : Nat
  address : Nat
  place : Nat
  size : Nat
  link : Nat
  info : Nat
deriving Repr, Inhabited

/-- The bytes that identify the format. -/
def identificationSize : Nat := 16

def readHeader (bytes : Bytes) : Except FileDefect Header :=
  let ident (index : Nat) : Nat := (bytes.getD index 0).toNat
  let format : Format := ⟨ident 4 = 2, ident 5 = 1⟩
  match bytes.record? format.littleEndian identificationSize format.headerWidths with
  | some [_, machine, _, _, programPlace, sectionPlace, _, _, programEntrySize, programCount,
      sectionEntrySize, sectionCount, nameSection] =>
    if (ident 5 = 1 ∨ ident 5 = 2) ∧ ident 6 = 1 then
      .ok { format, machine, programPlace, sectionPlace, programEntrySize, programCount,
            sectionEntrySize, sectionCount, nameSection }
    else .error .elfHeader
  | _ => .error .elfHeaderSize

def SectionHeader.ofRecord : List Nat → SectionHeader
  | [name, type, flags, address, place, size, link, info, _, _] =>
    { name, type, flags, address, place, size, link, info }
  | _ => default

namespace Header

/-- The first section, which holds the numbers that do not fit the header. -/
def firstSection? (h : Header) (bytes : Bytes) : Except FileDefect (Option SectionHeader) :=
  if h.sectionPlace = 0 then .ok none
  else if h.sectionEntrySize ≠ Bytes.recordSize h.format.sectionWidths then
    .error .elfSectionEntrySize
  else
    match bytes.record? h.format.littleEndian h.sectionPlace h.format.sectionWidths with
    | some fields => .ok (some (.ofRecord fields))
    | none => .error .elfFirstSection

/-- The table of segments must lie in the file; it is of no other use. -/
def checkPrograms (h : Header) (bytes : Bytes) : Except FileDefect Unit := do
  if h.programPlace = 0 then return
  let count ← if h.programCount < 0xffff then pure h.programCount else
    match ← h.firstSection? bytes with
    | some s => pure s.info
    | none => throw .elfProgramCount
  if count = 0 then return
  let size := Bytes.recordSize h.format.programWidths
  if h.programEntrySize ≠ size then throw .elfProgramEntrySize
  if bytes.size < h.programPlace + count * size then throw .elfProgramTable

def sectionHeaders (h : Header) (bytes : Bytes) : Except FileDefect (List SectionHeader) := do
  if h.sectionPlace = 0 then return []
  let count ← if 0 < h.sectionCount then pure h.sectionCount else do
    pure ((← h.firstSection? bytes).elim 0 SectionHeader.size)
  if count = 0 then return []
  if h.sectionEntrySize ≠ Bytes.recordSize h.format.sectionWidths then throw .elfSectionEntrySize
  match bytes.table? h.format.littleEndian h.format.sectionWidths h.sectionPlace count with
  | some table => return table.map .ofRecord
  | none => throw .elfSectionTable

/-- The index of the section that holds the names of sections. -/
def nameSectionIndex (h : Header) (bytes : Bytes) : Except FileDefect Nat := do
  if h.nameSection ≠ 0xffff then return h.nameSection
  return (← h.firstSection? bytes).elim 0 SectionHeader.link

end Header

/-! ## Sections -/

/-- The types of section that are told apart. -/
def symbolTable : Nat := 2
def stringTable : Nat := 3
def relocationsWithAddends : Nat := 4
def withoutBytes : Nat := 8
def relocations : Nat := 9
def dynamicSymbolTable : Nat := 11
def symbolSections : Nat := 18
def compactRelocations : Nat := 0x40000014

namespace SectionHeader

/-- Where the bytes of a section lie in the file, if it has any there. -/
def range? (s : SectionHeader) : Option (Nat × Nat) :=
  if s.type = withoutBytes then none else some (s.place, s.size)

/-- The records that fill a section, with nothing left over at its end. -/
def records? (s : SectionHeader) (bytes : Bytes) (f : Format) (widths : List Nat) :
    Option (List (List Nat)) :=
  match s.range? with
  | none => some []
  | some (place, size) =>
    if size % Bytes.recordSize widths = 0 then
      bytes.table? f.littleEndian widths place (size / Bytes.recordSize widths)
    else none

def holdsRelocations (s : SectionHeader) : Bool :=
  s.type = relocations || s.type = relocationsWithAddends || s.type = compactRelocations

end SectionHeader

end LayoutGraph.Object.Elf
