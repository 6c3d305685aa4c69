-- ELF files: the tables of a file, read at once. A table that is broken
-- makes the file unreadable.
import LayoutGraph.Object.Elf.Header

namespace LayoutGraph.Object.Elf

/-! ## Files -/

/-- A file whose tables are read. -/
structure File where
  bytes : Bytes
  format : Format
  machine : Nat
  sections : List SectionHeader
  /-- The names of the sections; one that cannot be read is absent. -/
  names : List (Option (List UInt8))
  /-- The index of the section that holds the symbols, or zero. -/
  symbolSection : Nat
  /-- The addresses of the symbols. -/
  symbols : List Nat
deriving Repr, Inhabited

/-- The names of the sections of a file. -/
def readNames (h : Header) (bytes : Bytes) (sections : List SectionHeader) :
    Except FileDefect (List (Option (List UInt8))) := do
  if sections.isEmpty then return []
  let index ← h.nameSectionIndex bytes
  if index = 0 then throw .elfNameSectionMissing
  match sections[index]? with
  | none => throw .elfNameSection
  | some table =>
    match table.range? with
    | none => return sections.map fun _ => none
    | some (place, size) =>
      if Word.greatest < place + size then throw .elfNameSectionEnd
      return sections.map fun s => bytes.textAt? (place + s.name) (place + size)

/-- The section that holds the names of symbols must be one of texts, and its end a number that fits
a word. -/
def checkStrings (sections : List SectionHeader) (index : Nat) : Except FileDefect Unit :=
  if index = 0 then .ok ()
  else
    match sections[index]? with
    | none => .error .elfSectionIndex
    | some s =>
      if s.type ≠ stringTable then .error .elfStringSection
      else if Word.greatest < s.place + s.size then .error .elfStringSectionEnd
      else .ok ()

/-- The address in the record of a symbol. -/
def symbolAddress (f : Format) (fields : List Nat) : Nat :=
  fields.getD (if f.wide then 4 else 1) 0

/-- The index of the first section of a type and the addresses of the symbols in it. -/
def readSymbols (f : Format) (bytes : Bytes) (sections : List SectionHeader) (type : Nat) :
    Except FileDefect (Nat × List Nat) :=
  match sections.zipIdx.find? fun (s, _) => s.type = type with
  | none => .ok (0, [])
  | some (table, index) =>
    match table.records? bytes f f.symbolWidths with
    | none => .error .elfSymbols
    | some symbols => do
      checkStrings sections table.link
      let extended := sections.filter fun s => s.type = symbolSections && s.link = index
      if extended.any fun s => (s.records? bytes f [4]).isNone then throw .elfSymbolSections
      return (index, symbols.map (symbolAddress f))

/-- Relocations of the symbols that apply to a section must name one that is there, and that does
not hold relocations itself. -/
def checkRelocated (sections : List SectionHeader) (symbolSection : Nat) (s : SectionHeader) :
    Except FileDefect Unit :=
  if s.holdsRelocations ∧ s.link = symbolSection ∧ s.info ≠ 0 then
    match sections[s.info]? with
    | none => .error .elfRelocatedSection
    | some target => if target.holdsRelocations then .error .elfRelocatedRelocations else .ok ()
  else .ok ()

/-- Reads the tables of a file. -/
def File.read (bytes : Bytes) : Except FileDefect File := do
  let h ← readHeader bytes
  h.checkPrograms bytes
  let sections ← h.sectionHeaders bytes
  let names ← readNames h bytes sections
  let (symbolSection, symbols) ← readSymbols h.format bytes sections symbolTable
  let _ ← readSymbols h.format bytes sections dynamicSymbolTable
  sections.reverse.forM (checkRelocated sections symbolSection)
  return { bytes, format := h.format, machine := h.machine, sections, names, symbolSection,
           symbols }

end LayoutGraph.Object.Elf
