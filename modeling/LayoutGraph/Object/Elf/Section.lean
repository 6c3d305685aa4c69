-- Sections of ELF files, as they are found by name: their bytes, which can
-- be compressed, and the relocations that apply to them.
import LayoutGraph.Object.Compressed
import LayoutGraph.Object.Elf.Compact
import LayoutGraph.Object.Elf.File
import LayoutGraph.Object.Machine
import LayoutGraph.Text.Cut

namespace LayoutGraph.Object.Elf

namespace File

/-! ## Relocations -/

/-- The processor whose relocations of 64 bits have the symbol first and the type, of four bytes,
the high byte first, in both byte orders. -/
def typeLastMachine : Nat := 8

/-- A number of four bytes, read in the other byte order. -/
def swapped (n : Nat) : Nat :=
  (List.range 4).foldl (fun number index => number * 0x100 + n >>> (8 * index) % 0x100) 0

/-- The symbol and the type that a relocation's second field holds. -/
def symbolAndType (file : File) (info : Nat) (statesAddend : Bool) : Nat × Nat :=
  let f := file.format
  if !f.wide then (info / 0x100, info % 0x100)
  else
    let high := info / Word.halfCount
    let low := info % Word.halfCount
    if file.machine = typeLastMachine ∧ f.littleEndian ∧ statesAddend then (low, swapped high)
    else (high, low)

/-- A relocation of the file's processor. -/
def stated (file : File) (place symbol type : Nat) (addend : Option Nat) : StatedRelocation :=
  { place
    kind := relocationKind file.machine file.format.wide type
    target := if symbol = 0 then .nothing else .ofSymbol symbol
    addend := addend.getD 0
    addsToStored := addend.isNone }

/-- The relocations of a table, from the fields of each. -/
def ofTable (file : File) (s : SectionHeader) : List StatedRelocation :=
  let statesAddend := s.type = relocationsWithAddends
  let records := s.records? file.bytes file.format (file.format.relocationWidths statesAddend)
  (records.getD []).filterMap fun
    | place :: info :: rest =>
      let (symbol, type) := file.symbolAndType info statesAddend
      let addend := rest.head?.map fun n =>
        (Word.signed (8 * file.format.word) n % Word.count).toNat
      some (file.stated place symbol type addend)
    | _ => none

/-- The relocations of a compact table. -/
def ofCompactTable (file : File) (s : SectionHeader) : List StatedRelocation :=
  let bytes := s.range?.bind fun (place, size) => file.bytes.slice? place size
  let (layout, entries) := Compact.read (bytes.getD [])
  entries.map fun e =>
    file.stated e.place e.symbol e.type (if layout.statesAddends then some e.addend else none)

/-- The relocations that one section holds. One that does not lie in the file holds none. -/
def heldBy (file : File) (s : SectionHeader) : List StatedRelocation :=
  if s.type = compactRelocations then file.ofCompactTable s else file.ofTable s

/-- The relocations that apply to a section, in the order of the sections that hold them. -/
def statedFor (file : File) (index : Nat) : List StatedRelocation :=
  if index = 0 then []
  else
    let holders := file.sections.filter fun s =>
      s.holdsRelocations && s.link = file.symbolSection && s.info = index
    holders.flatMap file.heldBy

/-- Symbols have addresses; no relocation of this format is against a section itself. -/
def addresses (file : File) : Addresses :=
  { ofSymbol? := fun index => file.symbols[index]?
    ofSection? := fun _ => none }

/-! ## Compressed sections -/

/-- The flag of a section whose bytes are compressed. -/
def compressedFlag : Nat := 0x800

/-- The compression of a number in a compression header. -/
def compressionOf? : Nat → Option Compression
  | 1 => some .zlib
  | 2 => some .zstandard
  | _ => none

/-- The stream of a section with a compression header. -/
def compressedRange (file : File) (s : SectionHeader) : Except SectionDefect StoredRange :=
  let widths := file.format.compressionWidths
  let headerSize := Bytes.recordSize widths
  match s.range? with
  | none => .error .headerWithoutBytes
  | some (place, size) =>
    match file.bytes.record? file.format.littleEndian place widths with
    | none => .error .headerOutsideFile
    | some fields => do
      if size < headerSize then throw .headerCutOff
      match compressionOf? (fields.getD 0 0) with
      | none => throw .compressionType
      | some compression =>
        let fullSize := fields.getD (if file.format.wide then 2 else 1) 0
        return ⟨compression, place + headerSize, size - headerSize, fullSize⟩

/-- Where the bytes of a section lie. One can say in its flags or in its name that it is
compressed. -/
def rangeOf (file : File) (s : SectionHeader) (compressedName : Bool) :
    Except SectionDefect StoredRange :=
  if s.flags / compressedFlag % 2 = 1 then file.compressedRange s
  else if compressedName then
    match s.range? with
    | none => .error .gnuHeaderWithoutBytes
    | some (place, size) => StoredRange.ofNamed file.bytes place size
  else .ok (.plain s.range?)

/-- The bytes of a section, decompressed. -/
def bytesOf (file : File) (s : SectionHeader) (compressedName : Bool) :
    Except SectionDefect Bytes := do
  (← file.rangeOf s compressedName).read file.bytes

/-! ## Sections by name -/

/-- The start of the names of sections that are compressed. -/
def compressedStart : String := ".zdebug_"

/-- The index of a section of exactly this name. -/
def indexOf? (file : File) (name : String) : Option Nat :=
  file.names.findIdx? fun n => n = some (Bytes.ofText name)

/-- The name under which a debug section can stand compressed. -/
def compressedName? (name : String) : Option String :=
  match Text.dropLead? ".debug_".toList name.toList with
  | some rest => some (compressedStart ++ String.ofList rest)
  | none => none

/-- The section of a name, or else its compressed form. -/
def named? (file : File) (name : String) : Option StoredSection := do
  let index ← (file.indexOf? name).orElse fun _ => (compressedName? name).bind file.indexOf?
  let s ← file.sections[index]?
  let own ← (← file.names[index]?)
  return {
    bytes := file.bytesOf s ((Bytes.ofText compressedStart).isPrefixOf own)
    relocations := file.addresses.resolveAll (file.statedFor index) }

def toObjectFile (file : File) : ObjectFile :=
  { littleEndian := file.format.littleEndian, named? := file.named? }

end File

end LayoutGraph.Object.Elf
