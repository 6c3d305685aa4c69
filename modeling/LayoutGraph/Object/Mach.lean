-- Mach-O files of 64 bits, the low byte first. Commands list the segments
-- with their sections, and the symbols.
import LayoutGraph.Object.Compressed

namespace LayoutGraph.Object.Mach

/-! ## Commands -/

/-- The fields of the file header. -/
def headerWidths : List Nat := [4, 4, 4, 4, 4, 4, 4, 4]

/-- One load command: its number, and where it lies in the file. -/
structure Command where
  number : Nat
  place : Nat
  size : Nat
deriving DecidableEq, Repr, Inhabited

/-- The commands from `place` on, as far as they are sound. They end where their bytes end. -/
def commandsFrom (bytes : Bytes) (stop : Nat) : (count place : Nat) → List Command
  | 0, _ => []
  | count + 1, place =>
    match bytes.record? true place [4, 4] with
    | some [number, size] =>
      if stop < place + 8 ∨ size < 8 ∨ stop < place + size then []
      else ⟨number, place, size⟩ :: commandsFrom bytes stop count (place + size)
    | _ => []

/-- The processor of a file and its commands. Where the commands do not lie in the file, it has
none. -/
def readCommands (bytes : Bytes) : Except FileDefect (Nat × List Command) :=
  match bytes.record? true 0 headerWidths with
  | some [_, processor, _, _, count, size, _, _] =>
    let start := Bytes.recordSize headerWidths
    if start + size ≤ bytes.size then .ok (processor, commandsFrom bytes (start + size) count start)
    else .ok (processor, [])
  | _ => .error .machHeader

/-! ## Sections -/

structure SectionHeader where
  name : List UInt8
  segment : List UInt8
  address : Nat
  size : Nat
  place : Nat
  relocationPlace : Nat
  relocationCount : Nat
  flags : Nat
deriving Repr, Inhabited

/-- The types of section that have no bytes in the file. -/
def withoutBytes : List Nat := [0x1, 0xc, 0x12]

/-- Where the bytes of a section lie in the file, if it has any there. -/
def SectionHeader.range? (s : SectionHeader) : Option (Nat × Nat) :=
  if s.flags % 256 ∈ withoutBytes then none else some (s.place, s.size)

/-- A name of at most sixteen bytes, which a zero ends before. -/
def readName (bytes : Bytes) (place : Nat) : List UInt8 :=
  ((bytes.slice? place 16).getD []).takeWhile (· ≠ 0)

/-- The fields of a section after its names. -/
def sectionWidths : List Nat := [8, 8, 4, 4, 4, 4, 4, 4, 4, 4]

def readSection (bytes : Bytes) (start : Nat) : Option SectionHeader :=
  match bytes.record? true (start + 32) sectionWidths with
  | some [address, size, place, _, relocationPlace, relocationCount, flags, _, _, _] =>
    some { name := readName bytes start, segment := readName bytes (start + 16), address, size,
           place, relocationPlace, relocationCount, flags }
  | _ => none

/-- The size of a segment command without its sections, and that of a section. -/
def segmentSize : Nat := 72
def sectionSize : Nat := 80

/-- The sections of a segment command. -/
def readSections (bytes : Bytes) (c : Command) : Except FileDefect (List SectionHeader) :=
  if c.size < segmentSize then .error .machCommandSize
  else
    let count := (bytes.numberAt? true (c.place + 64) 4).getD 0
    if c.size < segmentSize + count * sectionSize then .error .machSections
    else
      match (List.range count).mapM fun index =>
          readSection bytes (c.place + segmentSize + index * sectionSize) with
      | some sections => .ok sections
      | none => .error .machSections

/-- The address of a symbol from its fields. One that only serves debuggers has none. -/
def symbolAddress? (fields : List Nat) : Option Nat :=
  if 0x20 ≤ fields.getD 1 0 then none else fields[4]?

/-- The addresses of the symbols that a command lists. -/
def readSymbols (bytes : Bytes) (c : Command) : Except FileDefect (List (Option Nat)) :=
  if c.size < 24 then .error .machCommandSize
  else
    match bytes.record? true (c.place + 8) [4, 4] with
    | some [place, count] =>
      match bytes.table? true [4, 1, 1, 2, 8] place count with
      | some symbols => .ok (symbols.map symbolAddress?)
      | none => .error .machSymbols
    | _ => .error .machCommandSize

/-! ## Files -/

structure File where
  bytes : Bytes
  processor : Nat
  sections : List SectionHeader := []
  /-- The addresses of the symbols that have one. -/
  symbols : List (Option Nat) := []
deriving Repr, Inhabited

/-- The commands that list a segment and the symbols. -/
def segmentCommand : Nat := 0x19
def symbolCommand : Nat := 0x2

/-- A file with what one command adds to it. -/
def File.withCommand (file : File) (c : Command) : Except FileDefect File := do
  if c.number = segmentCommand then
    return { file with sections := file.sections ++ (← readSections file.bytes c) }
  else if c.number = symbolCommand then
    return { file with symbols := ← readSymbols file.bytes c }
  else return file

def File.read (bytes : Bytes) : Except FileDefect File := do
  let (processor, commands) ← readCommands bytes
  commands.foldlM File.withCommand { bytes, processor }

namespace File

/-! ## Relocations -/

/-- The processors whose relocation number zero stores an address. -/
def processors : List Nat :=
  [0x01000007, 0x0100000c, 0x0200000c, 0x01000012, 7, 12, 18]

/-- The processor whose relocations all have one form. For the others, the top bit of the place
marks a form that is passed over. -/
def plainProcessor : Nat := 0x01000007

/-- The processors that can put an addend into a relocation of its own. -/
def withAddends : List Nat := [0x0100000c, 0x0200000c]

/-- The number of the relocation that holds an addend for the next. -/
def addendType : Nat := 10

/-- The relocations of a section, `addend` being that of the first of them. -/
def stated (file : File) (addend : Nat) : List (List Nat) → List StatedRelocation
  | [place, info] :: rest =>
    let number := info % 0x1000000
    let isRelative := info.testBit 24
    let isSymbol := info.testBit 27
    let type := info / 0x10000000
    if place.testBit 31 ∧ file.processor ≠ plainProcessor then file.stated addend rest
    else if type = addendType ∧ file.processor ∈ withAddends then
      file.stated (Word.signed 24 number % Word.count).toNat rest
    else
      let isAbsolute := type = 0 && !isRelative && file.processor ∈ processors
      { place
        kind := if isAbsolute then .absolute else .other
        target := if isSymbol then .ofSymbol number else .ofSection number
        addend
        addsToStored := addend = 0 } :: file.stated 0 rest
  | _ => []

def statedFor (file : File) (s : SectionHeader) : List StatedRelocation :=
  file.stated 0 ((file.bytes.table? true [4, 4] s.relocationPlace s.relocationCount).getD [])

/-- The segment of debug sections. -/
def debugSegment : List UInt8 := Bytes.ofText "__DWARF"

/-- The address of a section, which counts from one. -/
def sectionAddress? (file : File) (number : Nat) : Option Nat :=
  if number = 0 then none
  else file.sections[number - 1]?.map fun s => if s.segment = debugSegment then 0 else s.address

def addresses (file : File) : Addresses :=
  { ofSymbol? := fun index => file.symbols[index]?.join, ofSection? := file.sectionAddress? }

/-! ## Sections by name -/

/-- The start of the names of sections that are compressed. -/
def compressedStart : List UInt8 := Bytes.ofText "__zdebug_"

/-- Where the bytes of a section lie. One can say in its name that it is compressed. -/
def rangeOf (file : File) (s : SectionHeader) : Except SectionDefect StoredRange :=
  if compressedStart.isPrefixOf s.name then
    match s.range? with
    | none => .error .machGnuHeaderWithoutBytes
    | some (place, size) => StoredRange.ofNamed file.bytes place size
  else .ok (.plain s.range?)

/-- The bytes of a section, decompressed. -/
def bytesOf (file : File) (s : SectionHeader) : Except SectionDefect Bytes := do
  (← file.rangeOf s).read file.bytes

/-- The most bytes of a name. -/
def nameSize : Nat := 16

/-- The name that a name has here: another start, and no more bytes than there is room for. -/
def renamed? (oldStart newStart name : List UInt8) : Option (List UInt8) :=
  if oldStart.isPrefixOf name then
    some ((newStart ++ name.drop oldStart.length).take nameSize)
  else none

/-- Whether a section answers to a name: as it is, with two underscores in place of its dot, or
under the name of a compressed section. -/
def answersTo (name : List UInt8) (s : SectionHeader) : Bool :=
  s.name = name || some s.name = renamed? (Bytes.ofText ".") (Bytes.ofText "__") name
    || some s.name = renamed? (Bytes.ofText ".debug_") compressedStart name

/-- The first section that answers to a name. -/
def named? (file : File) (name : String) : Option StoredSection := do
  let s ← file.sections.find? (answersTo (Bytes.ofText name))
  return {
    bytes := file.bytesOf s
    relocations := file.addresses.resolveAll (file.statedFor s) }

def toObjectFile (file : File) : ObjectFile := { littleEndian := true, named? := file.named? }

end File

end LayoutGraph.Object.Mach
