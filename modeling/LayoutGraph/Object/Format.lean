-- The formats of object files, told apart by the first bytes of a file. The
-- headers of a format whose sections are not read must be sound all the same.
import LayoutGraph.Object.Basic

namespace LayoutGraph.Object

/-! ## Formats with counted tables -/

/-- Formats that share a layout of their tables and the wording of what is wrong in them. -/
inductive TableFamily
  | coff
  | xcoff
deriving DecidableEq, Repr, Inhabited

/-- A format whose header counts sections, which follow it, and symbols, whose place it tells. -/
structure TableFormat where
  family : TableFamily
  headerDefect : FileDefect
  littleEndian : Bool
  headerWidths : List Nat
  /-- The places in the header of the number of sections, the size of what stands between the
  header and them, the place of the symbols, and their number. -/
  fields : Nat × Option Nat × Nat × Nat
  sizeOfSection : Nat
  sizeOfSymbol : Nat
deriving Repr, Inhabited

namespace TableFormat

def coff : TableFormat :=
  { family := .coff, headerDefect := .coffHeader, littleEndian := true
    headerWidths := [2, 2, 4, 4, 4, 2, 2], fields := (1, some 5, 3, 4)
    sizeOfSection := 40, sizeOfSymbol := 18 }

/-- The form of the format for many sections. -/
def bigCoff : TableFormat :=
  { family := .coff, headerDefect := .bigCoffHeader, littleEndian := true
    headerWidths := [2, 2, 2, 2, 4, 4, 4, 4, 4, 4, 4, 4, 4, 4, 4, 4], fields := (13, none, 14, 15)
    sizeOfSection := 40, sizeOfSymbol := 20 }

def xcoff : TableFormat :=
  { coff with family := .xcoff, headerDefect := .xcoffHeader, littleEndian := false }

def wideXcoff : TableFormat :=
  { xcoff with
    headerWidths := [2, 2, 4, 8, 2, 2, 4], fields := (1, some 4, 3, 6), sizeOfSection := 72 }

/-- The tables must lie in the file, and a table of texts must follow that of the symbols. -/
def check (f : TableFormat) (bytes : Bytes) : Except FileDefect Unit := do
  match bytes.record? f.littleEndian 0 f.headerWidths with
  | none => throw f.headerDefect
  | some header =>
    let field (index : Nat) : Nat := header.getD index 0
    let (sectionCount, between, symbolPlace, symbolCount) := f.fields
    let start := Bytes.recordSize f.headerWidths + between.elim 0 field
    let symbolSize := field symbolCount * f.sizeOfSymbol
    let coff := decide (f.family = .coff)
    if !bytes.has start (field sectionCount * f.sizeOfSection) then
      throw (if coff then .coffSections else .xcoffSections)
    if field symbolPlace = 0 then return
    if !bytes.has (field symbolPlace) symbolSize then
      throw (if coff then .coffSymbols else .xcoffSymbols)
    if !bytes.has (field symbolPlace + symbolSize) 4 then
      throw (if coff then .coffStrings else .xcoffStrings)

end TableFormat

/-! ## Formats -/

inductive FileFormat
  | elf
  /-- Mach-O of 64 bits, the low byte first. -/
  | mach
  /-- The other forms of Mach-O, by the size of their header. -/
  | otherMach (headerSize : Nat)
  | tables (format : TableFormat)
  /-- A header that tells the format by a class. -/
  | anonymous
  | dos
  | unsupported
deriving Repr, Inhabited

/-- The first bytes of files, and the formats that they stand for. -/
def formats : List (List UInt8 × FileFormat) :=
  [ ([0x7f, 0x45, 0x4c, 0x46, 1], .elf),
    ([0x7f, 0x45, 0x4c, 0x46, 2], .elf),
    ([0xcf, 0xfa, 0xed, 0xfe], .mach),
    ([0xfe, 0xed, 0xfa, 0xcf], .otherMach 32),
    ([0xfe, 0xed, 0xfa, 0xce], .otherMach 28),
    ([0xce, 0xfa, 0xed, 0xfe], .otherMach 28),
    ([0xca, 0xfe, 0xba, 0xbe], .unsupported),
    ([0xca, 0xfe, 0xba, 0xbf], .unsupported),
    (Bytes.ofText "!<arch>\n", .unsupported),
    (Bytes.ofText "!<thin>\n", .unsupported),
    (Bytes.ofText "dyld_v1 ", .unsupported),
    (Bytes.ofText "MZ", .dos),
    ([0x4c, 0x01], .tables .coff),
    ([0x64, 0x86], .tables .coff),
    ([0xc4, 0x01], .tables .coff),
    ([0x64, 0xaa], .tables .coff),
    ([0x41, 0xa6], .tables .coff),
    ([0xf0, 0x01], .tables .coff),
    ([0xf1, 0x01], .tables .coff),
    ([0xf2, 0x01], .tables .coff),
    ([0x01, 0xdf], .tables .xcoff),
    ([0x01, 0xf7], .tables .wideXcoff),
    ([0x00, 0x00, 0xff, 0xff, 0x00, 0x00], .unsupported),
    ([0x00, 0x00, 0xff, 0xff, 0x02, 0x00], .anonymous) ]

/-- The bytes of a file that tell its format. -/
def magicSize : Nat := 16

/-- The format of a file. -/
def formatOf (bytes : Bytes) : Except FileDefect FileFormat :=
  match bytes.slice? 0 magicSize with
  | none => .error .noMagic
  | some magic =>
    match formats.find? fun (start, _) => start.isPrefixOf magic with
    | some (_, format) => .ok format
    | none => .error .unknownMagic

/-! ## Formats that are not read -/

/-- The size of an anonymous header, and the class of files with many sections in it. -/
def anonymousSize : Nat := 32
def bigClass : List UInt8 :=
  [0xc7, 0xa1, 0xba, 0xd1, 0xee, 0xba, 0xa9, 0x4b, 0xaf, 0x20, 0xfa, 0xf6, 0x6a, 0xa4, 0xdc, 0xb8]

/-- The headers of a file in a format that is not read must be sound. -/
def FileFormat.check (bytes : Bytes) : FileFormat → Except FileDefect Unit
  | .elf | .mach => .ok ()
  | .otherMach headerSize => if bytes.has 0 headerSize then .ok () else .error .machHeader
  | .tables format => format.check bytes
  | .anonymous =>
    if bytes.has 0 anonymousSize ∧ bytes.slice? 12 16 = some bigClass then
      TableFormat.bigCoff.check bytes
    else .error .anonymousClass
  | .dos => .error .dosFile
  | .unsupported => .error .otherFormat

end LayoutGraph.Object
