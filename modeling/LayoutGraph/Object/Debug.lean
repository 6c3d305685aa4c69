-- From the bytes of a file to its debug sections. The first bytes tell the
-- format; the sections are then looked up by their names.
import LayoutGraph.Dwarf.Unit
import LayoutGraph.Log.Event
import LayoutGraph.Object.Elf.Section
import LayoutGraph.Object.Format
import LayoutGraph.Object.Mach

namespace LayoutGraph.Object

/-- The object file in the bytes of a file. No section is found in a format that is not read. -/
def ObjectFile.ofBytes (bytes : Bytes) : Except FileDefect ObjectFile := do
  match ← formatOf bytes with
  | .elf => return (← Elf.File.read bytes).toObjectFile
  | .mach => return (← Mach.File.read bytes).toObjectFile
  | format =>
    format.check bytes
    return { littleEndian := true, named? := fun _ => none }

/-! ## Debug sections -/

/-- The names of a debug section, in the order in which they are tried. -/
def aliases (part : String) : List String := [".debug_" ++ part, "__debug_" ++ part]

/-- The first section that has one of the names, and that name. -/
def ObjectFile.find? (file : ObjectFile) (names : List String) : Option (String × StoredSection) :=
  names.findSome? fun name => (file.named? name).map fun s => (name, s)

/-- Work that leaves events in the log and can find a section unreadable. -/
abbrev Loading := EStateM (String × SectionDefect) (Array Log.Event)

/-- A debug section with its relocations. An absent section is empty. Relocations that cannot be
applied leave the section as it is stored. -/
def ObjectFile.load (file : ObjectFile) (part : String) : Loading Dwarf.Section := do
  match file.find? (aliases part) with
  | none => return { littleEndian := file.littleEndian }
  | some (name, s) =>
    match s.bytes with
    | .error defect => throw (name, defect)
    | .ok bytes =>
      match s.relocations with
      | .ok relocations => return { bytes, littleEndian := file.littleEndian, relocations }
      | .error defect =>
        modify fun log => log.push (.relocationsSkipped name defect.text)
        return { bytes, littleEndian := file.littleEndian }

/-- All debug sections, loaded in order. Those for places of code are of no use but must be
readable. -/
def ObjectFile.debugSections (file : ObjectFile) : Loading Dwarf.Sections := do
  let abbreviations ← file.load "abbrev"
  let addresses ← file.load "addr"
  let info ← file.load "info"
  let lines ← file.load "line"
  let lineText ← file.load "line_str"
  let _ ← file.load "ranges"
  let _ ← file.load "rnglists"
  let text ← file.load "str"
  let textOffsets ← file.load "str_offsets"
  let types ← file.load "types"
  let _ ← file.load "loc"
  let _ ← file.load "loclists"
  return { info, types, abbreviations, text, lineText, textOffsets, addresses, lines }

end LayoutGraph.Object
