-- Texts in debug sections. A text stands in its entry, or in a section of
-- texts at an offset that stands in the entry or in a table of offsets.
import LayoutGraph.Dwarf.Load
import LayoutGraph.Text.Lossy

namespace LayoutGraph.Dwarf

/-- The bytes of the text at an offset of a section. -/
def textAt (part : Part) (offset : Nat) : Trial (List UInt8) :=
  Read.ofPart part do
    Read.skip offset
    Read.textBytes

namespace CompiledUnit

/-- The bytes of the text that an attribute gives. -/
def textBytes (u : CompiledUnit) : AttributeValue → Trial (List UInt8)
  | .text bytes => return bytes
  | .textOffset offset => textAt .text offset
  | .lineTextOffset offset => textAt .lineText offset
  | .textIndex index => do textAt .text (← u.textOffset index)
  | _ => throw .notAString

/-- The text that an attribute gives. -/
def textOf (u : CompiledUnit) (v : AttributeValue) : Decoding String := do
  return Text.lossy (← .during .string (u.textBytes v))

end CompiledUnit

end LayoutGraph.Dwarf
