-- Object files as debug information is read from them: a byte order, and
-- sections that are found by their names.
import LayoutGraph.Object.Relocation

namespace LayoutGraph.Object

/-- A section that is found by a name. -/
structure StoredSection where
  /-- The bytes, decompressed. -/
  bytes : Except SectionDefect Bytes
  relocations : Except RelocationDefect (List (Nat × Dwarf.Relocation))

structure ObjectFile where
  littleEndian : Bool
  named? : String → Option StoredSection

end LayoutGraph.Object

namespace LayoutGraph.Bytes

/-! ## Records -/

/-- Numbers of the given widths, one after another from `start` on. -/
def record? (bytes : Bytes) (littleEndian : Bool) (start : Nat) : List Nat → Option (List Nat)
  | [] => some []
  | width :: widths => do
    let n ← numberAt? bytes littleEndian start width
    return n :: (← record? bytes littleEndian (start + width) widths)

/-- The size of a record. -/
def recordSize (widths : List Nat) : Nat := widths.foldl (· + ·) 0

/-- A table of `count` records from `start` on. -/
def table? (bytes : Bytes) (littleEndian : Bool) (widths : List Nat) (start count : Nat) :
    Option (List (List Nat)) :=
  let size := recordSize widths
  if bytes.has start (count * size) then
    (List.range count).mapM fun index => record? bytes littleEndian (start + index * size) widths
  else none

/-- The text from `start` on, up to a zero before `stop`. -/
def textAt? (bytes : Bytes) (start stop : Nat) : Option (List UInt8) :=
  if start ≤ stop ∧ stop ≤ bytes.size then
    let run := (bytes.extract start stop).toList
    let text := run.takeWhile (· ≠ 0)
    if text.length < run.length then some text else none
  else none

end LayoutGraph.Bytes
