-- The size of a type, computed from entries alone. A type with a recorded
-- size has that; a compound without one reaches to the end of the member
-- that ends last. Sums and products stop at the greatest word.
import LayoutGraph.Source.Basic
import LayoutGraph.Survey.Limit
import LayoutGraph.Word

namespace LayoutGraph.Survey

/-- Where a bit-field ends, in bytes and rounded up. -/
def bitEnd (m : Member) (bits : Nat) : Nat :=
  (Word.add (Word.add (Word.mul m.byteOffset 8) (m.bitOffset.getD 0)) bits + 7) / 8

/-- The number of elements of an array. -/
def elementCount (extents : List Nat) : Nat := extents.foldl Word.mul 1

/-- The size of the type that an entry describes, in bytes, with room for that
many entries in a chain. -/
def sizeOf (source : Source) : (room : Nat) → EntryId → Except Failure Nat
  | 0, id => .error (tooDeep id)
  | room + 1, id => do
    let entry ← source.entry id
    match entry.byteSize with
    | some size => return size
    | none =>
      match entry.kind with
      | .base | .enumeration _ | .pointer _ => return 0
      | .compound _ members _ =>
        members.foldlM (fun extent m =>
          match m.bitSize with
          | some bits => return max extent (bitEnd m bits)
          | none => do
            let size ← sizeOf source room m.type
            return max extent (Word.add m.byteOffset size)) 0
      | .array element extents => do
        let size ← sizeOf source room element
        return Word.mul size (elementCount extents)
      | .typedef (some target) | .qualified (some target) => sizeOf source room target
      | .typedef none | .qualified none => return 0

end LayoutGraph.Survey
