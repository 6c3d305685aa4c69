-- An input as a pass sees it: a name, a byte order, the entries to resolve
-- in order, and a look-up from ids to entries.
import LayoutGraph.Failure

namespace LayoutGraph

structure Source where
  /-- The name of the input, usually its path. -/
  origin : String
  littleEndian : Bool
  topLevel : List EntryId
  find? : EntryId → Option Entry

/-- The entry of an id; an id without one is an unresolved reference. -/
def Source.entry (source : Source) (id : EntryId) : Except Failure Entry :=
  match source.find? id with
  | some entry => .ok entry
  | none => .error (.unresolved id)

end LayoutGraph
