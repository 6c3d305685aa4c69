-- The ids that entries refer to, and those that can be reached from others
-- by following references.
import LayoutGraph.Source.Basic

namespace LayoutGraph

/-- The ids that an entry refers to, in order. -/
def Entry.references (e : Entry) : List EntryId :=
  match e.kind with
  | .base | .enumeration _ => []
  | .compound _ members _ => members.map Member.type
  | .array element _ => [element]
  | .pointer target | .typedef target | .qualified target => target.toList

namespace Source

/-- The ids of `seen` and those that can be reached from `ids`, the latest first; `fuel` bounds the
number of references that are followed. -/
def reachFrom (source : Source) : (fuel : Nat) → (seen ids : List EntryId) → List EntryId
  | 0, seen, _ => seen
  | _ + 1, seen, [] => seen
  | fuel + 1, seen, id :: ids =>
    if id ∈ seen then source.reachFrom fuel seen ids
    else
      match source.find? id with
      | none => source.reachFrom fuel (id :: seen) ids
      | some e => source.reachFrom fuel (id :: seen) (e.references ++ ids)

/-- The listed ids and those that can be reached from them, in ascending order. -/
def reach (source : Source) (fuel : Nat) : List EntryId :=
  (source.reachFrom fuel [] source.topLevel).mergeSort fun a b => a.raw ≤ b.raw

end Source

end LayoutGraph
