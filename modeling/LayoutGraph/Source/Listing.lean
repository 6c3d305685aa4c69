-- A source that is written down entry by entry. An id can be declared
-- before its entry is defined, so that entries can refer to one another.
import LayoutGraph.Index
import LayoutGraph.Source.Basic

namespace LayoutGraph

structure Listing where
  origin : String
  littleEndian : Bool := true
  entries : Index EntryId Entry := {}
  topLevel : List EntryId := []
  /-- The number that the next declared id takes. -/
  next : Nat := 1
deriving Inhabited

namespace Listing

/-- Takes an id for an entry that is defined later. -/
def declare (l : Listing) : EntryId × Listing := (⟨l.next⟩, { l with next := l.next + 1 })

/-- Defines the entry of an id. A first definition also lists the id; a later
one replaces the entry and leaves the id where it was listed. -/
def define (l : Listing) (id : EntryId) (name : Option String) (byteSize : Option Nat)
    (kind : EntryKind) : Listing :=
  { l with
    entries := l.entries.insert id ⟨id, name, byteSize, kind⟩
    topLevel := if (l.entries.find? id).isSome then l.topLevel else l.topLevel ++ [id] }

/-- Defines an entry under the next id. -/
def add (l : Listing) (name : Option String) (byteSize : Option Nat) (kind : EntryKind) :
    EntryId × Listing :=
  let (id, l) := l.declare
  (id, l.define id name byteSize kind)

def toSource (l : Listing) : Source :=
  { origin := l.origin
    littleEndian := l.littleEndian
    topLevel := l.topLevel
    find? := l.entries.find? }

end Listing

end LayoutGraph
