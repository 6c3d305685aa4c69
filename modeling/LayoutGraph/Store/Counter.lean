-- The counter that hands out dimension lists. It is a signed number of 64
-- bits, it never goes back, and counting past its end is an overflow.
import LayoutGraph.Failure
import LayoutGraph.Graph.Row
import LayoutGraph.Word

namespace LayoutGraph

/-- The last list that was handed out or seen in a row. -/
structure ListCounter where
  last : Int := 0
deriving DecidableEq, Repr, Inhabited

namespace ListCounter

/-- The greatest number that a list can have. -/
def greatest : Int := Word.signedEnd - 1

/-- The next list, unless the counter is at its end. -/
def next (c : ListCounter) : Except Failure (ListId × ListCounter) :=
  if c.last = greatest then .error (.overflow .add)
  else .ok (⟨c.last + 1⟩, ⟨c.last + 1⟩)

/-- The counter after a row of `list` was seen. -/
def see (c : ListCounter) (list : ListId) : ListCounter := ⟨max c.last list.raw⟩

end ListCounter

end LayoutGraph
