-- How far a chain of references is followed.
import LayoutGraph.Failure

namespace LayoutGraph.Survey

/-- The most references that are followed from one entry. -/
def maxDepth : Nat := 256

/-- The room of an entry that was reached by no reference: itself and `maxDepth` more. -/
def fullRoom : Nat := maxDepth + 1

/-- The failure of a chain that has no room left. -/
def tooDeep (id : EntryId) : Failure := .tooDeep id maxDepth

/-- The name of the symbol that stands for `void` and for types without a name. -/
def voidName : String := "void"

end LayoutGraph.Survey
