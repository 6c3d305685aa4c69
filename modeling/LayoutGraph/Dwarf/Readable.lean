-- Sequences that a defect can cut short. What stands before the defect is
-- there to be used; the defect itself is met only by who goes that far.
import LayoutGraph.Dwarf.Fault

namespace LayoutGraph.Dwarf

/-- What can be read of a sequence, and the defect that ends it, if one does. -/
structure Readable (α : Type) where
  items : List α := []
  defect : Option Defect := none
deriving DecidableEq, Repr, Inhabited

namespace Readable

variable {α : Type}

def nil : Readable α := {}

/-- A sequence that ends with a defect before its first item. -/
def broken (d : Defect) : Readable α := { defect := some d }

/-- The items of `seen`, which has the latest first, and the defect behind them. -/
def found (seen : List α) (defect : Option Defect) : Readable α := ⟨seen.reverse, defect⟩

def cons (a : α) (r : Readable α) : Readable α := { r with items := a :: r.items }

end Readable

end LayoutGraph.Dwarf
