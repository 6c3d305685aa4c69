-- The counters of one pass.

namespace LayoutGraph

structure Tally where
  symbolsCreated : Nat := 0
  symbolsReused : Nat := 0
  fieldsCreated : Nat := 0
  fieldsReused : Nat := 0
  enumeratorsCreated : Nat := 0
  /-- Inserts that met a row which the look-up before them did not see. -/
  conflictsRecovered : Nat := 0
deriving DecidableEq, Repr, Inhabited

end LayoutGraph
