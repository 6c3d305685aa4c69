-- What a pass writes, step by step and by natural key. A walk over the
-- entries of a source yields these steps; row ids come only when the steps
-- are written to a store.
import LayoutGraph.Failure
import LayoutGraph.Graph.Row

namespace LayoutGraph.Survey

/-- One field to be written. -/
structure FieldStep where
  owner : SymbolKey
  name : String
  byteOffset : Nat
  type : SymbolKey
  extents : List Nat
  bitSize : Option Nat
  bitOffset : Option Nat
  pointerDepth : Nat
deriving DecidableEq, Repr, Inhabited

inductive Step
  /-- An entry is looked at; nothing is written. -/
  | visit (entry : EntryId) (name : String)
  | symbol (key : SymbolKey)
  | field (step : FieldStep)
  | enumerator (symbol : SymbolKey) (constant : Constant)
deriving DecidableEq, Repr, Inhabited

end LayoutGraph.Survey
