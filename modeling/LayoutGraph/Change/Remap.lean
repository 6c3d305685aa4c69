-- Remaps: every field of the type `old` is given the type `new`. All pairs
-- are checked before anything is written. Of several symbols of the new name
-- the one with the lowest id is the target; every symbol of the old name is
-- remapped.
import LayoutGraph.Recorder.Basic

namespace LayoutGraph.Change

open Recording

/-! ## Requests and reports -/

/-- An old name and the name that takes its place. -/
structure Mapping where
  old : String
  new : String
deriving DecidableEq, Repr, Inhabited

/-- What one mapping did. -/
structure Remapped where
  mapping : Mapping
  target : SymbolId
  fieldsRewritten : Nat
deriving DecidableEq, Repr, Inhabited

def fieldsRewritten (report : List Remapped) : Nat :=
  report.foldr (fun entry total => entry.fieldsRewritten + total) 0

/-- A mapping whose names have symbols. -/
structure RemapPlan where
  mapping : Mapping
  sources : List SymbolId
  target : SymbolId
deriving Repr, Inhabited

/-! ## Checking -/

variable {σ : Type} [Store σ]

/-- A mapping after those whose old names are `seen`. -/
def planMapping (seen : List String) (m : Mapping) : Recording σ RemapPlan := do
  if m.old ∈ seen then throw (.invalidRemap (.repeated m.old))
  if m.old = m.new then throw (.invalidRemap (.ontoItself m.old))
  let sources ← ask (.symbolsNamed m.old)
  if sources.isEmpty then throw (.unknownSymbol m.old)
  match ← ask (.symbolsNamed m.new) with
  | [] => throw (.unknownSymbol m.new)
  | target :: _ => return ⟨m, sources.map Symbol.id, target.id⟩

def planMappings (seen : List String) : List Mapping → Recording σ (List RemapPlan)
  | [] => return []
  | m :: rest => do
    let plan ← planMapping seen m
    let plans ← planMappings (m.old :: seen) rest
    return plan :: plans

/-! ## Writing -/

/-- Every field of one of the old symbols is given the new one; the answer counts them. -/
def retargetAll (target : SymbolId) : List SymbolId → Recording σ Nat
  | [] => return 0
  | source :: rest => do
    let here ← ask (.retargetFields source target)
    let there ← retargetAll target rest
    return here + there

def applyPlan (plan : RemapPlan) : Recording σ Remapped := do
  let count ← retargetAll plan.target plan.sources
  note (.remapped plan.mapping.old plan.mapping.new plan.target count)
  return ⟨plan.mapping, plan.target, count⟩

/-- Applies mappings in order, after all are checked. -/
def remap (mappings : List Mapping) : Recording σ (List Remapped) := do
  let plans ← planMappings [] mappings
  let report ← plans.mapM applyPlan
  ask .commit
  return report

end LayoutGraph.Change
