-- The survey of a source: its top-level entries, resolved in order until
-- one cannot be. What the survey yields depends on the source alone; no
-- store can change it.
import LayoutGraph.Survey.Walk

namespace LayoutGraph.Survey

/-- What one top-level entry yields: steps, and the failure that ends them, if any. -/
structure Resolution where
  entry : EntryId
  steps : Array Step := #[]
  failure : Option Failure := none
deriving Inhabited

/-- The resolutions of a source, and the number of entries that they bind. -/
structure Findings where
  resolutions : List Resolution
  bound : Nat
deriving Inhabited

/-- One top-level entry, walked from the bindings so far. Nothing comes of an entry that
waits for the name of a typedef. -/
def resolveTop (source : Source) (id : EntryId) (start : Progress) : Option Resolution × Progress :=
  match source.entry id with
  | .error e => (some { entry := id, failure := some e }, start)
  | .ok entry =>
    if entry.awaitsName then (none, start)
    else
      match resolve source fullRoom id none { start with steps := #[] } with
      | .ok _ p => (some { entry := id, steps := p.steps }, p)
      | .error e p => (some { entry := id, steps := p.steps, failure := some e }, p)

/-- The entries `ids`, resolved in order; the first failure is the last resolution. -/
def surveyFrom (source : Source) : List EntryId → Progress → Findings
  | [], p => ⟨[], p.bindings.length⟩
  | id :: rest, p =>
    let (resolution, p) := resolveTop source id p
    match resolution with
    | none => surveyFrom source rest p
    | some r =>
      if r.failure.isSome then ⟨[r], p.bindings.length⟩
      else
        let later := surveyFrom source rest p
        { later with resolutions := r :: later.resolutions }

def survey (source : Source) : Findings := surveyFrom source source.topLevel {}

end LayoutGraph.Survey
