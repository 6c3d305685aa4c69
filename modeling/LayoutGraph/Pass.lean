-- One pass over one input: its origin is written, then the steps of its
-- survey, and all is committed. A pass stops at the first entry that fails.
-- What was written before stays: nothing is rolled back.
import LayoutGraph.Recorder.Steps
import LayoutGraph.Survey.Survey

namespace LayoutGraph

open Recording

/-! ## One pass -/

namespace Pass

variable {σ : Type} [Store σ]

/-- A failure that the pass handles. An overflow is no such failure: it ends the program's
work on the input at once. -/
def handled : Failure → Bool
  | .overflow _ => false
  | _ => true

/-- The steps of one top-level entry, then the failure of its survey. -/
def writeResolution (setting : Setting) (r : Survey.Resolution) : Recording σ Unit := do
  writeSteps setting r.steps.toList
  match r.failure with
  | some e => throw e
  | none => pure ()

/-- The resolutions in order. The first failure ends them and is the answer. -/
def writeResolutions (origin : String) (setting : Setting) :
    List Survey.Resolution → Recording σ (Option Failure)
  | [] => return none
  | r :: rest => fun before =>
    match writeResolution setting r before with
    | .ok _ after => writeResolutions origin setting rest after
    | .error e after =>
      if handled e then
        (do
          note (.entryFailed r.entry origin e)
          return some e : Recording σ (Option Failure)) after
      else .error e after

/-- A pass over a source, which fails as its first entry that fails. -/
def write (source : Source) : Recording σ Unit := do
  let origin ← Recording.origin source.origin source.littleEndian
  note (.walking source.topLevel.length source.littleEndian)
  let findings := Survey.survey source
  let failure ← writeResolutions source.origin ⟨origin, source.littleEndian⟩ findings.resolutions
  ask .commit
  match failure with
  | some e => throw e
  | none => note (.passFinished findings.bound (← get).memo.tally)

end Pass

/-! ## Passes one after another -/

/-- Where the latest pass stands when no pass is running. -/
inductive Stage
  | idle
  | succeeded
  | failed
deriving DecidableEq, Repr, Inhabited

/-- A program that makes passes: the stage and the counters of the latest. -/
structure Session where
  stage : Stage := .idle
  tally : Tally := {}
deriving DecidableEq, Repr, Inhabited

/-- How a call to parse ended. -/
structure Report where
  status : Status
  failure : Option Failure
  log : List Log.Event
deriving Repr, Inhabited

namespace Session

/-- The end of a call that failed; the counters stay as they are. -/
def failWith (s : Session) (log : List Log.Event) (e : Failure) : Report × Session :=
  (⟨.ofFailure e, some e, log ++ [.passFailed e]⟩, { s with stage := .failed })

/-- A call to parse an input that gives no entries. -/
def fail (s : Session) (e : Failure) : Report × Session := s.failWith [] e

/-- A call to parse a source with no store bound. The counters start anew. -/
def parseUnbound (_ : Session) : Report × Session := failWith {} [] .unbound

variable {σ : Type} [Store σ]

/-- A call to parse a source into a store. It fails as a whole on an overflow alone. -/
def parse (source : Source) (store : σ) : Except Failure (Report × Session) × σ :=
  match Pass.write source { store } with
  | .ok _ r => (.ok (⟨.ok, none, r.log.toList⟩, ⟨.succeeded, r.memo.tally⟩), r.store)
  | .error e r =>
    if Pass.handled e then
      (.ok (failWith ⟨.failed, r.memo.tally⟩ r.log.toList e), r.store)
    else (.error e, r.store)

end Session

end LayoutGraph
