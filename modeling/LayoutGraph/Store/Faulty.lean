-- A store with planned faults. Each method can be given one fault: some
-- calls pass, then some are faulty, then all pass again. What a faulty call
-- does depends on its mode, and a call of any other method is untouched.
import LayoutGraph.Store.Request

namespace LayoutGraph

/-! ## Faults -/

/-- What a faulty call does. -/
inductive FaultMode
  /-- It fails and does not reach the store. -/
  | error
  /-- It reports a taken key and does not reach the store. -/
  | conflict
  /-- It is served, and reports a taken key instead of naming the row that has it. -/
  | collide
  /-- It finds nothing and does not reach the store. -/
  | miss
deriving DecidableEq, Repr, Inhabited

/-- The plan for the calls of one method: `skip` calls pass, the next `times` are faulty. -/
structure FaultPlan where
  mode : FaultMode
  skip : Nat := 0
  /-- Without a number every later call is faulty. -/
  times : Option Nat := none
deriving DecidableEq, Repr, Inhabited

/-- Whether the next call is faulty, and the plan for the calls after it. -/
def FaultPlan.step (p : FaultPlan) : Bool × FaultPlan :=
  match p.skip, p.times with
  | skip + 1, _ => (false, { p with skip })
  | 0, none => (true, p)
  | 0, some 0 => (false, p)
  | 0, some (n + 1) => (true, { p with times := some n })

/-! ## What the modes mean for a request -/

/-- The reply of a look-up that finds nothing, for the requests that look up. -/
def Request.nothing? {α : Type} : Request α → Option α
  | .findOrigin _ => some none
  | .findSymbol _ => some none
  | .findField _ => some none
  | .symbolById _ => some none
  | .fieldById _ => some none
  | .symbolsNamed _ => some []
  | .setFieldType .. => some false
  | _ => none

/-- Whether a reply names a row that was there before. -/
def Request.namesTaken {α : Type} : Request α → α → Bool
  | .insertOrigin .., reply => !reply.wasCreated
  | .insertSymbol _, reply => !reply.wasCreated
  | .insertField _, reply => !reply.wasCreated
  | .insertEnumerator .., reply => !reply.wasCreated
  | _, _ => false

/-! ## The store -/

/-- A store and the plans of its methods, the newest plan of a method in front. -/
structure Faulty (σ : Type) where
  store : σ
  plans : List (Method × FaultPlan) := []

namespace Faulty

variable {σ : Type}

def plan? (f : Faulty σ) (method : Method) : Option FaultPlan := f.plans.lookup method

/-- The store with this plan, or none, for the method. -/
def withPlan (f : Faulty σ) (method : Method) (plan : Option FaultPlan) : Faulty σ :=
  let others := f.plans.filter fun p => p.1 ≠ method
  { f with plans := match plan with
      | some p => (method, p) :: others
      | none => others }

/-- The mode of the next call of a method, if it is faulty, and the plans after it. -/
def strike (f : Faulty σ) (method : Method) : Option FaultMode × Faulty σ :=
  match f.plan? method with
  | none => (none, f)
  | some plan =>
    let (faulty, later) := plan.step
    (if faulty then some plan.mode else none, f.withPlan method (some later))

/-- The failure of a planned error. -/
def plannedError (method : Method) : Failure := .store (.injected method.text)

/-- The taken key that a planned conflict reports. -/
def plannedConflict (method : Method) : Failure := .conflict "injected" method.text

variable [Store σ]

/-- The request, served by the store behind the plans. -/
def passOn {α : Type} (request : Request α) : Attempt (Faulty σ) α := fun f =>
  match Store.serve request f.store with
  | .ok a store => .ok a { f with store }
  | .error e store => .error e { f with store }

def serve {α : Type} (request : Request α) : Attempt (Faulty σ) α := fun before =>
  let (mode, f) := before.strike request.method
  match mode with
  | none => passOn request f
  | some .error => .error (plannedError request.method) f
  | some .conflict => .error (plannedConflict request.method) f
  | some .collide =>
    match passOn request f with
    | .ok reply after =>
      if request.namesTaken reply then .error (plannedConflict request.method) after
      else .ok reply after
    | .error e after => .error e after
  | some .miss =>
    match request.nothing? with
    | some reply => .ok reply f
    | none => passOn request f

instance : Store (Faulty σ) where
  serve := serve

end Faulty

end LayoutGraph
