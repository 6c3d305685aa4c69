-- Stores without faults. Once a natural key has a row, each look-up of the
-- key gives that row, whatever is asked of the store in between.
import LayoutGraph.Proofs.Chain
import LayoutGraph.Store.Counter

namespace LayoutGraph

open Chain

/-! ## What a store holds -/

/-- A natural key and the row that has it. -/
inductive Holding
  | origin (name : String) (id : OriginId)
  | symbol (key : SymbolKey) (id : SymbolId)
  | field (key : FieldKey) (id : FieldId)
  | enumerator (key : EnumeratorKey) (id : EnumeratorId)

/-- The store answers with the row of the holding and stays as it is. No request looks up a
constant, but an insert of one that is there already changes nothing. -/
def Holds {σ : Type} [Store σ] (s : σ) : Holding → Prop
  | .origin name id => Store.serve (.findOrigin name) s = .ok (some id) s
  | .symbol key id => Store.serve (.findSymbol key) s = .ok (some id) s
  | .field key id => Store.serve (.findField key) s = .ok (some id) s
  | .enumerator key id =>
    ∀ value, Store.serve (.insertEnumerator key.symbol key.name value) s = .ok (.existing id) s

/-- What an insert that went well has put into the store or found there. -/
def Holding.ofInsert {α : Type} : Request α → α → Option Holding
  | .insertOrigin name _, inserted => some (.origin name inserted.id)
  | .insertSymbol row, inserted => some (.symbol row.key inserted.id)
  | .insertField row, inserted => some (.field row.key inserted.id)
  | .insertEnumerator owner name _, inserted => some (.enumerator ⟨owner, name⟩ inserted.id)
  | _, _ => none

/-- A store that keeps what it holds and never reports a taken key as a failure. -/
class Faultless (σ : Type) [Store σ] where
  graph : σ → Graph
  lists : σ → ListCounter
  commit (s : σ) : Store.serve .commit s = .ok () s
  /-- A look-up that finds a row leaves the store as it is. -/
  findOrigin {s t : σ} {name : String} {id : OriginId} :
    Store.serve (.findOrigin name) s = .ok (some id) t → t = s
  findSymbol {s t : σ} {key : SymbolKey} {id : SymbolId} :
    Store.serve (.findSymbol key) s = .ok (some id) t → t = s
  findField {s t : σ} {key : FieldKey} {id : FieldId} :
    Store.serve (.findField key) s = .ok (some id) t → t = s
  /-- What an insert names is held from then on. -/
  insert {α : Type} {request : Request α} {reply : α} {held : Holding} {s t : σ} :
    Store.serve request s = .ok reply t → Holding.ofInsert request reply = some held → Holds t held
  /-- What is held stays held, whatever is asked. -/
  lasts {α : Type} (request : Request α) (s : σ) (held : Holding) :
    Holds s held → Holds (left (Store.serve request s)) held
  /-- A taken key is never a failure: the row that has it is named. -/
  noConflict {α : Type} {request : Request α} {s t : σ} {entity key : String} :
    Store.serve request s ≠ .error (.conflict entity key) t
  /-- A new list moves the counter and nothing else. -/
  allocate (s : σ) : (lists s).last < ListCounter.greatest →
    ∃ list t, Store.serve .allocateList s = .ok list t ∧ graph t = graph s ∧
      (lists t).last = (lists s).last + 1

/-! ## One step of a store -/

theorem ofStep_ok_iff {σ α : Type} {step : σ → Except Failure (α × σ)} {s t : σ} {a : α} :
    Attempt.ofStep step s = .ok a t ↔ step s = .ok (a, t) := by
  unfold Attempt.ofStep
  cases h : step s <;> simp [Prod.ext_iff]

theorem ofStep_error_iff {σ α : Type} {step : σ → Except Failure (α × σ)} {s t : σ} {e : Failure} :
    (Attempt.ofStep step s : EStateM.Result Failure σ α) = .error e t ↔
      step s = .error e ∧ s = t := by
  unfold Attempt.ofStep
  cases h : step s <;> simp

theorem eq_snd_of_ok {ε α β : Type} {x : α × β} {a : α} {b : β}
    (h : (.ok x : Except ε (α × β)) = .ok (a, b)) : b = x.2 := by
  cases h
  rfl

/-- Work that changes nothing when it fails keeps what its good ends keep. -/
theorem left_ofStep {σ α : Type} {step : σ → Except Failure (α × σ)} {s : σ} {P : σ → Prop}
    (same : P s) (next : ∀ a t, step s = .ok (a, t) → P t) : P (left (Attempt.ofStep step s)) := by
  unfold Attempt.ofStep
  cases h : step s with
  | ok r => exact next r.1 r.2 h
  | error e => exact same

end LayoutGraph
