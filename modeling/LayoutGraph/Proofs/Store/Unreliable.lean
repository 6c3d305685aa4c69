-- Stores in memory whose calls may go wrong. Each call is served in a mode,
-- or without a fault. A call that fails leaves the rows alone, and a call that
-- is answered either was served or is a look-up that found nothing.
import LayoutGraph.Proofs.Store.Memory
import LayoutGraph.Store.Faulty

namespace LayoutGraph

open Chain

/-! ## One call -/

/-- The request, served by a store in memory under a fault of the mode, or without a fault. -/
def Request.serveIn {α : Type} (request : Request α) : Option FaultMode → Attempt Memory α
  | none => Store.serve request
  | some .error => throw (Faulty.plannedError request.method)
  | some .conflict => throw (Faulty.plannedConflict request.method)
  | some .collide => fun m =>
    match Store.serve request m with
    | .ok reply n =>
      if request.namesTaken reply then .error (Faulty.plannedConflict request.method) n
      else .ok reply n
    | .error e n => .error e n
  | some .miss =>
    match request.nothing? with
    | some reply => pure reply
    | none => Store.serve request

/-- Of two rows with one key the store keeps the one that it has. -/
theorem Memory.same_of_namesTaken {α : Type} {request : Request α} {reply : α} {m n : Memory}
    (h : m.answer request = .ok (reply, n)) (taken : request.namesTaken reply = true) : n = m := by
  cases request <;> simp only [Request.namesTaken, Bool.false_eq_true] at taken
  case insertOrigin name littleEndian =>
    simp only [answer, Except.ok.injEq, insertOrigin] at h
    split at h <;> cases h
    · rfl
    · cases taken
  case insertSymbol row =>
    simp only [answer, Except.ok.injEq, insertSymbol] at h
    split at h <;> cases h
    · rfl
    · cases taken
  case insertField row =>
    simp only [answer, Except.ok.injEq, insertField] at h
    split at h <;> cases h
    · rfl
    · cases taken
  case insertEnumerator symbol name value =>
    simp only [answer, Except.ok.injEq, insertEnumerator] at h
    split at h <;> cases h
    · rfl
    · cases taken

/-- Why a request failed: it fails without a fault too, or a fault struck it. -/
def Request.Blames {α : Type} (request : Request α) (m : Memory) (mode : Option FaultMode)
    (e : Failure) : Prop :=
  m.answer request = .error e ∨
    ∃ fault, mode = some fault ∧ (fault = .error → e = Faulty.plannedError request.method)

theorem Memory.serve_ends {α : Type} (request : Request α) (m : Memory) :
    Ends (fun reply n => m.answer request = .ok (reply, n))
      (fun e n => n = m ∧ m.answer request = .error e) (Store.serve request m) := by
  cases h : Store.serve request m with
  | ok reply n => exact ofStep_ok_iff.mp h
  | error e n =>
    obtain ⟨hanswer, rfl⟩ := ofStep_error_iff.mp h
    exact ⟨rfl, hanswer⟩

theorem Request.serveIn_ends {α : Type} (request : Request α) (mode : Option FaultMode)
    (m : Memory) :
    Ends
      (fun reply n => m.answer request = .ok (reply, n) ∨
        mode = some .miss ∧ request.nothing? = some reply ∧ n = m)
      (fun e n => n = m ∧ request.Blames m mode e) (request.serveIn mode m) := by
  have served : Ends (fun reply n => m.answer request = .ok (reply, n) ∨
      mode = some .miss ∧ request.nothing? = some reply ∧ n = m)
      (fun e n => n = m ∧ request.Blames m mode e) (Store.serve request m) :=
    (Memory.serve_ends request m).mono (fun _ _ h => .inl h) fun _ _ h => ⟨h.1, .inl h.2⟩
  match mode with
  | none => exact served
  | some .error => exact ⟨rfl, .inr ⟨_, rfl, fun _ => rfl⟩⟩
  | some .conflict => exact ⟨rfl, .inr ⟨_, rfl, nofun⟩⟩
  | some .collide =>
    unfold serveIn
    dsimp only
    have h := Memory.serve_ends request m
    split <;> rename_i heq <;> rw [heq] at h
    · split
      · rename_i htaken
        exact ⟨Memory.same_of_namesTaken h htaken, .inr ⟨_, rfl, nofun⟩⟩
      · exact .inl h
    · exact ⟨h.1, .inl h.2⟩
  | some .miss =>
    unfold serveIn
    dsimp only
    cases hnothing : request.nothing? with
    | some reply => exact .inr ⟨rfl, rfl, rfl⟩
    | none =>
      rw [hnothing] at served
      exact served

/-! ## Stores that serve so -/

/-- A store that serves each call as a store in memory would in the mode that strikes the call. -/
class Unreliable (σ : Type) [Store σ] where
  memory : σ → Memory
  mode : σ → Method → Option FaultMode
  serves {α : Type} (request : Request α) (s : σ) :
    onState memory (Store.serve request s) = request.serveIn (mode s request.method) (memory s)

/-- A store in memory is one that no fault strikes. -/
instance : Unreliable Memory where
  memory m := m
  mode _ _ := none
  serves request m := by
    show onState _ (Store.serve request m) = Store.serve request m
    cases Store.serve request m <;> rfl

namespace Faulty

theorem strike_store {σ : Type} (f : Faulty σ) (method : Method) :
    (f.strike method).2.store = f.store := by
  unfold strike
  split <;> rfl

theorem passOn_onState {α : Type} (request : Request α) (f : Faulty Memory) :
    onState store (passOn request f) = Store.serve request f.store := by
  unfold passOn
  cases Store.serve request f.store <;> rfl

/-- Planned faults strike as their plans say. -/
instance : Unreliable (Faulty Memory) where
  memory := store
  mode f method := (f.strike method).1
  serves request f := by
    have hstore := f.strike_store request.method
    show onState store (serve request f) = _
    unfold serve
    generalize f.strike request.method = struck at hstore ⊢
    obtain ⟨mode, after⟩ := struck
    dsimp only at hstore ⊢
    have hpass := passOn_onState request after
    rw [hstore] at hpass
    match mode with
    | none => exact hpass
    | some .error => exact congrArg _ hstore
    | some .conflict => exact congrArg _ hstore
    | some .collide =>
      unfold Request.serveIn
      dsimp only
      rw [← hpass]
      cases passOn request after with
      | ok reply t => exact apply_ite (onState store) _ _ _
      | error e t => rfl
    | some .miss =>
      unfold Request.serveIn
      dsimp only
      cases request.nothing? with
      | some reply => exact congrArg _ hstore
      | none => exact hpass

end Faulty

/-- A store in memory whose calls are counted. The mode of each call is that of its number and its
method, so every pattern of faults is one of these. -/
structure Scheduled (faults : Nat → Method → Option FaultMode) where
  memory : Memory := {}
  calls : Nat := 0

namespace Scheduled

variable {faults : Nat → Method → Option FaultMode}

instance : Store (Scheduled faults) where
  serve request := fun s =>
    match request.serveIn (faults s.calls request.method) s.memory with
    | .ok reply memory => .ok reply ⟨memory, s.calls + 1⟩
    | .error e memory => .error e ⟨memory, s.calls + 1⟩

instance : Unreliable (Scheduled faults) where
  memory := memory
  mode s method := faults s.calls method
  serves request s := by
    simp only [Store.serve]
    cases request.serveIn (faults s.calls request.method) s.memory <;> rfl

end Scheduled

/-! ## What a call of such a store leaves -/

namespace Unreliable

variable {σ : Type} [Store σ] [Unreliable σ]

theorem serve_ends {α : Type} (request : Request α) (s : σ) :
    Ends
      (fun reply t => (memory s).answer request = .ok (reply, memory t) ∨
        mode s request.method = some .miss ∧ request.nothing? = some reply ∧ memory t = memory s)
      (fun e t => memory t = memory s ∧ request.Blames (memory s) (mode s request.method) e)
      (Store.serve request s) := by
  have h := request.serveIn_ends (mode s request.method) (memory s)
  rw [← serves] at h
  cases heq : Store.serve request s <;> rw [heq] at h <;> exact h

end Unreliable

end LayoutGraph
