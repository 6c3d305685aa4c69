-- Walks beside walks that refer elsewhere. The second work follows the first:
-- from like states both end alike, but for the ids that they look at. What a
-- walk binds stays among the ids that answer for themselves.
import LayoutGraph.Proofs.Chain
import LayoutGraph.Proofs.Survey.Progress

namespace LayoutGraph

open Chain

/-! ## Ids that point elsewhere -/

section

variable (aim : EntryId → EntryId)

def Failure.redirect : Failure → Failure
  | .unresolved id => .unresolved (aim id)
  | .tooDeep id depth => .tooDeep (aim id) depth
  | e => e

namespace Survey

/-- A result without a state, read where references point elsewhere. -/
def redirected {α : Type} (f : α → α) : Except Failure α → Except Failure α
  | .ok a => .ok (f a)
  | .error e => .error (e.redirect aim)

def Step.redirect : Step → Step
  | .visit id name => .visit (aim id) name
  | step => step

def Progress.redirect (p : Progress) : Progress :=
  { p with steps := p.steps.map (Step.redirect aim) }

/-- Every id that is bound answers for itself. -/
def Progress.Settled (p : Progress) : Prop := ∀ id, (p.symbol? id).isSome → aim id = id

def redirectEnd {α : Type} :
    EStateM.Result Failure Progress α → EStateM.Result Failure Progress α
  | .ok a p => .ok a (p.redirect aim)
  | .error e p => .error (e.redirect aim) (p.redirect aim)

/-- From `p` the second work ends where the first does, but for the ids that it looked at, and what
the first has bound is settled. -/
def FollowsAt {α : Type} (p : Progress) (x y : Walk α) : Prop :=
  y (p.redirect aim) = redirectEnd aim (x p) ∧ (left (x p)).Settled aim

/-- The second work follows the first from every settled state. -/
def Follows {α : Type} (x y : Walk α) : Prop := ∀ p, p.Settled aim → FollowsAt aim p x y

end Survey

end

namespace Survey

variable {aim : EntryId → EntryId} {α β : Type} {p : Progress}

theorem Progress.Settled.bind (h : p.Settled aim) {id : EntryId} (hid : aim id = id) (b : Binding) :
    (p.bind id b).Settled aim := by
  intro other hother
  rw [Progress.symbol?_bind] at hother
  split at hother
  · rename_i heq
    rw [heq]
    exact hid
  · exact h other hother

/-! ## Works that follow one another -/

theorem follows_pure (a : α) : Follows aim (pure a : Walk α) (pure a) := fun _ h => ⟨rfl, h⟩

theorem follows_throw (e : Failure) :
    Follows aim (throw e : Walk α) (throw (e.redirect aim)) := fun _ h => ⟨rfl, h⟩

theorem FollowsAt.bind {x y : Walk α} {f g : α → Walk β} (h : FollowsAt aim p x y)
    (next : ∀ a, Follows aim (f a) (g a)) : FollowsAt aim p (x >>= f) (y >>= g) := by
  obtain ⟨hy, hleft⟩ := h
  unfold FollowsAt
  cases hx : x p with
  | ok a q =>
    rw [hx] at hy hleft
    rw [bind_of_ok hx, bind_of_ok hy]
    exact next a q hleft
  | error e q =>
    rw [hx] at hy hleft
    rw [bind_of_error hx, bind_of_error hy]
    exact ⟨rfl, hleft⟩

theorem Follows.bind {x y : Walk α} {f g : α → Walk β} (h : Follows aim x y)
    (next : ∀ a, Follows aim (f a) (g a)) : Follows aim (x >>= f) (y >>= g) :=
  fun p hp => (h p hp).bind next

theorem followsAt_get_bind {f g : Progress → Walk α}
    (h : FollowsAt aim p (f p) (g (p.redirect aim))) :
    FollowsAt aim p (get >>= f) (get >>= g) := h

theorem follows_modify {f : Progress → Progress}
    (h : ∀ p, f (p.redirect aim) = (f p).redirect aim)
    (settled : ∀ p, p.Settled aim → (f p).Settled aim) :
    Follows aim (modify f : Walk PUnit) (modify f) :=
  fun p hp => ⟨congrArg (EStateM.Result.ok PUnit.unit) (h p), settled p hp⟩

theorem follows_emit (s : Step) : Follows aim (emit s) (emit (s.redirect aim)) := by
  intro p hp
  refine ⟨congrArg (EStateM.Result.ok PUnit.unit) ?_, hp⟩
  simp [Progress.redirect]

theorem follows_reserve {id : EntryId} (hid : aim id = id) (key : SymbolKey) :
    Follows aim (reserve id key) (reserve id key) :=
  follows_modify (fun _ => rfl) fun _ hp => hp.bind hid _

theorem follows_complete {id : EntryId} (hid : aim id = id) (key : SymbolKey) :
    Follows aim (complete id key) (complete id key) :=
  follows_modify (fun _ => rfl) fun _ hp => hp.bind hid _

theorem follows_intern (name : String) (byteSize : Nat) :
    Follows aim (intern name byteSize) (intern name byteSize) :=
  (follows_emit (.symbol ⟨name, byteSize⟩)).bind fun _ => follows_pure _

theorem Follows.completed {x y : Walk SymbolKey} (h : Follows aim x y) {id : EntryId}
    (hid : aim id = id) : Follows aim (do let key ← x; complete id key; return key)
      (do let key ← y; complete id key; return key) :=
  h.bind fun key => (follows_complete hid key).bind fun _ => follows_pure key

theorem follows_voidSymbol : Follows aim voidSymbol voidSymbol := by
  intro p hp
  apply followsAt_get_bind
  show FollowsAt aim p (if p.voidWritten then _ else _) (if p.voidWritten then _ else _)
  split
  · exact follows_pure _ p hp
  · refine (follows_intern _ _ p hp).bind fun key => ?_
    have marked : Follows aim (modify fun p => { p with voidWritten := true } : Walk PUnit)
        (modify fun p => { p with voidWritten := true }) :=
      follows_modify (fun _ => rfl) fun _ h => h
    exact marked.bind fun _ => follows_pure key

theorem follows_forM {γ δ : Type} {point : γ → δ} {f : γ → Walk PUnit} {g : δ → Walk PUnit}
    (h : ∀ c, Follows aim (f c) (g (point c))) (cs : List γ) :
    Follows aim (cs.forM f) ((cs.map point).forM g) := by
  induction cs with
  | nil => exact follows_pure PUnit.unit
  | cons c rest ih => exact (h c).bind fun _ => ih

theorem follows_emitConstants (key : SymbolKey) (constants : List Constant) :
    Follows aim (emitConstants key constants) (emitConstants key constants) := by
  unfold emitConstants
  induction constants with
  | nil => exact follows_pure PUnit.unit
  | cons c rest ih => exact (follows_emit (.enumerator key c)).bind fun _ => ih

/-- Work on a result without a state follows, where what comes of the result does. -/
theorem follows_pureMove_bind {x y : Except Failure α} {f g : α → Walk β} {on : α → α}
    (h : y = redirected aim on x) (next : ∀ a, x = .ok a → FollowsAt aim p (f a) (g (on a)))
    (hp : p.Settled aim) : FollowsAt aim p (pureMove x >>= f) (pureMove y >>= g) := by
  subst h
  cases x with
  | ok a => exact next a rfl
  | error e => exact ⟨rfl, hp⟩

theorem FollowsAt.of_pureMove {x : Except Failure α} {a : α} (hx : x = .ok a) {f : α → Walk β}
    {y : Walk β} (h : FollowsAt aim p (f a) y) : FollowsAt aim p (pureMove x >>= f) y := by
  subst hx
  exact h

end Survey

end LayoutGraph
