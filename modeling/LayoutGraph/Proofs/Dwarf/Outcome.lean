-- What work on sections comes to: how a chain of it ends well, which decodings
-- do not depend on the log, and what they gather from a sequence.
import LayoutGraph.Dwarf.Decode
import Mathlib.Data.List.Forall2

namespace LayoutGraph.Dwarf

variable {ε σ α β : Type} {sections : Sections}

theorem Script.run_bind (script : Script α) (next : α → Script β) :
    (script >>= next).run sections = (next (script.run sections)).run sections := by
  show (Script.bind script next).run sections = _
  induction script with
  | done value => rfl
  | look l rest ih => exact ih _
  | size part rest ih => exact ih _

/-- Work on sections that changes a state and can fail: a read moves its cursor, a decoding adds to
its log. -/
abbrev Work (ε σ α : Type) := ExceptT ε (StateT σ Script) α

namespace Work

/-- What the work comes to, and the state it leaves. -/
def outcome (sections : Sections) (work : Work ε σ α) (state : σ) : Except ε α × σ :=
  (work.run.run state).run sections

variable {work : Work ε σ α} {next : α → Work ε σ β} {state : σ}

theorem outcome_bind : outcome sections (work >>= next) state =
    match outcome sections work state with
    | (.ok a, left) => outcome sections (next a) left
    | (.error e, left) => (.error e, left) := by
  unfold outcome
  show (work.run.run state >>= fun p => (ExceptT.bindCont next p.1).run p.2 :
      Script (Except ε β × σ)).run sections = _
  rw [Script.run_bind]
  rcases (work.run.run state).run sections with ⟨r, left⟩
  cases r <;> rfl

theorem outcome_lift (script : Script α) :
    outcome sections (liftM script : Work ε σ α) state = (.ok (script.run sections), state) := by
  unfold outcome
  show ((script >>= fun a => pure (a, state)) >>= fun p => pure (Except.ok p.1, p.2) :
      Script (Except ε α × σ)).run sections = _
  rw [Script.run_bind, Script.run_bind]
  rfl

/-! ## Work that ends well -/

/-- The work ends well with a value, and leaves a state. -/
def Gives (sections : Sections) (state : σ) (work : Work ε σ α) (a : α) (left : σ) : Prop :=
  outcome sections work state = (.ok a, left)

variable {a a' : α} {b : β} {left : σ}

theorem gives_bind_iff : Gives sections state (work >>= next) b left ↔
    ∃ a middle, Gives sections state work a middle ∧ Gives sections middle (next a) b left := by
  unfold Gives
  rw [outcome_bind]
  rcases outcome sections work state with ⟨r, middle⟩
  cases r with
  | ok a =>
    constructor
    · intro h
      exact ⟨a, middle, rfl, h⟩
    · rintro ⟨_, _, heq, h⟩
      cases heq
      exact h
  | error e => simp

theorem gives_pure_iff :
    Gives sections state (pure a : Work ε σ α) a' left ↔ a = a' ∧ state = left := by
  show (Except.ok a, state) = (Except.ok a', left) ↔ _
  simp

theorem gives_map_iff {g : α → β} : Gives sections state (do return g (← work)) b left ↔
    ∃ a, Gives sections state work a left ∧ g a = b := by
  rw [gives_bind_iff]
  simp only [gives_pure_iff]
  constructor
  · rintro ⟨a, middle, hwork, rfl, rfl⟩
    exact ⟨a, hwork, rfl⟩
  · rintro ⟨a, hwork, rfl⟩
    exact ⟨a, left, hwork, rfl, rfl⟩

theorem gives_lift_iff {script : Script α} :
    Gives sections state (liftM script : Work ε σ α) a left ↔
      script.run sections = a ∧ state = left := by
  unfold Gives
  rw [outcome_lift]
  simp

theorem not_gives_throw {e : ε} : ¬ Gives sections state (throw e : Work ε σ α) a left := by
  show (Except.error e, state) ≠ (Except.ok a, left)
  simp

end Work

namespace Decoding

open Work

variable {work : Decoding α} {next : α → Decoding β} {log log' left : Array Log.Event} {a : α}

theorem outcome_settle (task : Task) (r : Except Defect α) :
    outcome sections (settle task r) log = (r.mapError (⟨task, ·⟩), log) := by
  cases r <;> rfl

theorem outcome_during (task : Task) (trial : Trial α) :
    outcome sections (during task trial) log =
      ((trial.run.run sections).mapError (⟨task, ·⟩), log) := by
  unfold during
  rw [outcome_bind, outcome_lift]
  exact outcome_settle task _

theorem gives_settle_iff {task : Task} {r : Except Defect α} :
    Gives sections log (settle task r) a left ↔ r = .ok a ∧ log = left := by
  unfold Gives
  rw [outcome_settle]
  cases r <;> simp [Except.mapError]

theorem gives_during_iff {task : Task} {trial : Trial α} :
    Gives sections log (during task trial) a left ↔
      trial.run.run sections = .ok a ∧ log = left := by
  unfold Gives
  rw [outcome_during]
  cases trial.run.run sections <;> simp [Except.mapError]

/-! ## The log makes no difference -/

/-- What the decoding comes to with an empty log. -/
def result (sections : Sections) (work : Decoding α) : Except Fault α :=
  (outcome sections work #[]).1

/-- What the decoding comes to is the same whatever the log holds. -/
def IgnoresLog (sections : Sections) (work : Decoding α) : Prop :=
  ∀ log log', (outcome sections work log).1 = (outcome sections work log').1

theorem IgnoresLog.result_of_gives (h : work.IgnoresLog sections)
    (gives : Gives sections log work a left) : work.result sections = .ok a := by
  unfold result
  rw [h #[] log, gives]

theorem ignoresLog_pure : (pure a : Decoding α).IgnoresLog sections := fun _ _ => rfl

theorem ignoresLog_note (event : Log.Event) : (note event).IgnoresLog sections := fun _ _ => rfl

theorem ignoresLog_settle (task : Task) (r : Except Defect α) :
    (settle task r).IgnoresLog sections := by
  intro log log'
  rw [outcome_settle, outcome_settle]

theorem ignoresLog_during (task : Task) (trial : Trial α) :
    (during task trial).IgnoresLog sections := by
  intro log log'
  rw [outcome_during, outcome_during]

theorem ignoresLog_bind (hwork : work.IgnoresLog sections)
    (hnext : ∀ a, (next a).IgnoresLog sections) : (work >>= next).IgnoresLog sections := by
  intro log log'
  have hsame := hwork log log'
  rw [outcome_bind, outcome_bind]
  rcases hhere : outcome sections work log with ⟨r, left⟩
  rcases hthere : outcome sections work log' with ⟨r', left'⟩
  rw [hhere, hthere] at hsame
  obtain rfl : r = r' := hsame
  cases r with
  | ok a => exact hnext a left left'
  | error fault => rfl

/-! ## Gathering -/

section Gather

variable {work : α → Decoding (Option β)} {pick : α → Bool} {R : α → β → Prop} {items : List α}
  {found kept : List β}

/-- Work that finds something in what a test picks gathers one result for each item that is picked,
in order. -/
theorem forall₂_of_gatherFrom
    (picks : ∀ a ∈ items, ∀ log o left, Gives sections log (work a) o left → o.isSome = pick a)
    (relates : ∀ a ∈ items, ∀ log b left, Gives sections log (work a) (some b) left → R a b)
    (h : Gives sections log (gatherFrom work found items) kept left) :
    ∃ rest, kept = found.reverse ++ rest ∧ List.Forall₂ R (items.filter pick) rest := by
  induction items generalizing found log with
  | nil =>
    obtain ⟨rfl, -⟩ := gives_pure_iff.mp h
    exact ⟨[], (List.append_nil _).symm, .nil⟩
  | cons a items ih =>
    have picks' := fun c hc => picks c (.tail a hc)
    have relates' := fun c hc => relates c (.tail a hc)
    obtain ⟨o, middle, hwork, hrest⟩ := gives_bind_iff.mp h
    have hpick := picks a (.head items) _ _ _ hwork
    cases o with
    | none =>
      rw [List.filter_cons_of_neg (by rw [← hpick]; exact Bool.false_ne_true)]
      exact ih picks' relates' hrest
    | some b =>
      obtain ⟨rest, rfl, hall⟩ := ih picks' relates' hrest
      rw [List.filter_cons_of_pos hpick.symm, List.reverse_cons, List.append_assoc]
      exact ⟨b :: rest, rfl, .cons (relates a (.head items) _ _ _ hwork) hall⟩

theorem forall₂_of_gather {task : Task} {r : Readable α}
    (picks : ∀ a ∈ r.items, ∀ log o left, Gives sections log (work a) o left → o.isSome = pick a)
    (relates : ∀ a ∈ r.items, ∀ log b left, Gives sections log (work a) (some b) left → R a b)
    (h : Gives sections log (gather task work r) kept left) :
    List.Forall₂ R (r.items.filter pick) kept := by
  obtain ⟨all, middle, hall, hend⟩ := gives_bind_iff.mp h
  cases hdefect : r.defect with
  | some defect =>
    rw [hdefect] at hend
    exact (not_gives_throw hend).elim
  | none =>
    rw [hdefect] at hend
    obtain ⟨rfl, -⟩ := gives_pure_iff.mp hend
    obtain ⟨rest, rfl, hrest⟩ := forall₂_of_gatherFrom picks relates hall
    exact hrest

theorem gatherFrom_map {γ : Type} {of : γ → α} {origins : List γ} :
    gatherFrom work found (origins.map of) =
      gatherFrom (fun c => work (of c)) found origins := by
  induction origins generalizing found with
  | nil => rfl
  | cons c origins ih =>
    rw [List.map_cons]
    unfold gatherFrom
    congr 1
    funext o
    cases o <;> exact ih

/-- Items that come from others are gathered as those are. -/
theorem gather_map {γ : Type} {of : γ → α} {origins : List γ} {task : Task}
    {defect : Option Defect} : gather task work ⟨origins.map of, defect⟩ =
      gather task (fun c => work (of c)) ⟨origins, defect⟩ := by
  unfold gather
  rw [gatherFrom_map]

end Gather

end Decoding
end LayoutGraph.Dwarf
