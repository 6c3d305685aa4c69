-- Changes on a store that records its calls. The record shows in nothing that
-- a change does: the same change on the store behind it replies, notes and
-- remembers the same, and leaves that store the same.
import LayoutGraph.Change.Override
import LayoutGraph.Change.Remap
import LayoutGraph.Proofs.Chain
import LayoutGraph.Store.Traced

namespace LayoutGraph

open Chain Recording

variable {σ : Type} {α β γ : Type}

/-- The recorder, of whose calls no record is kept. -/
def Recorder.untraced (r : Recorder (Traced σ)) : Recorder σ :=
  { store := r.store.store, memo := r.memo, log := r.log }

/-! ## Work -/

/-- The work does on a store that records its calls what the other does on the store behind. -/
def Erases (x : Recording (Traced σ) α) (y : Recording σ α) : Prop :=
  ∀ r, onState Recorder.untraced (x r) = y r.untraced

theorem erases_iff {x : Recording (Traced σ) α} {y : Recording σ α} :
    Erases x y ↔ SeenAlike Recorder.untraced id x y := by
  constructor
  · rintro h r _ rfl
    rw [h, onState_id]
  · intro h r
    rw [h r r.untraced rfl, onState_id]

namespace Erases

theorem pure (a : α) : Erases (pure a : Recording (Traced σ) α) (pure a) := fun _ => rfl

theorem throw_bind (e : Failure) (k : β → Recording (Traced σ) α) (l : β → Recording σ α) :
    Erases (throw e >>= k) (throw e >>= l) := fun _ => rfl

theorem throw (e : Failure) : Erases (throw e : Recording (Traced σ) α) (throw e) := fun _ => rfl

theorem bind {x : Recording (Traced σ) α} {y : Recording σ α} {k : α → Recording (Traced σ) β}
    {l : α → Recording σ β} (h : Erases x y) (next : ∀ a, Erases (k a) (l a)) :
    Erases (x >>= k) (y >>= l) :=
  erases_iff.mpr (seenAlike_bind (erases_iff.mp h) fun a => erases_iff.mp (next a))

/-- What is read of a recorder is read without its record of calls. -/
theorem get_bind {k : Recorder (Traced σ) → Recording (Traced σ) α}
    {l : Recorder σ → Recording σ α} (h : ∀ r, Erases (k r) (l r.untraced)) :
    Erases (get >>= k) (get >>= l) := fun r => h r r

theorem note (event : Log.Event) : Erases (note event : Recording (Traced σ) Unit) (note event) :=
  fun _ => rfl

theorem modifyMemo (f : Memo → Memo) :
    Erases (modifyMemo f : Recording (Traced σ) Unit) (modifyMemo f) := fun _ => rfl

theorem count (f : Tally → Tally) :
    Erases (count f : Recording (Traced σ) Unit) (count f) := fun _ => rfl

theorem forM {k : γ → Recording (Traced σ) PUnit} {l : γ → Recording σ PUnit}
    (h : ∀ c, Erases (k c) (l c)) (cs : List γ) : Erases (cs.forM k) (cs.forM l) :=
  erases_iff.mpr (seenAlike_forM (fun c => erases_iff.mp (h c)) cs)

theorem mapM {k : γ → Recording (Traced σ) β} {l : γ → Recording σ β}
    (h : ∀ c, Erases (k c) (l c)) (cs : List γ) : Erases (cs.mapM k) (cs.mapM l) :=
  erases_iff.mpr (seenAlike_mapM (fun c => erases_iff.mp (h c)) cs)

/-- The two end alike, and leave the same but for the record. -/
theorem run {x : Recording (Traced σ) α} {y : Recording σ α} (h : Erases x y)
    (r : Recorder (Traced σ)) :
    (∃ a t, x r = .ok a t ∧ y r.untraced = .ok a t.untraced) ∨
      ∃ e t, x r = .error e t ∧ y r.untraced = .error e t.untraced := by
  have hxy := (h r).symm
  cases hx : x r with
  | ok a t =>
    rw [hx] at hxy
    exact .inl ⟨a, t, rfl, hxy⟩
  | error e t =>
    rw [hx] at hxy
    exact .inr ⟨e, t, rfl, hxy⟩

/-! ## Merging -/

theorem recover {ι : Type} (taken : TakenKey) (raw : ι → Int)
    {insert : Recording (Traced σ) (Inserted ι)} {again : Recording (Traced σ) (Option ι)}
    {insert' : Recording σ (Inserted ι)} {again' : Recording σ (Option ι)}
    (hinsert : Erases insert insert') (hagain : Erases again again') :
    Erases (recover taken raw insert again) (recover taken raw insert' again') := by
  intro r
  unfold Recording.recover
  obtain ⟨reply, t, hx, hy⟩ | ⟨e, t, hx, hy⟩ := hinsert.run r
  · rw [hx, hy]
    cases reply with
    | created id => rfl
    | existing id => rfl
  · rw [hx, hy]
    cases e with
    | conflict entity key =>
      refine hagain.bind (fun found => ?_) t
      cases found with
      | none => exact throw _
      | some id => exact (count _).bind fun _ => (note _).bind fun _ => pure _
    | _ => rfl

variable [Store σ]

theorem ask (request : Request α) :
    Erases (ask request : Recording (Traced σ) α) (ask request) := by
  intro r
  simp only [Recording.ask, Store.serve, Recorder.untraced]
  cases Store.serve request r.store.store with
  | ok reply store => rfl
  | error e store => rfl

theorem findSymbol (key : SymbolKey) :
    Erases (findSymbol key : Recording (Traced σ) _) (findSymbol key) := by
  refine get_bind fun r => ?_
  simp only [Recorder.untraced]
  cases r.memo.symbols.find? key with
  | some id => exact pure _
  | none =>
    refine (ask (.findSymbol key)).bind fun found => ?_
    cases found with
    | some id => exact (modifyMemo _).bind fun _ => pure _
    | none => exact pure _

theorem symbol (row : NewSymbol) :
    Erases (symbol row : Recording (Traced σ) _) (symbol row) := by
  refine (findSymbol row.key).bind fun found => ?_
  cases found with
  | some id => exact (count _).bind fun _ => (note _).bind fun _ => pure _
  | none =>
    refine (recover _ _ (ask _) (ask _)).bind fun inserted => ?_
    refine (modifyMemo _).bind fun _ => ?_
    cases inserted with
    | created id => exact (count _).bind fun _ => (note _).bind fun _ => pure _
    | existing id => exact (count _).bind fun _ => pure _

theorem enumerator (owner : SymbolId) (name : String) (value : Int) :
    Erases (enumerator owner name value : Recording (Traced σ) Unit)
      (enumerator owner name value) := by
  intro r
  unfold Recording.enumerator
  obtain ⟨reply, t, hx, hy⟩ | ⟨e, t, hx, hy⟩ := (ask (.insertEnumerator owner name value)).run r
  · rw [hx, hy]
    cases reply with
    | created id => rfl
    | existing id => rfl
  · rw [hx, hy]
    cases e with
    | conflict entity key => rfl
    | _ => rfl

/-! ## Remaps -/

open Change

theorem planMapping (seen : List String) (m : Mapping) :
    Erases (planMapping seen m : Recording (Traced σ) _) (planMapping seen m) := by
  unfold Change.planMapping
  by_cases hseen : m.old ∈ seen
  · simp only [hseen, if_true]
    exact throw_bind _ _ _
  simp only [hseen, if_false]
  by_cases hsame : m.old = m.new
  · simp only [hsame, if_true]
    exact throw_bind _ _ _
  simp only [hsame, if_false]
  refine (ask _).bind fun sources => ?_
  cases sources with
  | nil => exact throw_bind _ _ _
  | cons source rest =>
    refine (ask _).bind fun targets => ?_
    cases targets with
    | nil => exact throw _
    | cons target _ => exact pure _

theorem planMappings (seen : List String) (ms : List Mapping) :
    Erases (planMappings seen ms : Recording (Traced σ) _) (planMappings seen ms) := by
  induction ms generalizing seen with
  | nil => exact pure []
  | cons m rest ih =>
    exact (planMapping seen m).bind fun plan => (ih _).bind fun plans => pure (plan :: plans)

theorem retargetAll (target : SymbolId) (sources : List SymbolId) :
    Erases (retargetAll target sources : Recording (Traced σ) Nat) (retargetAll target sources) := by
  induction sources with
  | nil => exact pure 0
  | cons source rest ih => exact (ask _).bind fun here => ih.bind fun there => pure (here + there)

theorem applyPlan (plan : RemapPlan) :
    Erases (applyPlan plan : Recording (Traced σ) _) (applyPlan plan) :=
  (retargetAll _ _).bind fun _ => (note _).bind fun _ => pure _

theorem remap (mappings : List Mapping) :
    Erases (remap mappings : Recording (Traced σ) _) (remap mappings) :=
  (planMappings _ _).bind fun _ => (mapM applyPlan _).bind fun report =>
    (ask .commit).bind fun _ => pure report

/-! ## Overrides -/

theorem locate (o : Override) : Erases (locate o : Recording (Traced σ) _) (locate o) := by
  refine (ask _).bind fun owners => ?_
  cases owners with
  | nil => exact throw _
  | cons owner _ =>
    refine (ask _).bind fun found => ?_
    cases found with
    | none => exact throw _
    | some id =>
      refine (ask _).bind fun row => ?_
      cases row with
      | none => exact throw _
      | some field =>
        refine (ask _).bind fun previous => ?_
        cases previous with
        | none => exact throw _
        | some previous => exact pure _

theorem planOverride (seen : List (String × String)) (o : Override) :
    Erases (planOverride seen o : Recording (Traced σ) _) (planOverride seen o) := by
  unfold Change.planOverride
  by_cases hseen : (o.symbol, o.field) ∈ seen
  · simp only [hseen, if_true]
    exact throw_bind _ _ _
  simp only [hseen, if_false]
  cases replacementFault? o with
  | some fault => exact throw _
  | none => exact locate o

theorem planOverrides (seen : List (String × String)) (os : List Override) :
    Erases (planOverrides seen os : Recording (Traced σ) _) (planOverrides seen os) := by
  induction os generalizing seen with
  | nil => exact pure []
  | cons o rest ih =>
    exact (planOverride seen o).bind fun plan => (ih _).bind fun plans => pure (plan :: plans)

theorem applyOverridePlan (plan : OverridePlan) :
    Erases (applyOverridePlan plan : Recording (Traced σ) _) (applyOverridePlan plan) := by
  refine (symbol _).bind fun inserted => ?_
  refine get_bind fun _ => ?_
  refine (forM (fun _ => enumerator _ _ _) _).bind fun _ => ?_
  refine get_bind fun _ => ?_
  refine (ask _).bind fun found => ?_
  cases found with
  | false => exact throw_bind _ _ _
  | true => exact (note _).bind fun _ => pure _

theorem override (requests : List Override) :
    Erases (override requests : Recording (Traced σ) _) (override requests) :=
  (planOverrides _ _).bind fun _ => (mapM applyOverridePlan _).bind fun report =>
    (ask .commit).bind fun _ => pure report

end Erases

end LayoutGraph
