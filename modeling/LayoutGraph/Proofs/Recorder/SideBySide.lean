-- Two runs of one program on stores whose faults are recovered from. Where the
-- recorders are seen alike before, they are seen alike behind every move, and
-- so behind a pass: the one run tells nothing of the faults of the other.
import LayoutGraph.Pass
import LayoutGraph.Proofs.Recorder.Sight

namespace LayoutGraph

open Chain Recording

variable {σ τ : Type} [Store σ] [Unreliable σ] [Store τ] [Unreliable τ] {α β : Type}

/-! ## Work -/

/-- The work on both stores, from recorders that are seen alike, ends alike. -/
def SideBySide (x : Recording σ α) (y : Recording τ α) : Prop :=
  SeenAlike Recorder.sight Recorder.sight x y

namespace SideBySide

theorem pure (a : α) : SideBySide (pure a : Recording σ α) (pure a : Recording τ α) :=
  seenAlike_pure a

theorem throw (e : Failure) : SideBySide (throw e : Recording σ α) (throw e : Recording τ α) :=
  seenAlike_throw e

theorem bind {x : Recording σ α} {y : Recording τ α} {f : α → Recording σ β}
    {g : α → Recording τ β} (h : SideBySide x y) (next : ∀ a, SideBySide (f a) (g a)) :
    SideBySide (x >>= f) (y >>= g) := seenAlike_bind h next

theorem forM {γ : Type} {f : γ → Recording σ PUnit} {g : γ → Recording τ PUnit}
    (h : ∀ c, SideBySide (f c) (g c)) (cs : List γ) : SideBySide (cs.forM f) (cs.forM g) :=
  seenAlike_forM h cs

/-- The log is not seen. -/
theorem note (event event' : Log.Event) :
    SideBySide (note event : Recording σ Unit) (note event' : Recording τ Unit) :=
  fun _ _ h => congrArg (EStateM.Result.ok ()) h

/-! ## Rows -/

variable (here : Mild σ) (there : Mild τ)
include here there

theorem plain {request : Request α} (plain : request.nothing? = none)
    (unnamed : ∀ reply, request.namesTaken reply = false) :
    SideBySide (ask request : Recording σ α) (ask request : Recording τ α) := by
  intro r t h
  rw [ask_sight_of_plain here plain unnamed, ask_sight_of_plain there plain unnamed, h]

theorem origin (name : String) (littleEndian : Bool) :
    SideBySide (origin name littleEndian : Recording σ OriginId)
      (origin name littleEndian : Recording τ OriginId) := by
  intro r t h
  rw [origin_sight here, origin_sight there, h]

theorem symbol (row : NewSymbol) :
    SideBySide (symbol row : Recording σ (Inserted SymbolId))
      (symbol row : Recording τ (Inserted SymbolId)) := by
  intro r t h
  rw [symbol_sight here, symbol_sight there, h]

theorem field (row : NewField) :
    SideBySide (field row : Recording σ (Inserted FieldId))
      (field row : Recording τ (Inserted FieldId)) := by
  intro r t h
  rw [field_sight here, field_sight there, h]

theorem enumerator (owner : SymbolId) (name : String) (value : Int) :
    SideBySide (enumerator owner name value : Recording σ Unit)
      (enumerator owner name value : Recording τ Unit) := by
  intro r t h
  rw [enumerator_sight here, enumerator_sight there, h]

/-! ## Steps -/

theorem symbolId (setting : Setting) (key : SymbolKey) :
    SideBySide (symbolId setting key : Recording σ SymbolId)
      (symbolId setting key : Recording τ SymbolId) := by
  intro r t h
  have hsymbols : r.memo.symbols = t.memo.symbols := congrArg Sight.symbols h
  rw [symbolId_eq, symbolId_eq, hsymbols]
  cases t.memo.symbols.find? key with
  | some id => exact congrArg (EStateM.Result.ok id) h
  | none =>
    exact (symbol here there ⟨setting.origin, key.name, key.byteSize⟩).bind
      (fun inserted => .pure inserted.id) r t h

theorem listFor (extents : List Nat) :
    SideBySide (listFor extents : Recording σ (Option ListId))
      (listFor extents : Recording τ (Option ListId)) := by
  unfold Recording.listFor
  split
  · exact .pure none
  · exact (plain here there rfl fun _ => rfl).bind fun list => .pure (some list)

theorem writeDimensions (list : ListId) (extents : List Nat) :
    SideBySide (writeDimensions list extents : Recording σ Unit)
      (writeDimensions list extents : Recording τ Unit) := by
  unfold Recording.writeDimensions
  apply forM
  intro axis
  exact (plain here there rfl fun _ => rfl).bind fun _ => .pure ()

theorem writeField (setting : Setting) (step : Survey.FieldStep) :
    SideBySide (writeField setting step : Recording σ Unit)
      (writeField setting step : Recording τ Unit) := by
  unfold Recording.writeField
  apply (symbolId here there setting step.owner).bind
  intro owner
  apply (symbolId here there setting step.type).bind
  intro type
  apply (listFor here there step.extents).bind
  intro dimensions
  apply (field here there _).bind
  intro inserted
  cases inserted <;> cases dimensions
  case created.some id list => exact writeDimensions here there list step.extents
  all_goals exact .pure ()

theorem writeStep (setting : Setting) (step : Survey.Step) :
    SideBySide (writeStep setting step : Recording σ Unit)
      (writeStep setting step : Recording τ Unit) := by
  cases step with
  | visit entry name => exact note _ _
  | symbol key =>
    exact (symbol here there ⟨setting.origin, key.name, key.byteSize⟩).bind fun _ => .pure ()
  | field step => exact writeField here there setting step
  | enumerator key constant =>
    exact (symbolId here there setting key).bind fun owner =>
      enumerator here there owner constant.name constant.value

theorem writeResolution (setting : Setting) (one : Survey.Resolution) :
    SideBySide (Pass.writeResolution setting one : Recording σ Unit)
      (Pass.writeResolution setting one : Recording τ Unit) := by
  unfold Pass.writeResolution Recording.writeSteps
  apply (forM (writeStep here there setting) one.steps.toList).bind
  intro _
  cases one.failure with
  | some e => exact .throw e
  | none => exact .pure ()

/-! ## Passes -/

/-- The first failure ends the resolutions on both stores. -/
theorem writeResolutions (name : String) (setting : Setting) (rs : List Survey.Resolution) :
    SideBySide (Pass.writeResolutions name setting rs : Recording σ (Option Failure))
      (Pass.writeResolutions name setting rs : Recording τ (Option Failure)) := by
  induction rs with
  | nil => exact .pure none
  | cons one rest ih =>
    intro r t h
    have hone := writeResolution here there setting one r t h
    unfold Pass.writeResolutions
    cases hr : Pass.writeResolution setting one r with
    | ok u m =>
      rw [hr] at hone
      obtain ⟨n, hn, hsight⟩ := onState_eq_ok.mp hone.symm
      rw [hn]
      exact ih m n hsight.symm
    | error e m =>
      rw [hr] at hone
      obtain ⟨n, hn, hsight⟩ := onState_eq_error.mp hone.symm
      rw [hn]
      by_cases hhandled : Pass.handled e
      · simp only [hhandled, if_true]
        exact congrArg (EStateM.Result.ok (some e)) hsight.symm
      · simp only [hhandled]
        exact congrArg (EStateM.Result.error e) hsight.symm

/-- Of a source a pass writes its origin and the resolutions of its survey. -/
theorem write {a b : Source} (origins : a.origin = b.origin)
    (endians : a.littleEndian = b.littleEndian)
    (resolutions : (Survey.survey a).resolutions = (Survey.survey b).resolutions) :
    SideBySide (Pass.write a : Recording σ Unit) (Pass.write b : Recording τ Unit) := by
  unfold Pass.write
  dsimp only
  rw [origins, endians, resolutions]
  apply (origin here there b.origin b.littleEndian).bind
  intro id
  apply (note _ _).bind
  intro _
  apply (writeResolutions here there b.origin _ _).bind
  intro failure
  apply (plain here there rfl fun _ => rfl).bind
  intro _
  cases failure with
  | some e => exact .throw e
  | none => exact fun _ _ h => congrArg (EStateM.Result.ok ()) h

end SideBySide

/-! ## Calls to parse -/

namespace Session

/-- What a call to parse tells its caller: how it ended, and the session behind it. The log and the
count of recovered conflicts are left out. -/
def told : Report × Session → Status × Option Failure × Session
  | (report, session) =>
    (report.status, report.failure, { session with tally := session.tally.apartFromConflicts })

theorem parse_sideBySide (here : Mild σ) (there : Mild τ) {a b : Source}
    (origins : a.origin = b.origin) (endians : a.littleEndian = b.littleEndian)
    (resolutions : (Survey.survey a).resolutions = (Survey.survey b).resolutions) {s : σ} {t : τ}
    (rows : Unreliable.memory s = Unreliable.memory t) :
    (parse a s).1.map told = (parse b t).1.map told ∧
      Unreliable.memory (parse a s).2 = Unreliable.memory (parse b t).2 := by
  have start : ({ store := s } : Recorder σ).sight = ({ store := t } : Recorder τ).sight := by
    unfold Recorder.sight Recorder.memory
    rw [rows]
  have h := SideBySide.write here there origins endians resolutions _ _ start
  unfold parse
  cases hr : Pass.write a { store := s } with
  | ok u m =>
    rw [hr] at h
    obtain ⟨n, hn, hsight⟩ := onState_eq_ok.mp h.symm
    have htally : n.memo.tally.apartFromConflicts = m.memo.tally.apartFromConflicts :=
      congrArg Sight.tally hsight
    rw [hn]
    refine ⟨?_, (congrArg Sight.memory hsight).symm⟩
    simp only [Except.map, told, htally]
  | error e m =>
    rw [hr] at h
    obtain ⟨n, hn, hsight⟩ := onState_eq_error.mp h.symm
    have hmemory : m.memory = n.memory := (congrArg Sight.memory hsight).symm
    have htally : n.memo.tally.apartFromConflicts = m.memo.tally.apartFromConflicts :=
      congrArg Sight.tally hsight
    rw [hn]
    dsimp only
    by_cases hhandled : Pass.handled e
    · simp only [hhandled, if_true]
      refine ⟨?_, hmemory⟩
      simp only [Except.map, told, failWith, htally]
    · simp only [hhandled]
      exact ⟨rfl, hmemory⟩

end Session

end LayoutGraph
