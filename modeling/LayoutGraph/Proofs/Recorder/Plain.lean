-- What a pass does to the rows, as functions of the rows alone. A pass that
-- ends well has laid all of its steps. One whose calls fail has laid the steps
-- before the failing call, and of the next step no more than a cut.
import LayoutGraph.Proofs.Ledger.Field
import LayoutGraph.Proofs.Passing
import LayoutGraph.Proofs.Recorder.Struck

namespace LayoutGraph

open Chain Recording Survey

/-- The row of a symbol key. -/
def Recording.Setting.row (setting : Setting) (key : SymbolKey) : NewSymbol :=
  ⟨setting.origin, key.name, key.byteSize⟩

namespace Memory

/-! ## Laying steps -/

/-- The store with symbols of the keys. -/
def intern (setting : Setting) (m : Memory) (keys : List SymbolKey) : Memory :=
  keys.foldl (fun m key => (m.insertSymbol (setting.row key)).2) m

def symbolOf (m : Memory) (key : SymbolKey) : SymbolId := (m.symbolIndex.find? key).getD default

/-- A list for an array field, and the store that has given it; other fields take none. -/
def takeList (m : Memory) (extents : List Nat) : Option ListId × Memory :=
  if extents.isEmpty then (none, m)
  else (some ⟨m.lists.last + 1⟩, { m with lists := ⟨m.lists.last + 1⟩ })

/-- The row of a field whose owner and type are there. -/
def fieldRow (setting : Setting) (m : Memory) (step : FieldStep) (dimensions : Option ListId) :
    NewField where
  owner := m.symbolOf step.owner
  name := step.name
  byteOffset := step.byteOffset
  type := m.symbolOf step.type
  dimensions
  littleEndian := setting.littleEndian
  bitSize := step.bitSize
  bitOffset := step.bitOffset
  pointerDepth := step.pointerDepth

/-- The store with the field; if the field is new, its list gets the axes. -/
def placeField (m : Memory) (row : NewField) (extents : List Nat) : Memory :=
  let (inserted, n) := m.insertField row
  match inserted, row.dimensions with
  | .created _, some list => withAxes list 0 extents n
  | _, _ => n

/-- The store with a field whose owner and type are there. -/
def layField (setting : Setting) (m : Memory) (step : FieldStep) : Memory :=
  let (dimensions, taken) := m.takeList step.extents
  taken.placeField (m.fieldRow setting step dimensions) step.extents

/-- The store with the row of a step whose symbols are there. -/
def layRow (setting : Setting) (m : Memory) : Step → Memory
  | .visit _ _ | .symbol _ => m
  | .field step => m.layField setting step
  | .enumerator key constant =>
    (m.insertEnumerator (m.symbolOf key) constant.name constant.value).2

/-- The store with the rows of a step. -/
def lay (setting : Setting) (m : Memory) (step : Step) : Memory :=
  (m.intern setting step.symbols).layRow setting step

def layAll (setting : Setting) (m : Memory) (steps : List Step) : Memory :=
  steps.foldl (lay setting) m

/-- The store with the origin of a source. -/
def enterOrigin (m : Memory) (source : Source) : Memory :=
  (m.insertOrigin source.origin source.littleEndian).2

/-- What the rows of a source have in common. -/
def settingOf (m : Memory) (source : Source) : Setting :=
  ⟨(m.insertOrigin source.origin source.littleEndian).1.id, source.littleEndian⟩

/-- The store with the rows of a source. -/
def laySource (m : Memory) (source : Source) : Memory :=
  (m.enterOrigin source).layAll (m.settingOf source) source.steps

theorem layAll_append (setting : Setting) (m : Memory) (a b : List Step) :
    m.layAll setting (a ++ b) = (m.layAll setting a).layAll setting b := List.foldl_append

theorem takeList_of_plain {extents : List Nat} (h : extents.isEmpty = true) (m : Memory) :
    m.takeList extents = (none, m) := if_pos h

theorem takeList_of_array {extents : List Nat} (h : extents.isEmpty = false) (m : Memory) :
    m.takeList extents = (some ⟨m.lists.last + 1⟩, { m with lists := ⟨m.lists.last + 1⟩ }) :=
  if_neg (by simp [h])

theorem symbolOf_of_names {m : Memory} {key : SymbolKey} {id : SymbolId}
    (h : m.Names (.symbol key id)) : m.symbolOf key = id := by
  unfold symbolOf
  rw [show m.symbolIndex.find? key = some id from h]
  rfl

/-! ## Steps that are cut short -/

/-- What a fault can leave of a step: some of its symbols, a list that was taken for nothing, or,
where an insert of an axis is struck, a new field with the first of its axes. -/
inductive Cut (torn : Prop) (setting : Setting) (m : Memory) : Step → Memory → Prop
  | symbols {step : Step} (before after : List SymbolKey) : step.symbols = before ++ after →
    Cut torn setting m step (m.intern setting before)
  | list {step : FieldStep} {n : Memory} : n = m.intern setting (Step.field step).symbols →
    Cut torn setting m (.field step) (n.takeList step.extents).2
  | axes {step : FieldStep} {n taken : Memory} {dimensions : Option ListId} {k : Nat} : torn →
    n = m.intern setting (Step.field step).symbols →
    n.takeList step.extents = (dimensions, taken) →
    taken.fieldIndex.find? (n.fieldRow setting step dimensions).key = none →
    k < step.extents.length →
    Cut torn setting m (.field step)
      (taken.placeField (n.fieldRow setting step dimensions) (step.extents.take k))

/-- Some of the steps are laid, and the next one is cut short. -/
def Broken (torn : Prop) (setting : Setting) (m : Memory) (steps : List Step) (n : Memory) : Prop :=
  ∃ before step after, steps = before ++ step :: after ∧
    Cut torn setting (m.layAll setting before) step n

variable {torn : Prop} {setting : Setting} {m n : Memory} {step : Step} {steps more : List Step}

theorem Broken.head (h : Cut torn setting m step n) : Broken torn setting m (step :: steps) n :=
  ⟨[], step, steps, rfl, h⟩

theorem Broken.behind (more : List Step)
    (h : Broken torn setting (m.layAll setting more) steps n) :
    Broken torn setting m (more ++ steps) n := by
  obtain ⟨before, step, after, rfl, h⟩ := h
  refine ⟨more ++ before, step, after, (List.append_assoc _ _ _).symm, ?_⟩
  rwa [layAll_append]

theorem Broken.before (h : Broken torn setting m steps n) :
    Broken torn setting m (steps ++ more) n := by
  obtain ⟨before, step, after, rfl, h⟩ := h
  exact ⟨before, step, after ++ more, List.append_assoc _ _ _, h⟩

end Memory

/-! ## Moves under errors -/

variable {σ : Type} [Store σ] [Unreliable σ] {setting : Setting} {r : Recorder σ}

/-- Some fault strikes an insert of an axis. -/
def TearsAxes (σ : Type) [Store σ] [Unreliable σ] : Prop :=
  ∃ (s : σ) (fault : FaultMode), Unreliable.mode s .insertDimension = some fault

/-- An insert of an axis fails where a fault strikes it, and nowhere else. -/
theorem writeDimensions_struck (hr : Recalls r) (list : ListId) (extents : List Nat) :
    Ends
      (fun _ t => Recalls t ∧ t.memory = Memory.withAxes list 0 extents r.memory)
      (fun _ t => TearsAxes σ ∧ ∃ k < extents.length,
        t.memory = Memory.withAxes list 0 (extents.take k) r.memory)
      (writeDimensions list extents r) := by
  unfold writeDimensions
  generalize 0 = order
  induction extents generalizing order r with
  | nil => exact ⟨hr, rfl⟩
  | cons extent rest ih =>
    rw [List.zipIdx_cons]
    refine ends_bind (ends_bind ((ask_served _ rfl r).mono (fun id t h => ?_) fun e t h => ?_))
    · obtain ⟨hmemo, hanswer⟩ := h
      have ht := hr.answer hanswer (congrArg _ hmemo) (congrArg _ hmemo)
      have hmemory : t.memory = (r.memory.insertDimension list order extent).2 :=
        eq_snd_of_ok hanswer
      refine (ih ht (order + 1)).mono (fun _ u h => ⟨h.1, ?_⟩) fun _ u h => ⟨h.1, ?_⟩
      · rw [h.2, hmemory]
        rfl
      · obtain ⟨-, k, hk, hu⟩ := h
        refine ⟨k + 1, Nat.succ_lt_succ hk, ?_⟩
        rw [hu, hmemory]
        rfl
    · obtain ⟨-, hmemory, hanswer | ⟨fault, hmode, -⟩⟩ := h
      · cases hanswer
      · exact ⟨⟨_, fault, hmode⟩, 0, Nat.succ_pos _, hmemory⟩

/-- A field that could not be placed is not there, or it is new and lacks axes. -/
theorem placeField_struck (hr : Recalls r) (row : NewField) (extents : List Nat) :
    Ends
      (fun _ t => Recalls t ∧ t.memory = r.memory.placeField row extents)
      (fun _ t => t.memory = r.memory ∨ TearsAxes σ ∧
        r.memory.fieldIndex.find? row.key = none ∧ ∃ k < extents.length,
          t.memory = r.memory.placeField row (extents.take k))
      ((do
        let inserted ← field row
        match inserted, row.dimensions with
        | .created _, some list => writeDimensions list extents
        | _, _ => pure () : Recording σ Unit) r) := by
  unfold Memory.placeField
  refine ends_bind ((field_struck hr row).mono (fun inserted t h => ?_) fun _ t h => .inl h)
  obtain ⟨ht, hinsert⟩ := h
  have hnew : ∀ id, inserted = .created id → r.memory.fieldIndex.find? row.key = none := by
    rintro id rfl
    cases hfind : r.memory.fieldIndex.find? row.key with
    | none => rfl
    | some other =>
      rw [Memory.insertField_of_some hfind] at hinsert
      cases congrArg Prod.fst hinsert
  rw [← hinsert]
  generalize row.dimensions = dimensions
  cases inserted with
  | existing id => exact ⟨ht, rfl⟩
  | created id =>
    cases dimensions with
    | none => exact ⟨ht, rfl⟩
    | some list =>
      exact (writeDimensions_struck ht list extents).mono (fun _ _ h => h)
        fun _ _ h => .inr ⟨h.1, hnew id rfl, h.2⟩

theorem writeField_struck (hr : Recalls r) (step : FieldStep) :
    Ends
      (fun _ t => Recalls t ∧ t.memory = r.memory.lay setting (.field step))
      (fun _ t => Memory.Cut (TearsAxes σ) setting r.memory (.field step) t.memory)
      (writeField setting step r) := by
  unfold writeField
  refine ends_bind ((symbolId_struck hr setting step.owner).mono (fun owner r1 h => ?_)
    fun _ t h => h ▸ .symbols [] _ rfl)
  obtain ⟨h1, howner, hmemory1⟩ := h
  refine ends_bind ((symbolId_struck h1 setting step.type).mono (fun type r2 h => ?_)
    fun _ t h => (h.trans hmemory1) ▸ .symbols [step.owner] _ rfl)
  obtain ⟨h2, htype, hmemory2⟩ := h
  have hinterned : r2.memory = r.memory.intern setting (Step.field step).symbols := by
    rw [hmemory2, hmemory1]
    rfl
  have howner2 : r2.memory.symbolOf step.owner = owner := by
    refine Memory.symbolOf_of_names ?_
    rw [hmemory2]
    exact Memory.names_lasts (.insertSymbol (setting.row step.type)) rfl howner
  have htype2 : r2.memory.symbolOf step.type = type := Memory.symbolOf_of_names htype
  refine ends_bind ((listFor_struck h2 step.extents).mono (fun dimensions r3 h => ?_)
    fun _ t h => (h.trans hinterned) ▸ .symbols _ [] (List.append_nil _).symm)
  obtain ⟨h3, hlist⟩ := h
  have htaken : r2.memory.takeList step.extents = (dimensions, r3.memory) := by
    unfold Memory.takeList
    split at hlist <;> simp_all
  subst howner2 htype2
  have hplace := placeField_struck h3 (r2.memory.fieldRow setting step dimensions) step.extents
  refine hplace.mono (fun _ t h => ⟨h.1, ?_⟩) fun _ t h => ?_
  · unfold Memory.lay
    rw [← hinterned]
    show t.memory = r2.memory.layField setting step
    unfold Memory.layField
    rw [htaken]
    exact h.2
  · rcases h with h | ⟨htears, habsent, k, hk, h⟩ <;> rw [h]
    · have hcut : Memory.Cut (TearsAxes σ) setting r.memory _ _ := .list hinterned
      rwa [htaken] at hcut
    · exact .axes htears hinterned htaken habsent hk

/-! ## Steps under errors -/

theorem writeStep_struck (only : ErrorsOnly σ) (hr : Recalls r) (step : Step) :
    Ends
      (fun _ t => Recalls t ∧ t.memory = r.memory.lay setting step)
      (fun _ t => Memory.Cut (TearsAxes σ) setting r.memory step t.memory)
      (writeStep setting step r) := by
  cases step with
  | visit entry name => exact ⟨hr.congr rfl rfl rfl, rfl⟩
  | symbol key =>
    refine ends_bind ((symbol_struck hr (setting.row key)).mono (fun inserted t h => ?_)
      fun _ t h => h ▸ .symbols [] _ rfl)
    exact ⟨h.1, congrArg Prod.snd h.2.2⟩
  | field step => exact writeField_struck hr step
  | enumerator key constant =>
    refine ends_bind ((symbolId_struck hr setting key).mono (fun owner r1 h => ?_)
      fun _ t h => h ▸ .symbols [] _ rfl)
    obtain ⟨h1, howner, hmemory1⟩ := h
    refine (enumerator_struck h1 owner constant.name constant.value).mono (fun _ t h => ?_)
      fun _ t h => (h.trans hmemory1) ▸ .symbols [key] _ rfl
    refine ⟨h.1, (h.2.resolve_right fun h => h.1 only).trans ?_⟩
    rw [← Memory.symbolOf_of_names howner, hmemory1]
    rfl

theorem writeSteps_struck (only : ErrorsOnly σ) (setting : Setting) (hr : Recalls r)
    (steps : List Step) :
    Ends
      (fun _ t => Recalls t ∧ t.memory = r.memory.layAll setting steps)
      (fun _ t => Memory.Broken (TearsAxes σ) setting r.memory steps t.memory)
      (writeSteps setting steps r) := by
  unfold writeSteps
  induction steps generalizing r with
  | nil => exact ⟨hr, rfl⟩
  | cons step rest ih =>
    refine ends_bind ((writeStep_struck only hr step).mono (fun _ t h => ?_) fun _ _ h => .head h)
    obtain ⟨ht, hlaid⟩ := h
    refine (ih ht).mono (fun _ u h => ⟨h.1, ?_⟩) fun _ u h => ?_
    · rw [h.2, hlaid]
      rfl
    · rw [hlaid] at h
      exact h.behind [step]

/-- A resolution that fails on its own has laid its steps. -/
theorem writeResolution_struck (only : ErrorsOnly σ) (setting : Setting) (hr : Recalls r)
    (one : Resolution) :
    Ends
      (fun _ t => Recalls t ∧ t.memory = r.memory.layAll setting one.steps.toList)
      (fun _ t => one.failure ≠ none ∧ t.memory = r.memory.layAll setting one.steps.toList ∨
        Memory.Broken (TearsAxes σ) setting r.memory one.steps.toList t.memory)
      (Pass.writeResolution setting one r) := by
  unfold Pass.writeResolution
  refine ends_bind ((writeSteps_struck only setting hr one.steps.toList).mono (fun _ t h => ?_)
    fun _ _ h => .inr h)
  cases hfailure : one.failure with
  | none => exact h
  | some e => exact .inl ⟨nofun, h.2⟩

/-- Resolutions lay all their steps, unless a call fails: then they break off at that call. -/
theorem writeResolutions_struck (only : ErrorsOnly σ) (name : String) (setting : Setting)
    (hr : Recalls r) {rs : List Resolution} (ends : EndsAtFailure rs) :
    Ends
      (fun failure t => t.memory = r.memory.layAll setting (stepsOf rs) ∨
        failure ≠ none ∧ Memory.Broken (TearsAxes σ) setting r.memory (stepsOf rs) t.memory)
      (fun _ t => t.memory = r.memory.layAll setting (stepsOf rs) ∨
        Memory.Broken (TearsAxes σ) setting r.memory (stepsOf rs) t.memory)
      (Pass.writeResolutions name setting rs r) := by
  induction rs generalizing r with
  | nil => exact .inl rfl
  | cons one rest ih =>
    have h := writeResolution_struck only setting hr one
    unfold Pass.writeResolutions
    rw [stepsOf_cons]
    split <;> rename_i hone <;> rw [hone] at h
    · obtain ⟨ht, hlaid⟩ := h
      rw [Memory.layAll_append, ← hlaid]
      refine (ih ht ends.2).mono (fun failure u h => h.imp_right fun h => ⟨h.1, ?_⟩)
        fun _ u h => h.imp_right fun h => ?_
      · exact Memory.Broken.behind _ (hlaid ▸ h.2)
      · exact Memory.Broken.behind _ (hlaid ▸ h)
    · rename_i e t
      have hstops : t.memory = r.memory.layAll setting (one.steps.toList ++ stepsOf rest) ∨
          Memory.Broken (TearsAxes σ) setting r.memory (one.steps.toList ++ stepsOf rest)
            t.memory := by
        rcases h with ⟨hfails, hlaid⟩ | hbroken
        · cases ends.1.resolve_left hfails
          exact .inl (hlaid.trans (congrArg _ (List.append_nil _).symm))
        · exact .inr hbroken.before
      split
      · exact hstops.imp_right fun h => ⟨nofun, h⟩
      · exact hstops

/-! ## Passes under errors -/

/-- A pass that ends well lays its source. One that failed left all as it was, or has laid the whole
source, or broke off at the failing call. -/
theorem write_struck (only : ErrorsOnly σ) (source : Source) (hr : Recalls r) :
    Ends
      (fun _ t => t.memory = r.memory.laySource source)
      (fun _ t => t.memory = r.memory ∨ t.memory = r.memory.laySource source ∨
        Memory.Broken (TearsAxes σ) (r.memory.settingOf source) (r.memory.enterOrigin source)
          source.steps t.memory)
      (Pass.write source r) := by
  unfold Pass.write
  refine ends_bind ((origin_struck hr source.origin source.littleEndian).mono (fun id r1 h => ?_)
    fun _ t h => .inl h)
  obtain ⟨h1, hid, hmemory⟩ := h
  have hsetting : (⟨id, source.littleEndian⟩ : Setting) = r.memory.settingOf source := by
    have hinsert : r1.memory.Names (.origin source.origin _) := hmemory ▸
      Memory.names_of_insert (.insertOrigin source.origin source.littleEndian) rfl rfl
    have hsame := Option.some.inj (Eq.trans hid.symm hinsert)
    rw [hsame]
    rfl
  let walking : Log.Event := .walking source.topLevel.length source.littleEndian
  have hnote : note walking r1 = .ok () (r1.withLog (r1.log.push walking)) := rfl
  have h2 : Recalls (r1.withLog (r1.log.push walking)) := h1.congr rfl rfl rfl
  rw [bind_of_ok hnote, hsetting]
  have hwrite := writeResolutions_struck only source.origin (r.memory.settingOf source) h2
    (endsAtFailure_surveyFrom source source.topLevel {})
  rw [show (r1.withLog (r1.log.push walking)).memory = r.memory.enterOrigin source from hmemory]
    at hwrite
  refine ends_bind (hwrite.mono (fun failure r3 h => ?_) fun _ _ h => .inr h)
  refine ends_bind ((ask_served _ rfl r3).mono (fun _ t hcommit => ?_) fun _ t hcommit => ?_)
  · have hmemory3 : t.memory = r3.memory := eq_snd_of_ok hcommit.2
    rw [← hmemory3] at h
    cases failure with
    | none => exact h.resolve_right fun h => h.1 rfl
    | some e => exact .inr (h.imp_right And.right)
  · rw [← hcommit.2.1] at h
    exact .inr (h.imp_right And.right)

end LayoutGraph
