-- The law of taken keys: of all inserts of a pass only that of an axis lets a
-- taken key out. Every other row is had in spite of its taken key, or the pass
-- fails because the row that took the key is nowhere to be found.
import LayoutGraph.Proofs.Ledger.Pass
import LayoutGraph.Proofs.Retry

namespace LayoutGraph

open Chain Recording

/-! ## Stores that report taken keys -/

/-- Requests that add a row. -/
def Method.adds : Method → Bool
  | .insertOrigin | .insertSymbol | .insertField | .insertDimension | .insertEnumerator => true
  | _ => false

/-- Only a request that adds a row reports a taken key as a failure. -/
def ConflictsOnAdding (σ : Type) [Store σ] : Prop :=
  ∀ {α : Type} (request : Request α) (s t : σ) (entity key : String),
    Store.serve request s = .error (.conflict entity key) t → request.method.adds = true

/-- How a pass over a store can fail. -/
inductive Escapes (σ : Type) [Store σ] : Failure → Prop
  /-- A reference of the source leads to no entry or too far. -/
  | reference {e : Failure} : Survey.OfReference e → Escapes σ e
  /-- The store fails, and not for a taken key. -/
  | reported {α : Type} {request : Request α} {s t : σ} {e : Failure} :
    Store.serve request s = .error e t → (∀ entity key, e ≠ .conflict entity key) → Escapes σ e
  /-- The row that has a taken key cannot be found. -/
  | lost (entity key : String) : Escapes σ (.store (.lostRow entity key))
  /-- The insert of an axis fails for whatever reason. -/
  | axis {list : ListId} {order extent : Nat} {s t : σ} {e : Failure} :
    Store.serve (.insertDimension list order extent) s = .error e t → Escapes σ e

variable {σ : Type} [Store σ]

/-! ## Rows -/

/-- A request that adds no row. -/
theorem fails_ask (contract : ConflictsOnAdding σ) {α : Type} {request : Request α}
    (plain : request.method.adds = false) :
    Fails (Escapes σ) (ask request : Recording σ α) := by
  intro r e t h
  refine .reported (ask_error h) ?_
  rintro entity key rfl
  have hadds := contract request _ _ _ _ (ask_error h)
  rw [plain] at hadds
  cases hadds

theorem fails_note (event : Log.Event) : Fails (Escapes σ) (note event : Recording σ Unit) :=
  fails_modify _

theorem fails_count (f : Tally → Tally) : Fails (Escapes σ) (count f : Recording σ Unit) :=
  fails_modify _

/-- A taken key is recovered from, or its row is lost. -/
theorem fails_recover {ι : Type} {taken : TakenKey} {raw : ι → Int}
    {insert : Request (Inserted ι)} {again : Recording σ (Option ι)}
    (hagain : Fails (Escapes σ) again) :
    Fails (Escapes σ) (recover taken raw (ask insert) again) := by
  intro r e t h
  unfold recover at h
  split at h
  · cases h
  · cases h
  · rename_i m _
    refine fails_bind hagain (fun found => ?_) m e t h
    cases found with
    | some id =>
      exact fails_bind (fails_count _) fun _ => fails_bind (fails_note _) fun _ => fails_pure _
    | none => exact fails_throw (.lost taken.entity taken.key)
  · rename_i d m other hask
    cases h
    exact .reported (ask_error hask) fun entity key hconflict => other entity key hconflict

theorem fails_findSymbol (contract : ConflictsOnAdding σ) (key : SymbolKey) :
    Fails (Escapes σ) (findSymbol key : Recording σ (Option SymbolId)) := by
  unfold findSymbol
  refine fails_bind fails_get fun r => ?_
  split
  · exact fails_pure _
  apply fails_bind (fails_ask contract rfl)
  intro found
  split
  · exact fails_bind (fails_modify _) fun _ => fails_pure _
  · exact fails_pure _

theorem fails_findField (contract : ConflictsOnAdding σ) (key : FieldKey) :
    Fails (Escapes σ) (findField key : Recording σ (Option FieldId)) := by
  unfold findField
  refine fails_bind fails_get fun r => ?_
  split
  · exact fails_pure _
  apply fails_bind (fails_ask contract rfl)
  intro found
  split
  · exact fails_bind (fails_modify _) fun _ => fails_pure _
  · exact fails_pure _

theorem fails_origin (contract : ConflictsOnAdding σ) (name : String) (littleEndian : Bool) :
    Fails (Escapes σ) (origin name littleEndian : Recording σ OriginId) := by
  unfold origin
  apply fails_bind (fails_ask contract rfl)
  intro found
  split
  · exact fails_bind (fails_note _) fun _ => fails_pure _
  · exact fails_bind (fails_recover (fails_ask contract rfl)) fun _ => fails_pure _

theorem fails_symbol (contract : ConflictsOnAdding σ) (row : NewSymbol) :
    Fails (Escapes σ) (symbol row : Recording σ (Inserted SymbolId)) := by
  unfold symbol
  apply fails_bind (fails_findSymbol contract row.key)
  intro found
  split
  · exact fails_bind (fails_count _) fun _ => fails_bind (fails_note _) fun _ => fails_pure _
  apply fails_bind (fails_recover (fails_ask contract rfl))
  intro inserted
  refine fails_bind (fails_modify _) fun _ => ?_
  split
  · exact fails_bind (fails_count _) fun _ => fails_bind (fails_note _) fun _ => fails_pure _
  · exact fails_bind (fails_count _) fun _ => fails_pure _

theorem fails_field (contract : ConflictsOnAdding σ) (row : NewField) :
    Fails (Escapes σ) (field row : Recording σ (Inserted FieldId)) := by
  unfold field
  apply fails_bind (fails_findField contract row.key)
  intro found
  split
  · exact fails_bind (fails_count _) fun _ => fails_pure _
  apply fails_bind (fails_recover (fails_ask contract rfl))
  intro inserted
  refine fails_bind (fails_modify _) fun _ => ?_
  split
  · exact fails_bind (fails_count _) fun _ => fails_bind (fails_note _) fun _ => fails_pure _
  · exact fails_bind (fails_count _) fun _ => fails_pure _

/-- The key of a constant is passed over where it is taken. -/
theorem fails_enumerator (owner : SymbolId) (name : String) (value : Int) :
    Fails (Escapes σ) (enumerator owner name value : Recording σ Unit) := by
  intro r e t h
  unfold enumerator at h
  split at h
  · cases h
  · cases h
  · cases h
  · rename_i d m other hask
    cases h
    exact .reported (ask_error hask) fun entity key hconflict => other entity key hconflict

/-! ## Steps -/

theorem fails_symbolId (contract : ConflictsOnAdding σ) (setting : Setting) (key : SymbolKey) :
    Fails (Escapes σ) (symbolId setting key : Recording σ SymbolId) := by
  unfold symbolId
  refine fails_bind fails_get fun r => ?_
  split
  · exact fails_pure _
  · exact fails_bind (fails_symbol contract _) fun _ => fails_pure _

theorem fails_listFor (contract : ConflictsOnAdding σ) (extents : List Nat) :
    Fails (Escapes σ) (listFor extents : Recording σ (Option ListId)) := by
  unfold listFor
  split
  · exact fails_pure _
  · exact fails_bind (fails_ask contract rfl) fun _ => fails_pure _

/-- The key of an axis is let out where it is taken. -/
theorem fails_writeDimensions (list : ListId) (extents : List Nat) :
    Fails (Escapes σ) (writeDimensions list extents : Recording σ Unit) := by
  unfold writeDimensions
  apply fails_forM
  intro axis
  exact fails_bind (fun _ _ _ h => .axis (ask_error h)) fun _ => fails_pure _

theorem fails_writeField (contract : ConflictsOnAdding σ) (setting : Setting)
    (step : Survey.FieldStep) :
    Fails (Escapes σ) (writeField setting step : Recording σ Unit) := by
  unfold writeField
  apply fails_bind (fails_symbolId contract setting step.owner)
  intro owner
  apply fails_bind (fails_symbolId contract setting step.type)
  intro type
  apply fails_bind (fails_listFor contract step.extents)
  intro dimensions
  apply fails_bind (fails_field contract _)
  intro inserted
  split
  · exact fails_writeDimensions _ _
  · exact fails_pure _

theorem fails_writeStep (contract : ConflictsOnAdding σ) (setting : Setting) (step : Survey.Step) :
    Fails (Escapes σ) (writeStep setting step : Recording σ Unit) := by
  cases step with
  | visit entry name => exact fails_note _
  | symbol key => exact fails_bind (fails_symbol contract _) fun _ => fails_pure _
  | field step => exact fails_writeField contract setting step
  | enumerator key constant =>
    exact fails_bind (fails_symbolId contract setting key) fun _ => fails_enumerator _ _ _

/-! ## Passes -/

theorem fails_writeResolution (contract : ConflictsOnAdding σ) (setting : Setting)
    {one : Survey.Resolution} (hone : ∀ e, one.failure = some e → Survey.OfReference e) :
    Fails (Escapes σ) (Pass.writeResolution setting one : Recording σ Unit) := by
  unfold Pass.writeResolution writeSteps
  apply fails_bind (fails_forM (fails_writeStep contract setting) _)
  intro _
  cases hfailure : one.failure with
  | some e => exact fails_throw (.reference (hone e hfailure))
  | none => exact fails_pure _

/-- The failure that ends the resolutions is one of these, whether it is handled or not. -/
theorem writeResolutions_escapes (contract : ConflictsOnAdding σ) (name : String)
    (setting : Setting) (rs : List Survey.Resolution)
    (hrs : ∀ one ∈ rs, ∀ e, one.failure = some e → Survey.OfReference e) (r : Recorder σ) :
    Ends (fun failure _ => ∀ e, failure = some e → Escapes σ e) (fun e _ => Escapes σ e)
      (Pass.writeResolutions name setting rs r) := by
  induction rs generalizing r with
  | nil => exact nofun
  | cons one rest ih =>
    unfold Pass.writeResolutions
    cases hone : Pass.writeResolution setting one r with
    | ok u t => exact ih (fun other hother => hrs other (List.mem_cons_of_mem _ hother)) t
    | error e t =>
      have he : Escapes σ e :=
        fails_writeResolution contract setting (hrs one List.mem_cons_self) r e t hone
      dsimp only
      split
      · intro d hd
        cases hd
        exact he
      · exact he

theorem fails_write (contract : ConflictsOnAdding σ) (source : Source) :
    Fails (Escapes σ) (Pass.write source : Recording σ Unit) := by
  intro r e t h
  unfold Pass.write at h
  rcases bind_error_iff.mp h with h | ⟨id, r1, -, h⟩
  · exact fails_origin contract _ _ r e t h
  rcases bind_error_iff.mp h with h | ⟨_, r2, -, h⟩
  · cases h
  have hwrite := writeResolutions_escapes contract source.origin ⟨id, source.littleEndian⟩
    (Survey.survey source).resolutions
    (fun one hone d hd => Survey.surveyFrom_failure source _ _ hone hd) r2
  rcases bind_error_iff.mp h with h | ⟨failure, r3, hfailure, h⟩
  · rw [h] at hwrite
    exact hwrite
  rw [hfailure] at hwrite
  rcases bind_error_iff.mp h with h | ⟨_, r4, -, h⟩
  · exact fails_ask contract rfl r3 e t h
  cases failure with
  | some d =>
    cases h
    exact hwrite e rfl
  | none => cases h

/-- On a store that reports taken keys only where rows are added, a pass that fails does so for a
reference of its source, for a failure of the store that is no taken key, for a row that took a key
and is not to be found, or for an axis that could not be inserted. So unless the insert of an axis
reports a taken key, no taken key is ever the failure of a pass. -/
theorem only_an_axis_lets_a_taken_key_out (contract : ConflictsOnAdding σ) (source : Source) (s : σ)
    {report : Report} {session : Session}
    (ends : (Session.parse source s).1 = .ok (report, session)) {e : Failure}
    (fails : report.failure = some e) :
    Escapes σ e ∧
      ((∀ list order extent (t u : σ) entity key,
          Store.serve (.insertDimension list order extent) t ≠ .error (.conflict entity key) u) →
        ∀ entity key, e ≠ .conflict entity key) := by
  have escapes : Escapes σ e := by
    unfold Session.parse at ends
    cases hwrite : Pass.write source { store := s } with
    | ok u t =>
      rw [hwrite] at ends
      cases ends
      cases fails
    | error d t =>
      rw [hwrite] at ends
      dsimp only at ends
      split at ends
      · cases ends
        cases fails
        exact fails_write contract source _ _ _ hwrite
      · cases ends
  refine ⟨escapes, fun axes entity key => ?_⟩
  rintro rfl
  cases escapes with
  | reference h => cases h
  | reported _ plain => exact plain entity key rfl
  | axis h => exact axes _ _ _ _ _ _ _ h

/-- A store in memory that is struck only where rows are added. -/
theorem conflictsOnAdding_scheduled {faults : Nat → Method → Option FaultMode}
    (only : ∀ call method fault, faults call method = some fault → method.adds = true) :
    ConflictsOnAdding (Scheduled faults) := by
  intro α request s t entity key h
  have ends := Unreliable.serve_ends request s
  rw [h] at ends
  rcases ends.2 with hanswer | ⟨fault, hmode, -⟩
  · cases Memory.answer_error hanswer
  · exact only _ _ _ hmode

/-- Each field meets a taken key. -/
def clashing : Nat → Method → Option FaultMode := fun _ method =>
  if method = .insertField then some .conflict else none

/-- The field of the grid meets a taken key, and there is no row that took it. -/
theorem a_clashing_pass_over_the_grid_loses_its_field :
    ∃ report session e, (Session.parse grid ({} : Scheduled clashing)).1 = .ok (report, session) ∧
      report.failure = some e ∧ Escapes (Scheduled clashing) e ∧
      ∀ entity key, e ≠ .conflict entity key := by
  have only : ∀ call method fault, clashing call method = some fault → method = .insertField := by
    intro call method fault h
    unfold clashing at h
    split at h
    · assumption
    · cases h
  have contract : ConflictsOnAdding (Scheduled clashing) :=
    conflictsOnAdding_scheduled fun call method fault h => by rw [only call method fault h]; rfl
  have axes : ∀ list order extent (t u : Scheduled clashing) entity key,
      Store.serve (.insertDimension list order extent) t ≠ .error (.conflict entity key) u := by
    intro list order extent t u entity key h
    have ends := Unreliable.serve_ends (.insertDimension list order extent) t
    rw [h] at ends
    rcases ends.2 with hanswer | ⟨fault, hmode, -⟩
    · cases Memory.answer_error hanswer
    · cases only _ _ _ hmode
  have failed : ((Session.parse grid ({} : Scheduled clashing)).1.toOption.bind
      fun reply => reply.1.failure).isSome = true := by decide +kernel
  cases ends : (Session.parse grid ({} : Scheduled clashing)).1 with
  | error d =>
    rw [ends] at failed
    cases failed
  | ok reply =>
    rw [ends] at failed
    obtain ⟨e, fails⟩ := Option.isSome_iff_exists.mp failed
    obtain ⟨escapes, kept⟩ := only_an_axis_lets_a_taken_key_out contract grid _ ends fails
    exact ⟨reply.1, reply.2, e, rfl, fails, escapes, kept axes⟩

/-- The first axis meets a taken key. -/
def crowded : Nat → Method → Option FaultMode := fun _ method =>
  if method = .insertDimension then some .conflict else none

/-- The taken key of an axis is what the pass fails with, and no row of it was looked for. -/
theorem a_crowded_pass_over_the_grid_lets_a_taken_key_out :
    ConflictsOnAdding (Scheduled crowded) ∧
      (Session.parse grid ({} : Scheduled crowded)).1.toOption.bind (fun reply => reply.1.failure) =
        some (.conflict "injected" "insert_dimension") := by
  refine ⟨conflictsOnAdding_scheduled fun call method fault h => ?_, by decide +kernel⟩
  unfold crowded at h
  split at h
  · rename_i hmethod
    rw [hmethod]
    rfl
  · cases h

end LayoutGraph
