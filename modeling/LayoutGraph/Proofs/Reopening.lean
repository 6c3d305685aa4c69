-- The law of reopening: however often a database is closed and opened between
-- passes, no two array fields have one list, as long as the outermost axis of
-- each array can be stored. A field whose first axis is refused keeps a list
-- that the database forgets when it is closed, and gives to another field.
import LayoutGraph.Proofs.Absorb
import LayoutGraph.Proofs.Retry
import LayoutGraph.Proofs.Store.Lists

namespace LayoutGraph

open Chain Recording
open Database (OwnLists Fresh columnEnd leavesFields)

/-! ## Recorders on a database -/

/-- The store is a database with the property. -/
def OnDatabase (P : Database → Prop) (s : AnyStore) : Prop := ∃ db, s = .database db ∧ P db

variable {r : Recorder AnyStore} {db : Database}

/-- A request does to the database what its answer does, and a refusal changes nothing. -/
theorem ask_database (hdb : r.store = .database db) {α : Type} (request : Request α) :
    Ends (fun reply t => ∃ next, db.answer request = .ok (reply, next) ∧ t.store = .database next)
      (fun _ t => t.store = .database db) (ask request r) := by
  cases hask : ask request r with
  | ok reply t =>
    obtain ⟨hserve, -, -⟩ := ask_ok hask
    rw [hdb] at hserve
    obtain ⟨next, hnext, hstore⟩ := AnyStore.serve_database_ok.mp hserve
    exact ⟨next, ofStep_ok_iff.mp hnext, hstore⟩
  | error e t =>
    have hserve := ask_error hask
    rw [hdb] at hserve
    obtain ⟨next, hnext, hstore⟩ := AnyStore.serve_database_error.mp hserve
    obtain ⟨-, rfl⟩ := ofStep_error_iff.mp hnext
    exact hstore

theorem keeps_ask {P : Database → Prop} {α : Type} {request : Request α}
    (answer : ∀ {db next reply}, P db → db.answer request = .ok (reply, next) → P next) :
    Keeps (InStore (OnDatabase P)) (ask request) := by
  rintro r ⟨db, hdb, hP⟩
  refine Ends.left ((ask_database hdb request).mono ?_ ?_)
  · rintro reply t ⟨next, hnext, hstore⟩
    exact ⟨next, hstore, answer hP hnext⟩
  · intro e t hstore
    exact ⟨db, hstore, hP⟩

/-- A look-up of a field changes nothing of the database. -/
theorem findField_database (hdb : r.store = .database db) (key : FieldKey) :
    Ends (fun _ t => t.store = .database db) (fun _ t => t.store = .database db)
      (findField key r) := by
  have keeps : Keeps (InStore (OnDatabase (· = db))) (findField key) := by
    refine keeps_findField ?_ fun _ => Steady.modifyMemo _
    apply keeps_ask
    rintro _ next reply rfl h
    cases h
    rfl
  refine (keeps.ends ⟨db, hdb, rfl⟩).mono ?_ ?_
  · rintro _ t ⟨_, hstore, rfl⟩
    exact hstore
  · rintro _ t ⟨_, hstore, rfl⟩
    exact hstore

/-- A field that is created was inserted; otherwise the database is as before. -/
theorem field_database (hdb : r.store = .database db) (row : NewField) :
    Ends
      (fun inserted t => match inserted with
        | .existing _ => t.store = .database db
        | .created id => ∃ next, db.insertField row = .ok (.created id, next) ∧
          t.store = .database next)
      (fun _ t => t.store = .database db) (field row r) := by
  unfold field
  refine ends_bind ((findField_database hdb row.key).mono (fun found t ht => ?_) fun _ _ h => h)
  cases found with
  | some id => exact ht
  | none =>
    have hask := ask_database ht (.insertField row)
    refine ends_bind ?_
    unfold recover
    split <;> rename_i heq <;> rw [heq] at hask
    · exact hask
    · obtain ⟨next, hnext, hstore⟩ := hask
      obtain ⟨_, -, -, rfl⟩ | ⟨-, _, hcreated, -⟩ := Database.insertField_ok hnext
      · exact hstore
      · cases hcreated
    · exact absurd (ask_error heq) Faultless.noConflict
    · exact hask

/-! ## Steps -/

/-- The store is a database in which array fields have lists of their own. -/
def Owning (r : Recorder AnyStore) : Prop := InStore (OnDatabase (OwnLists none)) r

theorem keeps_owning {α : Type} {request : Request α}
    (leaves : leavesFields request.method = true) : Keeps Owning (ask request) :=
  keeps_ask fun own h => own.answer leaves h

theorem symbol_owning (row : NewSymbol) : Keeps Owning (symbol row) :=
  keeps_symbol (keeps_owning rfl) (keeps_owning rfl)

theorem symbolId_owning (setting : Setting) (key : SymbolKey) :
    Keeps Owning (symbolId setting key) := keeps_symbolId (symbol_owning _)

/-- A list is taken for an array alone, and it is a fresh one. -/
theorem listFor_owning (hr : Owning r) (extents : List Nat) :
    Ends
      (fun dimensions t => ∃ next, t.store = .database next ∧ OwnLists none next ∧
        ∀ list, dimensions = some list → extents ≠ [] ∧ Fresh list next)
      (fun _ t => Owning t) (listFor extents r) := by
  obtain ⟨db, hdb, own⟩ := hr
  unfold listFor
  split
  · exact ⟨db, hdb, own, nofun⟩
  · rename_i hextents
    refine ends_bind ((ask_database hdb .allocateList).mono ?_ fun _ _ h => ⟨db, h, own⟩)
    rintro list t ⟨next, hnext, hstore⟩
    obtain ⟨still, fresh⟩ := Database.allocateList_fresh own hnext
    refine ⟨next, hstore, still, fun other hother => ?_⟩
    cases hother
    exact ⟨fun h => hextents (by rw [h]; rfl), fresh⟩

/-- The axes end the wait of their list when the outermost one fits. -/
theorem writeDimensions_owning (hdb : r.store = .database db) {list : ListId}
    (own : OwnLists (some list) db) (mayWrite : db.mayWrite = true) {extent : Nat}
    (fits : extent < columnEnd) (inner : List Nat) :
    Ends (fun _ => Owning) (fun _ => Owning) (writeDimensions list (extent :: inner) r) := by
  obtain ⟨reply, next, hnext⟩ := Database.insertDimension_of_fits fits mayWrite list 0
  have hserve : Store.serve (.insertDimension list 0 extent) r.store =
      .ok reply (.database next) := by
    rw [hdb]
    exact AnyStore.serve_database_ok.mpr ⟨next, ofStep_ok_iff.mpr hnext, rfl⟩
  have inside : Keeps Owning ((inner.zipIdx 1).forM fun axis => do
      let _ ← ask (.insertDimension list axis.2 axis.1)) :=
    keeps_forM (fun _ => keeps_bind (keeps_owning rfl) fun _ => keeps_pure _) _
  refine ends_bind (ends_bind ?_)
  rw [ask_of_ok hserve]
  exact inside.ends ⟨next, rfl, own.insertDimension hnext⟩

/-- The outermost axis of an array field can be stored. -/
def Survey.Step.AxisFits : Survey.Step → Prop
  | .field step => step.extents.headD 0 < columnEnd
  | _ => True

instance : DecidablePred Survey.Step.AxisFits
  | .field step => inferInstanceAs (Decidable (step.extents.headD 0 < columnEnd))
  | .visit .. | .symbol _ | .enumerator .. => isTrue trivial

/-- Between the row of an array field and the row of its outermost axis its list is not kept. No
database is closed there, and where the axis fits the step does not end there. -/
theorem writeField_owning (hr : Owning r) (setting : Setting) {step : Survey.FieldStep}
    (fits : (Survey.Step.field step).AxisFits) :
    Ends (fun _ => Owning) (fun _ => Owning) (writeField setting step r) := by
  unfold writeField
  refine ends_bind (((symbolId_owning setting step.owner).ends hr).mono ?_ fun _ _ h => h)
  intro owner r1 h1
  refine ends_bind (((symbolId_owning setting step.type).ends h1).mono ?_ fun _ _ h => h)
  intro type r2 h2
  refine ends_bind ((listFor_owning h2 step.extents).mono ?_ fun _ _ h => h)
  rintro dimensions r3 ⟨db, hdb, own, fresh⟩
  refine ends_bind ((field_database hdb _).mono ?_ fun _ _ h => ⟨db, h, own⟩)
  intro inserted r4 h4
  cases inserted with
  | existing id => exact ⟨db, h4, own⟩
  | created id =>
    obtain ⟨next, hinsert, hstore⟩ := h4
    obtain ⟨waits, mayWrite⟩ := own.insertField (fun list hlist => (fresh list hlist).2) hinsert
    cases dimensions with
    | none => exact ⟨next, hstore, waits⟩
    | some list =>
      cases hextents : step.extents with
      | nil => exact absurd hextents (fresh list rfl).1
      | cons extent inner =>
        have hfits : extent < columnEnd := by simpa [Survey.Step.AxisFits, hextents] using fits
        exact writeDimensions_owning hstore waits mayWrite hfits inner

theorem writeStep_owning (hr : Owning r) (setting : Setting) {step : Survey.Step}
    (fits : step.AxisFits) :
    Ends (fun _ => Owning) (fun _ => Owning) (writeStep setting step r) := by
  cases step with
  | visit entry name => exact hr
  | symbol key => exact (keeps_bind (symbol_owning _) fun _ => keeps_pure _).ends hr
  | field step => exact writeField_owning hr setting fits
  | enumerator key constant =>
    have keeps : Keeps Owning (writeStep setting (.enumerator key constant)) :=
      keeps_bind (symbolId_owning setting key) fun _ => keeps_enumerator (keeps_owning rfl)
    exact keeps.ends hr

theorem writeSteps_owning (hr : Owning r) (setting : Setting) {steps : List Survey.Step}
    (fit : ∀ step ∈ steps, step.AxisFits) :
    Ends (fun _ => Owning) (fun _ => Owning) (writeSteps setting steps r) := by
  induction steps generalizing r with
  | nil => exact hr
  | cons step rest ih =>
    refine ends_bind ((writeStep_owning hr setting (fit step List.mem_cons_self)).mono ?_
      fun _ _ h => h)
    intro _ t ht
    exact ih ht fun other hother => fit other (List.mem_cons_of_mem _ hother)

/-! ## Passes -/

theorem writeResolutions_owning (hr : Owning r) (name : String) (setting : Setting)
    {rs : List Survey.Resolution} (fit : ∀ step ∈ Survey.stepsOf rs, step.AxisFits) :
    Ends (fun _ => Owning) (fun _ => Owning) (Pass.writeResolutions name setting rs r) := by
  induction rs generalizing r with
  | nil => exact hr
  | cons one rest ih =>
    rw [Survey.stepsOf_cons] at fit
    have hone : Ends (fun _ => Owning) (fun _ => Owning) (Pass.writeResolution setting one r) := by
      unfold Pass.writeResolution
      refine ends_bind ((writeSteps_owning hr setting fun step hstep =>
        fit step (List.mem_append_left _ hstep)).mono (fun _ t ht => ?_) fun _ _ h => h)
      cases one.failure <;> exact ht
    unfold Pass.writeResolutions
    cases heq : Pass.writeResolution setting one r <;> rw [heq] at hone
    · exact ih hone fun step hstep => fit step (List.mem_append_right _ hstep)
    · dsimp only
      split <;> exact hone

theorem write_owning (hr : Owning r) {source : Source}
    (fit : ∀ step ∈ source.steps, step.AxisFits) :
    Ends (fun _ => Owning) (fun _ => Owning) (Pass.write source r) := by
  have horigin : Keeps Owning (origin source.origin source.littleEndian) :=
    keeps_origin (keeps_owning rfl) (keeps_owning rfl)
  have hcommit : Keeps Owning (ask .commit) := keeps_owning rfl
  unfold Pass.write
  refine ends_bind ((horigin.ends hr).mono (fun id r1 h1 => ?_) fun _ _ h => h)
  refine ends_bind (((Steady.note _).ends h1).mono (fun _ r2 h2 => ?_) fun _ _ h => h)
  refine ends_bind ((writeResolutions_owning h2 _ _ fit).mono (fun failure r3 h3 => ?_)
    fun _ _ h => h)
  refine ends_bind ((hcommit.ends h3).mono (fun _ r4 h4 => ?_) fun _ _ h => h)
  cases failure <;> exact h4

theorem parse_owning {s : AnyStore} (hs : OnDatabase (OwnLists none) s) {source : Source}
    (fit : ∀ step ∈ source.steps, step.AxisFits) :
    OnDatabase (OwnLists none) (Session.parse source s).2 := by
  rw [Session.parse_store]
  exact (write_owning (r := { store := s }) hs fit).left

/-! ## Histories -/

/-- A pass over a source whose outermost axes fit, or a database that is closed and opened. -/
inductive PassOrReopen : Action → Prop
  | parse {source : Source} : (∀ step ∈ source.steps, step.AxisFits) → PassOrReopen (.parse source)
  | reopen : PassOrReopen .reopen

theorem after_owning {s : AnyStore} (hs : OnDatabase (OwnLists none) s) {history : List Action}
    (all : ∀ action ∈ history, PassOrReopen action) :
    OnDatabase (OwnLists none) (s.after history) := by
  induction history generalizing s with
  | nil => exact hs
  | cons action rest ih =>
    have first : OnDatabase (OwnLists none) (s.act action) := by
      cases all action List.mem_cons_self with
      | parse fit => exact parse_owning hs fit
      | reopen =>
        obtain ⟨db, rfl, own⟩ := hs
        exact ⟨db.reopen, rfl, own.reopen⟩
    exact ih first fun other hother => all other (List.mem_cons_of_mem _ hother)

/-- After passes over sources whose outermost axes fit, each with any outcome, and with the database
closed and opened anywhere between them, no two array fields have one list, so no axis is shown
for two fields. -/
theorem no_two_array_fields_share_a_list {history : List Action}
    (all : ∀ action ∈ history, PassOrReopen action) :
    let g := ((AnyStore.database {}).after history).graph
    g.fieldLists.Nodup ∧
      ∀ f ∈ g.fields, ∀ f' ∈ g.fields, ∀ list list' d, f.dimensions = some list →
        f'.dimensions = some list' → d ∈ g.dimensionsOf list → d ∈ g.dimensionsOf list' →
        f = f' := by
  intro g
  obtain ⟨db, hdb, own⟩ := after_owning ⟨{}, rfl, Database.ownLists_empty⟩ all
  have once : g.fieldLists.Nodup := by
    have hgraph : g = db.graph := congrArg AnyStore.graph hdb
    rw [hgraph]
    exact own.once
  refine ⟨once, fun f hf f' hf' list list' d hlist hlist' hd hd' => ?_⟩
  have hsame : list = list' := (Graph.list_of_mem_dimensionsOf hd).symm.trans
    (Graph.list_of_mem_dimensionsOf hd')
  subst hsame
  exact Graph.eq_of_list once hf hf' hlist hlist'

/-- The grid has its own list after the ring, before and behind two reopenings. -/
theorem a_ring_and_a_grid_have_their_own_lists :
    let history : List Action := [.parse ring, .reopen, .parse grid, .reopen, .parse ring]
    let g := ((AnyStore.database {}).after history).graph
    (∀ action ∈ history, PassOrReopen action) ∧ g.fieldLists = [⟨1⟩, ⟨2⟩] ∧ g.fieldLists.Nodup := by
  intro history g
  have lists : g.fieldLists = [⟨1⟩, ⟨2⟩] := by
    unfold g history
    decide +kernel
  have fit_ring : ∀ step ∈ ring.steps, step.AxisFits := by decide +kernel
  have fit_grid : ∀ step ∈ grid.steps, step.AxisFits := by decide +kernel
  have all : ∀ action ∈ history, PassOrReopen action := by
    simp only [history, List.forall_mem_cons]
    exact ⟨.parse fit_ring, .reopen, .parse fit_grid, .reopen, .parse fit_ring, nofun⟩
  exact ⟨all, lists, (no_two_array_fields_share_a_list all).1⟩

/-- A struct with an array whose extent does not fit. -/
def vast : Source where
  origin := "vast.o"
  littleEndian := true
  topLevel := [⟨3⟩]
  find? id :=
    if id = ⟨1⟩ then some ⟨id, some "int", some 4, .base⟩
    else if id = ⟨2⟩ then some ⟨id, none, none, .array ⟨1⟩ [columnEnd]⟩
    else if id = ⟨3⟩ then some ⟨id, some "Vast", some 8, .compound .struct
      [⟨some "cells", 0, ⟨2⟩, none, none⟩] false⟩
    else none

/-- The axis of the vast array is refused after its field was stored. The database is opened again,
the list of that field is given to the grid, and the axes of the grid are shown for both. -/
theorem a_vast_array_is_shown_with_the_axes_of_the_grid :
    let g := ((AnyStore.database {}).after [.parse vast, .reopen, .parse grid]).graph
    g.fieldLists = [⟨1⟩, ⟨1⟩] ∧ ¬ g.fieldLists.Nodup ∧
      g.dimensions.map (fun d => (d.list, d.extent)) = [(⟨1⟩, 3), (⟨1⟩, 2)] := by
  decide +kernel

end LayoutGraph
