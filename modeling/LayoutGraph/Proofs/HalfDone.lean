-- Changes that fail. All of a remap or an override is looked up and checked
-- before anything is written, and a change ends with its first call that fails.
-- So a request that is refused, a look-up that fails and a first write that
-- fails leave the rows alone. Nothing takes back a write: a change can be half
-- done where a write was served before the call that failed.
import LayoutGraph.Proofs.Change.Traced
import LayoutGraph.Proofs.Keep
import LayoutGraph.Proofs.Store.Erring

namespace LayoutGraph

open Chain Recording

/-- A request that only asks for rows by their names or ids. -/
def Method.looksUp : Method → Bool
  | .symbolsNamed | .findField | .fieldById | .symbolById => true
  | _ => false

/-! ## Changes and their calls -/

namespace Change

/-- A change of what is stored. -/
inductive Edit
  | remap (mappings : List Mapping)
  | override (requests : List Override)

namespace Edit

/-- Makes the change. -/
def perform {σ : Type} [Store σ] : Edit → Recording σ Unit
  | .remap mappings => do let _ ← Change.remap mappings
  | .override requests => do let _ ← Change.override requests

/-- The calls that the change makes of a store, the earliest first. -/
def calls {σ : Type} [Store σ] (edit : Edit) (s : σ) : List Call :=
  (left (edit.perform { store := ({ store := s } : Traced σ) })).store.calls

/-- The methods by which a change is carried out when all of it is checked. -/
def carriesOut : Edit → Method → Bool
  | .remap _, .retargetFields | .remap _, .commit => true
  | .override _, .findSymbol | .override _, .insertSymbol | .override _, .insertEnumerator => true
  | .override _, .setFieldType | .override _, .commit => true
  | _, _ => false

/-- The calls of a change that fails. -/
inductive Stops (edit : Edit) : List Call → Prop
  /-- Its last look-up failed, or the change was refused for what was found. -/
  | checking {looks : List Call} : (∀ c ∈ looks, c.method.looksUp = true) →
    (∀ c ∈ looks.dropLast, c.served = true) → Stops edit looks
  /-- All of it was checked, and the last call by which it was carried out failed. -/
  | carrying {looks done : List Call} {failed : Call} :
    (∀ c ∈ looks, c.method.looksUp = true ∧ c.served = true) →
    (∀ c ∈ done, edit.carriesOut c.method = true ∧ c.served = true) →
    edit.carriesOut failed.method = true → failed.served = false →
    Stops edit (looks ++ done ++ [failed])

/-- The calls of the change that failed are as such calls go. -/
def Stopped (edit : Edit) (r : Recorder (Traced (Faulty AnyStore))) : Prop :=
  edit.Stops r.store.calls

end Edit

end Change

open Change

theorem Erases.perform {σ : Type} [Store σ] (edit : Edit) :
    Erases (edit.perform : Recording (Traced σ) Unit) edit.perform := by
  cases edit with
  | remap mappings => exact (Erases.remap mappings).bind fun _ => .pure _
  | override requests => exact (Erases.override requests).bind fun _ => .pure _

theorem Steady.perform {σ : Type} [Store σ] {P : σ → Prop} (hP : Steady P) (edit : Edit) :
    Keeps (InStore P) (edit.perform : Recording σ Unit) := by
  cases edit with
  | remap mappings => exact keeps_bind (hP.remap mappings) fun _ => keeps_pure _
  | override requests => exact keeps_bind (hP.override requests) fun _ => keeps_pure _

/-! ## Calls -/

/-- One call of a store whose planned faults are errors, with what is recorded of it. No call reports
a taken key. -/
theorem Faulty.ErrorsOnly.serve_traced {s : Traced (Faulty AnyStore)} (h : s.store.ErrorsOnly)
    {α : Type} (request : Request α) :
    Ends
      (fun reply t => t.store.ErrorsOnly ∧
        Store.serve request s.store.store = .ok reply t.store.store ∧
        t.calls = s.calls ++ [⟨request.method, true⟩])
      (fun e t => t.store.ErrorsOnly ∧ t.store.store = s.store.store ∧
        t.calls = s.calls ++ [⟨request.method, false⟩] ∧ ∀ entity key, e ≠ .conflict entity key)
      (Store.serve request s) := by
  have hserve := h.serve request
  simp only [Store.serve] at hserve ⊢
  cases heq : Faulty.serve request s.store with
  | ok reply t =>
    rw [heq] at hserve
    exact ⟨hserve.1, hserve.2, rfl⟩
  | error e t =>
    rw [heq] at hserve
    exact ⟨hserve.1, hserve.2.1, rfl, hserve.2.2⟩

theorem ask_traced {α : Type} (request : Request α) {r : Recorder (Traced (Faulty AnyStore))}
    (h : r.store.store.ErrorsOnly) :
    Ends
      (fun reply t => t.store.store.ErrorsOnly ∧
        Store.serve request r.store.store.store = .ok reply t.store.store.store ∧
        t.store.calls = r.store.calls ++ [⟨request.method, true⟩])
      (fun e t => t.store.calls = r.store.calls ++ [⟨request.method, false⟩] ∧
        ∀ entity key, e ≠ .conflict entity key)
      (ask request r) := by
  have hserve := h.serve_traced request
  unfold ask
  cases heq : Store.serve request r.store with
  | ok reply t =>
    rw [heq] at hserve
    exact hserve
  | error e t =>
    rw [heq] at hserve
    exact hserve.2.2

/-! ## Rows without a write -/

/-- The rows are as they were, as long as no write was served. -/
structure Unwritten (g : Graph) (s : Traced (Faulty AnyStore)) : Prop where
  errors : s.store.ErrorsOnly
  same : (∀ c ∈ s.calls, c.wrote = false) → s.store.store.graph = g

theorem steady_unwritten (g : Graph) : Steady (Unwritten g) where
  serve request s h := by
    apply Ends.left
    apply (h.errors.serve_traced request).mono
    · rintro reply t ⟨herrors, hserve, hcalls⟩
      refine ⟨herrors, fun none => ?_⟩
      rw [hcalls] at none
      have reads : request.method.writes = false := by
        simpa [Call.wrote] using none ⟨request.method, true⟩ (by simp)
      rw [AnyStore.graph_served hserve reads]
      exact h.same fun c hc => none c (List.mem_append_left _ hc)
    · rintro e t ⟨herrors, hstore, hcalls, -⟩
      refine ⟨herrors, fun none => ?_⟩
      rw [hcalls] at none
      rw [hstore]
      exact h.same fun c hc => none c (List.mem_append_left _ hc)

/-! ## Checking -/

/-- The change has made look-ups alone so far, and all of them were served. -/
structure Checking (g : Graph) (s : Traced (Faulty AnyStore)) : Prop where
  errors : s.store.ErrorsOnly
  rows : s.store.store.graph = g
  looks : ∀ c ∈ s.calls, c.method.looksUp = true ∧ c.served = true

section

variable {edit : Edit} {g : Graph} {r : Recorder (Traced (Faulty AnyStore))}

/-- A change may be refused while it is checked. -/
theorem stopped_of_checking (h : InStore (Checking g) r) : edit.Stopped r := by
  apply Edit.Stops.checking
  · intro c hc
    exact (h.looks c hc).1
  · intro c hc
    exact (h.looks c (List.dropLast_subset _ hc)).2

variable (edit) in
theorem ask_checking {α : Type} (request : Request α) (looks : request.method.looksUp = true)
    (h : InStore (Checking g) r) :
    Ends
      (fun reply t => InStore (Checking g) t ∧
        Store.serve request r.store.store.store = .ok reply t.store.store.store)
      (fun _ => edit.Stopped) (ask request r) := by
  have reads : request.method.writes = false := by
    cases hmethod : request.method <;> rw [hmethod] at looks <;> first | rfl | cases looks
  apply (ask_traced request h.errors).mono
  · rintro reply t ⟨herrors, hserve, hcalls⟩
    refine ⟨⟨herrors, (AnyStore.graph_served hserve reads).trans h.rows, ?_⟩, hserve⟩
    rw [hcalls]
    intro c hc
    rcases List.mem_append.mp hc with hc | hc
    · exact h.looks c hc
    · cases List.mem_singleton.mp hc
      exact ⟨looks, rfl⟩
  · rintro e t ⟨hcalls, -⟩
    unfold Edit.Stopped
    rw [hcalls]
    apply Edit.Stops.checking
    · intro c hc
      rcases List.mem_append.mp hc with hc | hc
      · exact (h.looks c hc).1
      · cases List.mem_singleton.mp hc
        exact looks
    · intro c hc
      rw [List.dropLast_concat] at hc
      exact (h.looks c hc).2

theorem goes_checking {α : Type} (request : Request α) (looks : request.method.looksUp = true) :
    Goes (InStore (Checking g)) edit.Stopped (ask request) := fun _ h =>
  (ask_checking edit request looks h).mono (fun _ _ ok => ok.1) fun _ _ failed => failed

variable (edit)

/-- A field that is located is there. -/
theorem locate_ends (o : Override) (h : InStore (Checking g) r) :
    Ends (fun plan t => InStore (Checking g) t ∧ g.HasField plan.field.id)
      (fun _ => edit.Stopped) (locate o r) := by
  unfold locate
  refine ends_bind ((ask_checking edit _ rfl h).mono ?_ fun _ _ failed => failed)
  rintro owners r ⟨h, -⟩
  cases owners with
  | nil => exact stopped_of_checking h
  | cons owner _ =>
    refine ends_bind ((ask_checking edit _ rfl h).mono ?_ fun _ _ failed => failed)
    rintro found r ⟨h, -⟩
    cases found with
    | none => exact stopped_of_checking h
    | some id =>
      refine ends_bind ((ask_checking edit _ rfl h).mono ?_ fun _ _ failed => failed)
      rintro row t ⟨ht, hrow⟩
      cases row with
      | none => exact stopped_of_checking ht
      | some field =>
        have hfield : g.HasField field.id := by
          rw [AnyStore.serve_fieldById, h.rows] at hrow
          injection hrow with hfind
          exact Graph.hasField_of_find hfind
        refine ends_bind ((ask_checking edit _ rfl ht).mono ?_ fun _ _ failed => failed)
        rintro previous t ⟨ht, -⟩
        cases previous with
        | none => exact stopped_of_checking ht
        | some symbol => exact ⟨ht, hfield⟩

theorem planOverride_ends (seen : List (String × String)) (o : Override)
    (h : InStore (Checking g) r) :
    Ends (fun plan t => InStore (Checking g) t ∧ g.HasField plan.field.id)
      (fun _ => edit.Stopped) (planOverride seen o r) := by
  unfold planOverride
  dsimp only
  split
  · exact stopped_of_checking h
  cases replacementFault? o with
  | some fault => exact stopped_of_checking h
  | none => exact locate_ends edit o h

theorem planOverrides_ends (seen : List (String × String)) (os : List Override)
    (h : InStore (Checking g) r) :
    Ends (fun plans t => InStore (Checking g) t ∧ ∀ plan ∈ plans, g.HasField plan.field.id)
      (fun _ => edit.Stopped) (planOverrides seen os r) := by
  induction os generalizing seen r with
  | nil =>
    unfold planOverrides
    exact ⟨h, fun _ hplan => nomatch hplan⟩
  | cons o rest ih =>
    unfold planOverrides
    refine ends_bind ((planOverride_ends edit seen o h).mono ?_ fun _ _ failed => failed)
    rintro plan t ⟨ht, hplan⟩
    refine ends_bind ((ih _ ht).mono ?_ fun _ _ failed => failed)
    rintro plans t ⟨ht, hplans⟩
    exact ⟨ht, List.forall_mem_cons.mpr ⟨hplan, hplans⟩⟩

end

/-! ## Carrying out -/

/-- All of the change was checked, and all calls by which it was carried out so far were served. The
fields that it found are there. -/
structure Carrying (edit : Edit) (ids : List FieldId) (s : Traced (Faulty AnyStore)) : Prop where
  errors : s.store.ErrorsOnly
  standing : ∀ id ∈ ids, s.store.store.graph.HasField id
  calls : ∃ looks done, s.calls = looks ++ done ∧
    (∀ c ∈ looks, c.method.looksUp = true ∧ c.served = true) ∧
    ∀ c ∈ done, edit.carriesOut c.method = true ∧ c.served = true

theorem Checking.carrying {edit : Edit} {g : Graph} {ids : List FieldId}
    {s : Traced (Faulty AnyStore)} (h : Checking g s) (there : ∀ id ∈ ids, g.HasField id) :
    Carrying edit ids s where
  errors := h.errors
  standing id hid := h.rows ▸ there id hid
  calls := ⟨s.calls, [], by simp, h.looks, nofun⟩

/-- The work carries the change out; all fields are there before it and behind it. -/
def CarriesOut (edit : Edit) (ids : List FieldId) {α : Type}
    (x : Recording (Traced (Faulty AnyStore)) α) : Prop :=
  Goes (InStore (Carrying edit ids)) edit.Stopped x

section

variable {edit : Edit} {ids : List FieldId} {α : Type}

variable (edit) in
/-- One call of the change; it never reports a taken key. -/
theorem ask_carrying (request : Request α) (hmethod : edit.carriesOut request.method = true)
    {r : Recorder (Traced (Faulty AnyStore))} (h : InStore (Carrying edit ids) r) :
    Ends
      (fun reply t => InStore (Carrying edit ids) t ∧
        Store.serve request r.store.store.store = .ok reply t.store.store.store)
      (fun e t => edit.Stopped t ∧ ∀ entity key, e ≠ .conflict entity key)
      (ask request r) := by
  obtain ⟨looks, done, hsplit, hlooks, hdone⟩ := h.calls
  apply (ask_traced request h.errors).mono
  · rintro reply t ⟨herrors, hserve, hcalls⟩
    refine ⟨⟨herrors, ?_, looks, done ++ [⟨request.method, true⟩], ?_, hlooks, ?_⟩, hserve⟩
    · intro id hid
      exact AnyStore.hasField_served hserve (h.standing id hid)
    · rw [hcalls, hsplit, List.append_assoc]
    · intro c hc
      rcases List.mem_append.mp hc with hc | hc
      · exact hdone c hc
      · cases List.mem_singleton.mp hc
        exact ⟨hmethod, rfl⟩
  · rintro e t ⟨hcalls, hconflict⟩
    refine ⟨?_, hconflict⟩
    unfold Edit.Stopped
    rw [hcalls, hsplit]
    exact .carrying hlooks hdone hmethod rfl

theorem carriesOut_ask (request : Request α) (hmethod : edit.carriesOut request.method = true) :
    CarriesOut edit ids (ask request) := fun _ h =>
  (ask_carrying edit request hmethod h).mono (fun _ _ ok => ok.1) fun _ _ failed => failed.1

theorem carriesOut_note (event : Log.Event) : CarriesOut edit ids (note event) :=
  goes_modify fun _ h => h

theorem carriesOut_modifyMemo (change : Memo → Memo) : CarriesOut edit ids (modifyMemo change) :=
  goes_modify fun _ h => h

theorem carriesOut_count (change : Tally → Tally) : CarriesOut edit ids (count change) :=
  carriesOut_modifyMemo _

end

/-! ### Remaps -/

section

variable {mappings : List Mapping} {g : Graph} {ids : List FieldId}

theorem carriesOut_retargetAll (target : SymbolId) (sources : List SymbolId) :
    CarriesOut (.remap mappings) ids (retargetAll target sources) := by
  induction sources with
  | nil => exact goes_pure 0
  | cons source rest ih =>
    refine goes_bind (carriesOut_ask _ rfl) fun here => ?_
    exact goes_bind ih fun there => goes_pure _

theorem carriesOut_applyPlan (plan : RemapPlan) :
    CarriesOut (.remap mappings) ids (applyPlan plan) :=
  goes_bind (carriesOut_retargetAll _ _) fun _ =>
    goes_bind (carriesOut_note _) fun _ => goes_pure _

variable (mappings) in
theorem remap_stops {r : Recorder (Traced (Faulty AnyStore))} (h : InStore (Checking g) r) :
    Ends (fun _ _ => True) (fun _ => (Edit.remap mappings).Stopped) (remap mappings r) := by
  have checked : Goes (InStore (Checking g)) (Edit.remap mappings).Stopped
      (planMappings [] mappings) :=
    goes_planMappings (fun _ => stopped_of_checking)
      (fun name => goes_checking (.symbolsNamed name) rfl) [] mappings
  refine ends_bind ((checked r h).mono (fun plans t ht => ?_) fun _ _ failed => failed)
  have carried : CarriesOut (.remap mappings) [] (do
      let report ← plans.mapM applyPlan
      ask .commit
      return report) :=
    goes_bind (goes_mapM fun plan _ => carriesOut_applyPlan plan) fun report =>
      goes_bind (carriesOut_ask _ rfl) fun _ => goes_pure report
  exact (carried t (ht.carrying nofun)).mono (fun _ _ _ => trivial) fun _ _ failed => failed

end

/-! ### Overrides -/

section

variable {requests : List Override} {g : Graph} {ids : List FieldId}

theorem carriesOut_findSymbol (key : SymbolKey) :
    CarriesOut (.override requests) ids (findSymbol key) := by
  unfold findSymbol
  refine goes_get_bind fun r => ?_
  split
  · exact goes_pure _
  refine goes_bind (carriesOut_ask _ rfl) fun found => ?_
  split
  · exact goes_bind (carriesOut_modifyMemo _) fun _ => goes_pure _
  · exact goes_pure _

theorem carriesOut_symbol (row : NewSymbol) :
    CarriesOut (.override requests) ids (symbol row) := by
  unfold symbol
  refine goes_bind (carriesOut_findSymbol _) fun found => ?_
  split
  · exact goes_bind (carriesOut_count _) fun _ =>
      goes_bind (carriesOut_note _) fun _ => goes_pure _
  refine goes_bind (fun r h => ?_) fun inserted => ?_
  · have hask := ask_carrying (.override requests) (.insertSymbol row) rfl h
    unfold recover
    split <;> rename_i heq <;> rw [heq] at hask
    · exact hask.1
    · exact hask.1
    · exact absurd rfl (hask.2 _ _)
    · exact hask.1
  refine goes_bind (carriesOut_modifyMemo _) fun _ => ?_
  split
  · exact goes_bind (carriesOut_count _) fun _ =>
      goes_bind (carriesOut_note _) fun _ => goes_pure _
  · exact goes_bind (carriesOut_count _) fun _ => goes_pure _

theorem carriesOut_enumerator (owner : SymbolId) (name : String) (value : Int) :
    CarriesOut (.override requests) ids (enumerator owner name value) := by
  intro r h
  have hask := ask_carrying (.override requests) (.insertEnumerator owner name value) rfl h
  unfold enumerator
  split <;> rename_i heq <;> rw [heq] at hask
  · exact hask.1
  · exact hask.1
  · exact absurd rfl (hask.2 _ _)
  · exact hask.1

/-- The field of a plan is there, so its type is set. -/
theorem carriesOut_applyOverridePlan {plan : OverridePlan} (there : plan.field.id ∈ ids) :
    CarriesOut (.override requests) ids (applyOverridePlan plan) := by
  unfold applyOverridePlan
  refine goes_bind (carriesOut_symbol _) fun inserted => ?_
  refine goes_get_bind fun _ => ?_
  refine goes_bind (goes_forM fun c _ => carriesOut_enumerator _ _ _) fun _ => ?_
  refine goes_get_bind fun _ r h => ?_
  have hask := ask_carrying (.override requests) (.setFieldType plan.field.id inserted.id) rfl h
  refine ends_bind (hask.mono ?_ fun _ _ failed => failed.1)
  rintro found t ⟨ht, hserve⟩
  cases AnyStore.setFieldType_found hserve (h.standing _ there)
  exact ht

variable (requests) in
theorem override_stops {r : Recorder (Traced (Faulty AnyStore))} (h : InStore (Checking g) r) :
    Ends (fun _ _ => True) (fun _ => (Edit.override requests).Stopped) (override requests r) := by
  refine ends_bind ((planOverrides_ends (.override requests) [] requests h).mono ?_
    fun _ _ failed => failed)
  rintro plans t ⟨ht, hfields⟩
  have carried : CarriesOut (.override requests) (plans.map fun plan => plan.field.id) (do
      let report ← plans.mapM applyOverridePlan
      ask .commit
      return report) :=
    goes_bind (goes_mapM fun plan hplan =>
      carriesOut_applyOverridePlan (List.mem_map_of_mem hplan)) fun report =>
        goes_bind (carriesOut_ask _ rfl) fun _ => goes_pure report
  have there : ∀ id ∈ plans.map fun plan => plan.field.id, g.HasField id := by
    intro id hid
    obtain ⟨plan, hplan, rfl⟩ := List.mem_map.mp hid
    exact hfields plan hplan
  exact (carried t (ht.carrying there)).mono (fun _ _ _ => trivial) fun _ _ failed => failed

end

/-! ## Changes -/

theorem perform_stops (edit : Edit) {g : Graph} {r : Recorder (Traced (Faulty AnyStore))}
    (h : InStore (Checking g) r) :
    Ends (fun _ _ => True) (fun _ => edit.Stopped) (edit.perform r) := by
  cases edit with
  | remap mappings =>
    apply ends_bind
    exact (remap_stops mappings h).mono (fun _ _ _ => trivial) fun _ _ failed => failed
  | override requests =>
    apply ends_bind
    exact (override_stops requests h).mono (fun _ _ _ => trivial) fun _ _ failed => failed

/-- On any store in memory or in a database, whichever calls of a remap or of an override fail with
a store error: a change that fails has looked all up before it was carried out, and the first call
that failed was its last. It leaves all rows as they were, unless one of its writes was served. -/
theorem only_a_call_after_a_write_leaves_a_change_half_done (edit : Edit) (f : Faulty AnyStore)
    (errors : f.ErrorsOnly) {e : Failure} {t : Recorder (Faulty AnyStore)}
    (fails : edit.perform { store := f } = .error e t) :
    edit.Stops (edit.calls f) ∧
    ((∀ c ∈ edit.calls f, c.wrote = false) → t.store.store.graph = f.store.graph) := by
  obtain ⟨u, hu, rfl⟩ := onState_eq_error.mp
    ((Erases.perform edit { store := ({ store := f } : Traced (Faulty AnyStore)) }).trans fails)
  have hcalls : edit.calls f = u.store.calls := by
    unfold Edit.calls
    rw [hu]
    rfl
  rw [hcalls]
  constructor
  · have checking : Checking f.store.graph { store := f } := ⟨errors, rfl, nofun⟩
    have stops := perform_stops edit (r := { store := { store := f } }) checking
    rw [hu] at stops
    exact stops
  · have unwritten : Unwritten f.store.graph { store := f } := ⟨errors, fun _ => rfl⟩
    have left := (steady_unwritten f.store.graph).perform edit { store := { store := f } } unwritten
    rw [hu] at left
    exact left.same

/-- Words of two sizes, and a pair with one of each. -/
def words : Source where
  origin := "words.o"
  littleEndian := true
  topLevel := [⟨1⟩, ⟨4⟩]
  find? id :=
    if id = ⟨1⟩ then some ⟨id, some "cell", some 8, .base⟩
    else if id = ⟨2⟩ then some ⟨id, some "word", some 4, .base⟩
    else if id = ⟨3⟩ then some ⟨id, some "word", some 8, .base⟩
    else if id = ⟨4⟩ then some ⟨id, some "pair", some 16, .compound .struct
      [⟨some "short", 0, ⟨2⟩, none, none⟩, ⟨some "long", 8, ⟨3⟩, none, none⟩] false⟩
    else none

/-- A database with the rows of the words, in which a call of the method fails after `skip` calls. -/
def wordsFailing (method : Method) (skip : Nat) : Faulty AnyStore :=
  { store := (Session.parse words (AnyStore.database {})).2
    plans := [(method, { mode := .error, skip, times := some 1 })] }

/-- The words become cells. -/
def toCells : Edit := .remap [⟨"word", "cell"⟩]

/-- What the failed remap of the words left, if it failed. -/
def wordsLeft (method : Method) (skip : Nat) : Option Graph :=
  match toCells.perform { store := wordsFailing method skip } with
  | .ok _ _ => none
  | .error _ t => some t.store.store.graph

theorem remap_of_words_failed {method : Method} {skip : Nat} {left : Graph}
    (h : wordsLeft method skip = some left) :
    ∃ e t, toCells.perform { store := wordsFailing method skip } = .error e t ∧
      t.store.store.graph = left := by
  unfold wordsLeft at h
  split at h
  · cases h
  · rename_i e t fails
    exact ⟨e, t, fails, Option.some.inj h⟩

theorem errorsOnly_wordsFailing (method : Method) (skip : Nat) :
    (wordsFailing method skip).ErrorsOnly := by
  intro p hp
  cases List.mem_singleton.mp hp
  rfl

/-- The first word cannot be given its new type. The look-ups of both names are the only calls before
that, so all rows are as they were. -/
theorem a_remap_that_fails_at_its_first_write_is_undone :
    let f := wordsFailing .retargetFields 0
    f.ErrorsOnly ∧ ∃ e t, toCells.perform { store := f } = .error e t ∧
      toCells.calls f = [⟨.symbolsNamed, true⟩, ⟨.symbolsNamed, true⟩, ⟨.retargetFields, false⟩] ∧
      toCells.Stops (toCells.calls f) ∧ t.store.store.graph = f.store.graph := by
  intro f
  obtain ⟨left, hleft⟩ : ∃ left, wordsLeft .retargetFields 0 = some left :=
    Option.isSome_iff_exists.mp (by decide +kernel)
  obtain ⟨e, t, fails, -⟩ := remap_of_words_failed hleft
  have errors := errorsOnly_wordsFailing .retargetFields 0
  have calls : toCells.calls f =
      [⟨.symbolsNamed, true⟩, ⟨.symbolsNamed, true⟩, ⟨.retargetFields, false⟩] := by
    decide +kernel
  obtain ⟨stops, undone⟩ :=
    only_a_call_after_a_write_leaves_a_change_half_done toCells f errors fails
  refine ⟨errors, e, t, fails, calls, stops, undone ?_⟩
  rw [calls]
  decide

/-- The second word cannot be given its new type, and the first one keeps the type that it was
given. -/
theorem a_remap_that_fails_at_its_second_write_is_half_done :
    let f := wordsFailing .retargetFields 1
    f.ErrorsOnly ∧ ∃ e t, toCells.perform { store := f } = .error e t ∧
      t.store.store.graph ≠ f.store.graph := by
  intro f
  obtain ⟨left, hleft⟩ : ∃ left, wordsLeft .retargetFields 1 = some left :=
    Option.isSome_iff_exists.mp (by decide +kernel)
  obtain ⟨e, t, fails, same⟩ := remap_of_words_failed hleft
  refine ⟨errorsOnly_wordsFailing .retargetFields 1, e, t, fails, fun h => ?_⟩
  have hother : wordsLeft .retargetFields 1 ≠ some f.store.graph := by decide +kernel
  exact hother (hleft.trans (congrArg some (same.symm.trans h)))

end LayoutGraph
