-- The database simulates the memory. Whatever is done to both, while numbers
-- fit the columns and rows that requests refer to are there, each reply is the
-- same in both and so are the rows. A pass, a remap and an override refer to
-- rows that are there by themselves.
import LayoutGraph.Proofs.Absorb
import LayoutGraph.Proofs.Recorder.Twins
import LayoutGraph.Proofs.Survey.Yield

namespace LayoutGraph

open Chain Recording
open Database (columnEnd)

variable {α β : Type} {r t : Recorder AnyStore}

/-! ## Loops in step -/

namespace Together

/-- What is held before a loop is held at each of its turns. -/
theorem forM {f : α → Recording AnyStore PUnit} {l : List α} (h : Twins r t) (hr : Agrees r)
    (each : ∀ a ∈ l, ∀ u v, Twins u v → Agrees u → Outlasts r.store u.store →
      Together (fun _ _ => True) (f a) u v) :
    Together (fun _ _ => True) (l.forM f) r t := by
  induction l generalizing r t with
  | nil => exact .pure h hr trivial
  | cons a rest ih =>
    have first := each a List.mem_cons_self r t h hr (Outlasts.refl _)
    refine first.bind fun _ u v huv hu lasts _ => ?_
    exact ih huv hu fun b hb w x hwx hw lasts' =>
      each b (.tail _ hb) w x hwx hw (lasts.trans lasts')

theorem mapM {f : α → Recording AnyStore β} {l : List α} (h : Twins r t) (hr : Agrees r)
    (each : ∀ a ∈ l, ∀ u v, Twins u v → Agrees u → Outlasts r.store u.store →
      Together (fun _ _ => True) (f a) u v) :
    Together (fun _ _ => True) (l.mapM f) r t := by
  induction l generalizing r t with
  | nil => exact .pure h hr trivial
  | cons a rest ih =>
    rw [List.mapM_cons]
    have first := each a List.mem_cons_self r t h hr (Outlasts.refl _)
    refine first.bind fun _ u v huv hu lasts _ => ?_
    refine (ih huv hu fun b hb w x hwx hw lasts' =>
      each b (.tail _ hb) w x hwx hw (lasts.trans lasts')).bind fun _ w x hwx hw _ _ => ?_
    exact .pure hwx hw trivial

end Together

/-! ## Steps -/

/-- The numbers of a step fit the columns of a database. -/
def Survey.Step.Fits : Survey.Step → Prop
  | .visit _ _ => True
  | .symbol key | .enumerator key _ => key.byteSize < columnEnd
  | .field step => step.owner.byteSize < columnEnd ∧ step.type.byteSize < columnEnd ∧
      (step.byteOffset < columnEnd ∧ (∀ n ∈ step.bitSize, n < columnEnd) ∧
        ∀ n ∈ step.bitOffset, n < columnEnd) ∧ ∀ extent ∈ step.extents, extent < columnEnd

instance (step : Survey.Step) : Decidable step.Fits :=
  match step with
  | .visit _ _ => inferInstanceAs (Decidable True)
  | .symbol key | .enumerator key _ => inferInstanceAs (Decidable (key.byteSize < columnEnd))
  | .field step => inferInstanceAs (Decidable (step.owner.byteSize < columnEnd ∧
      step.type.byteSize < columnEnd ∧ (step.byteOffset < columnEnd ∧
        (∀ n ∈ step.bitSize, n < columnEnd) ∧ ∀ n ∈ step.bitOffset, n < columnEnd) ∧
      ∀ extent ∈ step.extents, extent < columnEnd))

variable {setting : Setting} {origin : String}

theorem symbolId_together (h : Twins r t) (hr : Agrees r)
    (horigin : Holds r.store (.origin origin setting.origin)) {key : SymbolKey}
    (fits : key.byteSize < columnEnd) :
    Together (fun id u => Holds u.store (.symbol key id)) (symbolId setting key) r t := by
  refine .of_inStep ?_ (fun held => (steady_holds held).symbolId setting key)
    fun _ _ hsymbol => symbolId_ok hsymbol hr
  rw [symbolId_eq, symbolId_eq, h.memo]
  split
  · exact .ok h trivial
  · let row : NewSymbol := ⟨setting.origin, key.name, key.byteSize⟩
    exact InStep.bind (symbol_together h hr row fits horigin)
      fun inserted u v huv _ => .ok huv trivial

theorem writeDimensions_together (h : Twins r t) (hr : Agrees r) (list : ListId)
    {extents : List Nat} (fits : ∀ extent ∈ extents, extent < columnEnd) :
    Together (fun _ _ => True) (writeDimensions list extents) r t := by
  refine Together.forM h hr fun axis haxis u v huv hu _ => ?_
  have hextent : axis.1 ∈ extents := (List.mem_zipIdx' haxis).2 ▸ List.getElem_mem _
  exact (ask_together huv hu (.insertDimension list axis.2 axis.1)
    (fits axis.1 hextent) trivial).bind fun _ _ _ hwx hw _ _ => .pure hwx hw trivial

theorem listFor_together (h : Twins r t) (hr : Agrees r) (extents : List Nat) :
    Together (fun _ _ => True) (listFor extents) r t := by
  unfold listFor
  split
  · exact .pure h hr trivial
  · exact (ask_together h hr .allocateList trivial trivial).bind
      fun _ _ _ huv hu _ _ => .pure huv hu trivial

theorem writeField_together (h : Twins r t) (hr : Agrees r)
    (horigin : Holds r.store (.origin origin setting.origin)) {step : Survey.FieldStep}
    (fits : (Survey.Step.field step).Fits) :
    Together (fun _ _ => True) (writeField setting step) r t := by
  obtain ⟨fitsOwner, fitsType, fitsRow, fitsExtents⟩ := fits
  unfold writeField
  refine (symbolId_together h hr horigin fitsOwner).bind fun owner r1 t1 h1 hr1 l1 howner => ?_
  refine (symbolId_together h1 hr1 (l1 _ horigin) fitsType).bind
    fun type r2 t2 h2 hr2 l2 htype => ?_
  refine (listFor_together h2 hr2 step.extents).bind fun dimensions r3 t3 h3 hr3 l3 _ => ?_
  let row : NewField :=
    { owner, name := step.name, byteOffset := step.byteOffset, type, dimensions
      littleEndian := setting.littleEndian, bitSize := step.bitSize, bitOffset := step.bitOffset
      pointerDepth := step.pointerDepth }
  refine (field_together h3 hr3 row fitsRow (l3 _ (l2 _ howner)) (l3 _ htype)).bind
    fun inserted r4 t4 h4 hr4 _ _ => ?_
  split
  · exact writeDimensions_together h4 hr4 _ fitsExtents
  · exact .pure h4 hr4 trivial

theorem writeStep_together (h : Twins r t) (hr : Agrees r)
    (horigin : Holds r.store (.origin origin setting.origin)) {step : Survey.Step}
    (fits : step.Fits) : Together (fun _ _ => True) (writeStep setting step) r t := by
  cases step with
  | visit entry name => exact note_together h hr _
  | symbol key =>
    let row : NewSymbol := ⟨setting.origin, key.name, key.byteSize⟩
    exact (symbol_together h hr row fits horigin).bind
      fun _ _ _ huv hu _ _ => .pure huv hu trivial
  | field step => exact writeField_together h hr horigin fits
  | enumerator key constant =>
    exact (symbolId_together h hr horigin fits).bind
      fun id _ _ huv hu _ howner => enumerator_together huv hu howner _ _

theorem writeSteps_together (h : Twins r t) (hr : Agrees r)
    (horigin : Holds r.store (.origin origin setting.origin)) {steps : List Survey.Step}
    (fits : ∀ step ∈ steps, step.Fits) :
    Together (fun _ _ => True) (writeSteps setting steps) r t :=
  Together.forM h hr fun step hstep _ _ huv hu lasts =>
    writeStep_together huv hu (lasts _ horigin) (fits step hstep)

/-! ## Passes -/

theorem writeResolution_together (h : Twins r t) (hr : Agrees r)
    (horigin : Holds r.store (.origin origin setting.origin)) {one : Survey.Resolution}
    (fits : ∀ step ∈ one.steps.toList, step.Fits) :
    Together (fun _ _ => True) (Pass.writeResolution setting one) r t := by
  unfold Pass.writeResolution
  refine (writeSteps_together h hr horigin fits).bind fun _ u v huv hu _ _ => ?_
  split
  · exact .throw huv _
  · exact .pure huv hu trivial

theorem writeResolutions_inStep (name : String) (setting : Setting) (h : Twins r t) (hr : Agrees r)
    (horigin : Holds r.store (.origin origin setting.origin)) {rs : List Survey.Resolution}
    (fits : ∀ step ∈ Survey.stepsOf rs, step.Fits) :
    InStep (fun _ _ => True) (Pass.writeResolutions name setting rs r)
      (Pass.writeResolutions name setting rs t) := by
  induction rs generalizing r t with
  | nil => exact .ok h trivial
  | cons one rest ih =>
    rw [Survey.stepsOf_cons] at fits
    have hone : InStep _ _ _ := writeResolution_together h hr horigin fun step hstep =>
      fits step (List.mem_append_left _ hstep)
    unfold Pass.writeResolutions
    generalize Pass.writeResolution setting one r = a at hone ⊢
    generalize Pass.writeResolution setting one t = b at hone ⊢
    cases hone with
    | ok huv hfacts =>
      obtain ⟨hu, lasts, -⟩ := hfacts
      exact ih huv hu (lasts _ horigin) fun step hstep => fits step (List.mem_append_right _ hstep)
    | error huv =>
      dsimp only
      split
      · exact huv.apart fun pair _ _ => .ok (.of pair _ _) trivial
      · exact .error huv

theorem write_inStep (h : Twins r t) (hr : Agrees r) {source : Source}
    (fits : ∀ step ∈ source.steps, step.Fits) :
    InStep (fun _ _ => True) (Pass.write source r) (Pass.write source t) := by
  unfold Pass.write
  refine InStep.bind (origin_together h hr source.origin source.littleEndian)
    fun id r1 t1 h1 hfacts => ?_
  obtain ⟨hr1, -, hid⟩ := hfacts
  refine InStep.bind (note_together h1 hr1 _) fun _ r2 t2 h2 hfacts => ?_
  obtain ⟨hr2, lasts, -⟩ := hfacts
  let setting : Setting := ⟨id, source.littleEndian⟩
  refine (writeResolutions_inStep source.origin setting h2 hr2 (lasts _ hid) fits).bind
    fun failure r3 t3 h3 _ => ?_
  refine (h3.ask .commit trivial trivial).bind fun _ r4 t4 h4 _ => ?_
  cases failure with
  | some e => exact .error h4
  | none => exact h4.apart fun pair _ _ => .ok (.of pair _ _) trivial

/-- A pass over both stores gives one report, one stage and one set of counters. -/
theorem parse_inStep {s s' : AnyStore} (h : s.Pair s') {source : Source}
    (fits : ∀ step ∈ source.steps, step.Fits) :
    (Session.parse source s).1 = (Session.parse source s').1 ∧
      (Session.parse source s).2.Pair (Session.parse source s').2 := by
  have hwrite := write_inStep (.of h {} #[]) (agrees_start s) fits
  unfold Session.parse
  generalize Pass.write source ⟨s, {}, #[]⟩ = a at hwrite ⊢
  generalize Pass.write source ⟨s', {}, #[]⟩ = b at hwrite ⊢
  cases hwrite with
  | ok huv _ =>
    obtain ⟨pair, memo, log⟩ := huv
    exact ⟨rfl, pair⟩
  | error huv =>
    obtain ⟨pair, memo, log⟩ := huv
    dsimp only
    split <;> exact ⟨rfl, pair⟩

/-! ## Remaps -/

open Change

/-- The symbols that are found by name are there. -/
theorem symbolsNamed_together (h : Twins r t) (hr : Agrees r) (name : String) :
    Together (fun rows u => ∀ row ∈ rows, row ∈ u.store.graph.symbols)
      (ask (.symbolsNamed name)) r t := by
  refine (ask_together h hr (.symbolsNamed name) trivial trivial).mono
    fun rows u hserve row hrow => ?_
  rw [AnyStore.serve_symbolsNamed] at hserve
  injection hserve with hrows hstore
  rw [← hrows] at hrow
  rw [← hstore]
  exact List.mem_of_mem_filter hrow

/-- The target of a plan is there. -/
def Change.RemapPlan.Ready (plan : RemapPlan) (s : AnyStore) : Prop :=
  ∃ key, Holds s (.symbol key plan.target)

theorem planMapping_together (h : Twins r t) (hr : Agrees r) (seen : List String) (m : Mapping) :
    Together (fun plan u => plan.Ready u.store) (planMapping seen m) r t := by
  unfold planMapping
  dsimp only
  split
  · exact .throw_bind h _ _
  split
  · exact .throw_bind h _ _
  refine (symbolsNamed_together h hr m.old).bind fun sources u v huv hu _ _ => ?_
  split
  · exact .throw_bind huv _ _
  refine (symbolsNamed_together huv hu m.new).bind fun targets w x hwx hw _ hrows => ?_
  cases targets with
  | nil => exact .throw hwx _
  | cons target rest =>
    exact .pure hwx hw ⟨_, hwx.stores.holds_symbol (hrows target List.mem_cons_self)⟩

theorem planMappings_together (h : Twins r t) (hr : Agrees r) (seen : List String)
    (ms : List Mapping) :
    Together (fun plans u => ∀ plan ∈ plans, plan.Ready u.store) (planMappings seen ms) r t := by
  induction ms generalizing seen r t with
  | nil => exact .pure h hr fun _ hplan => absurd hplan List.not_mem_nil
  | cons m rest ih =>
    refine (planMapping_together h hr seen m).bind fun plan u v huv hu _ hplan => ?_
    refine (ih huv hu (m.old :: seen)).bind fun plans w x hwx hw lasts hplans => ?_
    refine .pure hwx hw fun other hother => ?_
    rcases List.mem_cons.mp hother with rfl | hother
    · exact hplan.imp fun key hheld => lasts _ hheld
    · exact hplans other hother

theorem retargetAll_together (h : Twins r t) (hr : Agrees r) {key : SymbolKey} {target : SymbolId}
    (htarget : Holds r.store (.symbol key target)) (sources : List SymbolId) :
    Together (fun _ _ => True) (retargetAll target sources) r t := by
  induction sources generalizing r t with
  | nil => exact .pure h hr trivial
  | cons source rest ih =>
    refine (ask_together h hr (.retargetFields source target) trivial
      (h.stores.symbol_there htarget)).bind fun here u v huv hu lasts _ => ?_
    exact (ih huv hu (lasts _ htarget)).bind fun there w x hwx hw _ _ => .pure hwx hw trivial

theorem applyPlan_together (h : Twins r t) (hr : Agrees r) {plan : RemapPlan}
    (ready : plan.Ready r.store) : Together (fun _ _ => True) (applyPlan plan) r t := by
  obtain ⟨key, htarget⟩ := ready
  refine (retargetAll_together h hr htarget plan.sources).bind fun count u v huv hu _ _ => ?_
  exact (note_together huv hu _).bind fun _ w x hwx hw _ _ => .pure hwx hw trivial

theorem remap_together (h : Twins r t) (hr : Agrees r) (mappings : List Mapping) :
    Together (fun _ _ => True) (remap mappings) r t := by
  refine (planMappings_together h hr [] mappings).bind fun plans u v huv hu _ hplans => ?_
  refine (Together.mapM huv hu fun plan hplan w x hwx hw lasts => ?_).bind
    fun report w x hwx hw _ _ => ?_
  · exact applyPlan_together hwx hw ((hplans plan hplan).imp fun key hheld => lasts _ hheld)
  · exact (ask_together hwx hw .commit trivial trivial).bind
      fun _ _ _ hyz hy _ _ => .pure hyz hy trivial

/-! ## Overrides -/

/-- What the replacement takes from the rows of a plan fits, and is there. -/
structure Change.OverridePlan.Ready (plan : OverridePlan) (s : AnyStore) : Prop where
  size : plan.previous.byteSize < columnEnd
  origin : ∃ name, Holds s (.origin name plan.owner.origin)

theorem Change.OverridePlan.Ready.mono {plan : OverridePlan} {s s' : AnyStore}
    (h : plan.Ready s) (lasts : Outlasts s s') : plan.Ready s' :=
  ⟨h.size, h.origin.imp fun _ hheld => lasts _ hheld⟩

theorem locate_together (h : Twins r t) (hr : Agrees r) (o : Override) :
    Together (fun plan u => plan.Ready u.store) (locate o) r t := by
  unfold locate
  refine (symbolsNamed_together h hr o.symbol).bind fun owners r1 t1 h1 hr1 _ howners => ?_
  cases owners with
  | nil => exact .throw h1 _
  | cons owner rest =>
    obtain ⟨name, horigin⟩ := h1.stores.holds_origin (howners owner List.mem_cons_self)
    refine (ask_together h1 hr1 (.findField ⟨owner.id, o.field⟩) trivial trivial).bind
      fun found r2 t2 h2 hr2 l2 _ => ?_
    cases found with
    | none => exact .throw h2 _
    | some id =>
      refine (ask_together h2 hr2 (.fieldById id) trivial trivial).bind
        fun row r3 t3 h3 hr3 l3 _ => ?_
      cases row with
      | none => exact .throw h3 _
      | some field =>
        refine (ask_together h3 hr3 (.symbolById field.type) trivial trivial).bind
          fun previous r4 t4 h4 hr4 l4 hserve => ?_
        cases previous with
        | none => exact .throw h4 _
        | some previous =>
          rw [AnyStore.serve_symbolById] at hserve
          injection hserve with hfind
          exact .pure h4 hr4 ⟨h3.stores.size_fits (List.mem_of_find?_eq_some hfind), name,
            l4 _ (l3 _ (l2 _ horigin))⟩

theorem planOverride_together (h : Twins r t) (hr : Agrees r) (seen : List (String × String))
    (o : Override) :
    Together (fun plan u => plan.Ready u.store) (planOverride seen o) r t := by
  unfold planOverride
  dsimp only
  split
  · exact .throw_bind h _ _
  split
  · exact .throw h _
  · exact locate_together h hr o

theorem planOverrides_together (h : Twins r t) (hr : Agrees r) (seen : List (String × String))
    (os : List Override) :
    Together (fun plans u => ∀ plan ∈ plans, plan.Ready u.store) (planOverrides seen os) r t := by
  induction os generalizing seen r t with
  | nil => exact .pure h hr fun _ hplan => absurd hplan List.not_mem_nil
  | cons o rest ih =>
    refine (planOverride_together h hr seen o).bind fun plan u v huv hu _ hplan => ?_
    refine (ih huv hu ((o.symbol, o.field) :: seen)).bind fun plans w x hwx hw lasts hplans => ?_
    refine .pure hwx hw fun other hother => ?_
    rcases List.mem_cons.mp hother with rfl | hother
    · exact hplan.mono lasts
    · exact hplans other hother

/-- Both programs go on alike where they read no more than what the recorders share. -/
theorem get_together {x : Recorder AnyStore → Recording AnyStore α}
    {Q : α → Recorder AnyStore → Prop} (same : x t = x r) (next : Together Q (x r) r t) :
    Together Q (get >>= x) r t := by
  show InStep _ (x r r) (x t t)
  rw [same]
  exact next

theorem applyOverridePlan_together (h : Twins r t) (hr : Agrees r) {plan : OverridePlan}
    (ready : plan.Ready r.store) : Together (fun _ _ => True) (applyOverridePlan plan) r t := by
  obtain ⟨size, name, horigin⟩ := ready
  unfold applyOverridePlan
  let row : NewSymbol := ⟨plan.owner.origin, plan.request.typeName, plan.previous.byteSize⟩
  refine (symbol_together h hr row size horigin).bind
    fun inserted r1 t1 h1 hr1 l1 hinserted => ?_
  refine get_together (by obtain ⟨-, -, -⟩ := h1; rfl) ?_
  refine (Together.forM h1 hr1 fun c hc u v huv hu lasts =>
    enumerator_together huv hu (lasts _ hinserted) c.name c.value).bind
      fun _ r2 t2 h2 hr2 l2 _ => ?_
  refine get_together (by obtain ⟨-, -, -⟩ := h2; rfl) ?_
  refine (ask_together h2 hr2 (.setFieldType plan.field.id inserted.id) trivial
    (h2.stores.symbol_there (l2 _ hinserted))).bind fun found r3 t3 h3 hr3 _ _ => ?_
  dsimp only
  split
  · exact .throw_bind h3 _ _
  · exact (note_together h3 hr3 _).bind fun _ u v huv hu _ _ => .pure huv hu trivial

theorem override_together (h : Twins r t) (hr : Agrees r) (requests : List Override) :
    Together (fun _ _ => True) (override requests) r t := by
  refine (planOverrides_together h hr [] requests).bind fun plans u v huv hu _ hplans => ?_
  refine (Together.mapM huv hu fun plan hplan w x hwx hw lasts => ?_).bind
    fun report w x hwx hw _ _ => ?_
  · exact applyOverridePlan_together hwx hw ((hplans plan hplan).mono lasts)
  · exact (ask_together hwx hw .commit trivial trivial).bind
      fun _ _ _ hyz hy _ _ => .pure hyz hy trivial

/-! ## Histories -/

namespace Action

/-- What an action answers: the report and the counters of a pass, the report of a change with the
log and the memo that it leaves, the reply of a request. -/
def Reply : Action → Type
  | .parse _ => Except Failure (Report × Session)
  | .remap _ => EStateM.Result Failure (Memo × Array Log.Event) (List Remapped)
  | .override _ => EStateM.Result Failure (Memo × Array Log.Event) (List Overridden)
  | @Action.ask α _ => EStateM.Result Failure Unit α
  | .reopen => Unit

/-- The numbers of the action fit the columns of a database, and the rows that its request refers to
are there. No store is closed. -/
def AllowedIn (g : Graph) : Action → Prop
  | .parse source => ∀ step ∈ source.steps, step.Fits
  | .remap _ | .override _ => True
  | .ask request => request.Fits ∧ request.NamesRows g
  | .reopen => False

end Action

namespace AnyStore

/-- What an action on the store answers. -/
def reply (s : AnyStore) : (action : Action) → action.Reply
  | .parse source => (Session.parse source s).1
  | .remap mappings => onState (fun r => (r.memo, r.log)) (Change.remap mappings { store := s })
  | .override requests =>
    onState (fun r => (r.memo, r.log)) (Change.override requests { store := s })
  | .ask request => onState (fun _ => ()) (Store.serve request s)
  | .reopen => ()

/-- Each action of a history is allowed where it comes. -/
def Allows (s : AnyStore) : List Action → Prop
  | [] => True
  | action :: rest => action.AllowedIn s.graph ∧ (s.act action).Allows rest

variable {s s' : AnyStore}

theorem Pair.graph_eq (h : s.Pair s') : s'.graph = s.graph := by
  cases h with
  | of mirrors => exact mirrors.graph

/-- An action that is allowed has one answer in both stores. -/
theorem Pair.act (h : s.Pair s') {action : Action} (allowed : action.AllowedIn s.graph) :
    s.reply action = s'.reply action ∧ (s.act action).Pair (s'.act action) := by
  have twins : Twins { store := s } { store := s' } := .of h {} #[]
  cases action with
  | parse source => exact parse_inStep h allowed
  | remap mappings => exact (remap_together twins (agrees_start s) mappings).seen
  | override requests => exact (override_together twins (agrees_start s) requests).seen
  | ask request =>
    unfold reply AnyStore.act
    obtain ⟨reply, n, n', hs, hs', next⟩ | ⟨e, n, n', hs, hs', next⟩ :=
      h.serve allowed.1 allowed.2
    · dsimp only
      rw [hs, hs']
      exact ⟨rfl, next⟩
    · dsimp only
      rw [hs, hs']
      exact ⟨rfl, next⟩
  | reopen => exact allowed.elim

theorem Pair.after (h : s.Pair s') {history : List Action} (allowed : s.Allows history) :
    (s.after history).Pair (s'.after history) := by
  induction history generalizing s s' with
  | nil => exact h
  | cons action rest ih => exact ih (h.act allowed.1).2 allowed.2

theorem Allows.split {before rest : List Action} (h : s.Allows (before ++ rest)) :
    s.Allows before ∧ (s.after before).Allows rest := by
  induction before generalizing s with
  | nil => exact ⟨trivial, h⟩
  | cons action more ih =>
    obtain ⟨first, later⟩ := h
    exact ⟨⟨first, (ih later).1⟩, (ih later).2⟩

end AnyStore

/-- On a fresh store in memory and a fresh database, whatever passes, remaps, overrides and requests
come in a row: while numbers fit the columns and the rows that requests refer to are there, each
action has one answer in both, and the rows are the same after it. A request with a number that does
not fit is refused by any database, which stays as it is. -/
theorem the_database_simulates_the_memory (history : List Action)
    (allowed : (AnyStore.memory {}).Allows history) :
    (∀ before action rest, history = before ++ action :: rest →
      let memory := (AnyStore.memory {}).after before
      let database := (AnyStore.database {}).after before
      memory.reply action = database.reply action ∧
        (memory.act action).graph = (database.act action).graph) ∧
    ∀ (db : Database) (α : Type) (request : Request α), ¬ request.Fits →
      ∃ column value, columnEnd ≤ value ∧
        Store.serve request db = .error (.store (.outOfRange column value)) db := by
  refine ⟨?_, fun db α request unfit => ?_⟩
  · rintro before action rest rfl
    obtain ⟨hbefore, haction, -⟩ := AnyStore.Allows.split allowed
    have pair := (AnyStore.Pair.of Mirrors.empty).after hbefore
    obtain ⟨hreply, hnext⟩ := pair.act haction
    exact ⟨hreply, hnext.graph_eq.symm⟩
  · obtain ⟨column, value, hvalue, hanswer⟩ := Database.answer_unfit unfit db
    exact ⟨column, value, hvalue, ofStep_error_iff.mpr ⟨hanswer, rfl⟩⟩

/-- The bytes of the ring become octets, and its link becomes an enumeration, in both stores. -/
theorem both_stores_change_the_ring_alike :
    let before : List Action :=
      [.parse ring, .ask (.insertSymbol ⟨⟨1⟩, "octet", 1⟩), .remap [⟨"byte", "octet"⟩]]
    let action : Action :=
      .override [⟨"ring", "next", .enumeration (some "link") [⟨"none", 0⟩, ⟨"some", 1⟩]⟩]
    let memory := (AnyStore.memory {}).after before
    let database := (AnyStore.database {}).after before
    (memory.act action).graph.enumerators ≠ [] ∧
    memory.reply action = database.reply action ∧
    (memory.act action).graph = (database.act action).graph ∧
    ∃ column value, columnEnd ≤ value ∧
      Store.serve (.insertSymbol ⟨⟨1⟩, "vast", columnEnd⟩) ({} : Database) =
        .error (.store (.outOfRange column value)) {} := by
  intro before action memory database
  have fits : ∀ step ∈ ring.steps, step.Fits := by decide +kernel
  have there : ∃ o ∈ (Session.parse ring (AnyStore.memory {})).2.graph.origins, o.id = ⟨1⟩ := by
    decide +kernel
  have octet : 1 < columnEnd := by decide
  have allowed : (AnyStore.memory {}).Allows (before ++ [action]) :=
    ⟨fits, ⟨octet, there⟩, trivial, trivial, trivial⟩
  obtain ⟨alike, refuses⟩ := the_database_simulates_the_memory (before ++ [action]) allowed
  obtain ⟨hreply, hgraph⟩ := alike before action [] rfl
  exact ⟨by decide +kernel, hreply, hgraph, refuses {} _ _ (Nat.lt_irrefl columnEnd)⟩

end LayoutGraph
