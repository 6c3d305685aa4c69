-- What a pass that goes well adds to the fields and to the axes. A list that is
-- taken is one that nothing uses, so the axes that come are those of the fields
-- that come. Which faults struck the calls does not matter.
import Mathlib.Algebra.GroupWithZero.Nat
import LayoutGraph.Proofs.Growth
import LayoutGraph.Proofs.Recorder.Laid

namespace LayoutGraph

open Chain Recording Survey

/-- The ranks of the fields of the entries, all together. -/
def ranks (entries : List (MemberKey × FieldContent)) : Nat :=
  (entries.map fun e => e.2.extents.length).sum

theorem ranks_append (a b : List (MemberKey × FieldContent)) :
    ranks (a ++ b) = ranks a + ranks b := by
  simp only [ranks, List.map_append, List.sum_append]

namespace Graph

theorem append_cancel {g a b : Graph} (h : g ++ a = g ++ b) : a = b := by
  cases a
  cases b
  simp only [append_def, Graph.mk.injEq, List.append_cancel_left_eq] at h ⊢
  exact h

end Graph

namespace Memory

/-! ## Gains -/

/-- The fields of the rows that came read as the entries, and as many axes came as these have. All
of the axes are of lists that were taken in between. -/
structure Gains (m n : Memory) (added : Graph) (entries : List (MemberKey × FieldContent)) :
    Prop where
  rows : n.graph = m.graph ++ added
  reads : n.graph.ReadsIn { fields := added.fields } { fields := entries }
  axes : added.dimensions.length = ranks entries
  counter : m.lists.last ≤ n.lists.last
  beyond : ∀ d ∈ added.dimensions, m.lists.last < d.list.raw
  within : ∀ f ∈ added.fields, ∀ list, f.dimensions = some list → list.raw ≤ n.lists.last

variable {m n o : Memory} {a b : Graph} {es fs : List (MemberKey × FieldContent)}

theorem Gains.trans (h : Gains m n a es) (h' : Gains n o b fs) :
    Gains m o (a ++ b) (es ++ fs) where
  rows := by rw [h'.rows, h.rows, Graph.append_assoc]
  reads := by
    have older : o.graph.ReadsIn { fields := a.fields } { fields := es } := by
      rw [h'.rows]
      refine h.reads.extend fun f hf list hlist d hd heq => ?_
      have hle := h.within f hf list hlist
      have hlt := h'.beyond d hd
      rw [heq] at hlt
      omega
    exact older.append h'.reads
  axes := by
    show (a.dimensions ++ b.dimensions).length = _
    rw [List.length_append, h.axes, h'.axes, ranks_append]
  counter := Int.le_trans h.counter h'.counter
  beyond d hd := (List.mem_append.mp hd).elim (h.beyond d) fun hd =>
    Int.lt_of_le_of_lt h.counter (h'.beyond d hd)
  within f hf list hlist := (List.mem_append.mp hf).elim
    (fun hf => Int.le_trans (h.within f hf list hlist) h'.counter) fun hf => h'.within f hf list hlist

/-- The rows that come are neither fields nor axes. -/
theorem gains_of_same (hm : m.Sound) (grows : m.Grows n)
    (fields : n.graph.fields = m.graph.fields) (dimensions : n.graph.dimensions = m.graph.dimensions)
    (counter : m.lists.last ≤ n.lists.last) : ∃ added, Gains m n added [] := by
  obtain ⟨added, rows, -⟩ := grows.added hm
  have nofields : added.fields = [] := by
    rw [rows] at fields
    exact List.append_right_eq_self.mp fields
  have noaxes : added.dimensions = [] := by
    rw [rows] at dimensions
    exact List.append_right_eq_self.mp dimensions
  refine ⟨added, rows, ?_, by rw [noaxes]; rfl, counter, ?_, ?_⟩
  · rw [nofields]
    exact ⟨rfl, rfl, rfl, rfl⟩
  · rw [noaxes]
    nofun
  · rw [nofields]
    nofun

/-- The fields that came are of the entries. -/
def Gained (entries : List (MemberKey × FieldContent)) (m n : Memory) : Prop :=
  ∃ added came, Gains m n added came ∧ came ⊆ entries

variable {entries : List (MemberKey × FieldContent)}

theorem Gained.trans (h : Gained entries m n) (h' : Gained entries n o) : Gained entries m o := by
  obtain ⟨a, es, hgains, hsub⟩ := h
  obtain ⟨b, fs, hgains', hsub'⟩ := h'
  exact ⟨a ++ b, es ++ fs, hgains.trans hgains', List.append_subset.mpr ⟨hsub, hsub'⟩⟩

theorem gained_of_same (hm : m.Sound) (grows : m.Grows n)
    (fields : n.graph.fields = m.graph.fields) (dimensions : n.graph.dimensions = m.graph.dimensions)
    (counter : m.lists.last ≤ n.lists.last) : Gained entries m n :=
  (gains_of_same hm grows fields dimensions counter).imp fun _ h => ⟨[], h, List.nil_subset _⟩

theorem Gained.refl (hm : m.Sound) : Gained entries m m :=
  gained_of_same hm (.refl m) rfl rfl (Int.le_refl _)

/-! ## Moves -/

variable {setting : Setting} {origin : String}

theorem gained_enterOrigin (hm : m.Sound) (source : Source) :
    Gained entries m (m.enterOrigin source) := by
  have grows : m.Grows (m.enterOrigin source) := (Insert.origin m _ _).grows
  refine gained_of_same hm grows ?_ ?_ (Int.le_of_eq ?_) <;> unfold enterOrigin insertOrigin <;>
    split <;> rfl

theorem gained_insertSymbol (hm : m.Sound) {row : NewSymbol}
    (horigin : m.Names (.origin origin row.origin)) : Gained entries m (m.insertSymbol row).2 := by
  refine gained_of_same hm (Insert.symbol horigin).grows ?_ ?_ (Int.le_of_eq ?_) <;>
    unfold insertSymbol <;> split <;> rfl

theorem gained_insertEnumerator (hm : m.Sound) {owner : SymbolKey} {symbol : SymbolId}
    (howner : m.Names (.symbol owner symbol)) (name : String) (value : Int) :
    Gained entries m (m.insertEnumerator symbol name value).2 := by
  refine gained_of_same hm (Insert.enumerator name value howner).grows ?_ ?_ (Int.le_of_eq ?_) <;>
    unfold insertEnumerator <;> split <;> rfl

theorem gained_takeList (hm : m.Sound) (extents : List Nat) :
    Gained entries m (m.takeList extents).2 := by
  unfold takeList
  split
  · exact .refl hm
  · exact gained_of_same hm (Insert.list m).grows rfl rfl (by dsimp only; omega)

theorem gained_intern (hm : m.Sound) (horigin : m.Names (.origin origin setting.origin))
    (keys : List SymbolKey) :
    (m.intern setting keys).Sound ∧ Gained entries m (m.intern setting keys) := by
  induction keys generalizing m with
  | nil => exact ⟨hm, .refl hm⟩
  | cons key rest ih =>
    have hinsert : Insert m (m.insertSymbol (setting.row key)).2 := .symbol horigin
    obtain ⟨hsound, hrest⟩ := ih (hinsert.sound hm) (hinsert.names horigin)
    exact ⟨hsound, (gained_insertSymbol hm horigin).trans hrest⟩

section

variable {step : FieldStep} (hm : m.Sound)
  (howner : m.Names (.symbol step.owner (m.symbolOf step.owner)))
  (htype : m.Names (.symbol step.type (m.symbolOf step.type)))
  (hmem : (⟨step.owner, step.name⟩, step.content setting.littleEndian) ∈ entries)

include hm howner htype hmem

/-- A new field comes with its axes. -/
theorem gained_withField {dimensions : Option ListId} {axes : List Dimension}
    {index : Index DimensionKey DimensionId} {lists : ListCounter}
    (counter : m.lists.last ≤ lists.last) (beyond : ∀ d ∈ axes, m.lists.last < d.list.raw)
    (within : ∀ list, dimensions = some list → list.raw ≤ lists.last)
    (length : axes.length = step.extents.length)
    (hextents : (m.withField (m.fieldRow setting step dimensions) axes index lists).graph.extentsOf
      dimensions = step.extents) :
    Gained entries m (m.withField (m.fieldRow setting step dimensions) axes index lists) := by
  let key : MemberKey := ⟨step.owner, step.name⟩
  let row := m.fieldRow setting step dimensions
  have hread : (m.withField row axes index lists).graph.readField _ =
      some (key, row.content step.type step.extents) :=
    readField_withField (hm.symbols.found _ _ howner) rfl (hm.symbols.found _ _ htype) hextents
  refine ⟨_, [(key, step.content setting.littleEndian)],
    ⟨withField_graph, ⟨rfl, rfl, ?_, rfl⟩, ?_, counter, beyond, ?_⟩, ?_⟩
  · simp only [List.map_cons, List.map_nil]
    rw [hread]
    rfl
  · exact length.trans (Nat.add_zero _).symm
  · intro f hf
    rw [List.mem_singleton.mp hf]
    exact within
  · simpa using hmem

theorem gained_layField : Gained entries m (m.layField setting step) := by
  have seen : ∀ key id, m.dimensionIndex.find? key = some id → key.list.raw ≤ m.lists.last := by
    intro key id hfind
    obtain ⟨d, hd, hkey, -⟩ := hm.dimensions.mem_of_found hfind
    rw [← hkey]
    exact hm.lists d hd
  cases hfind : m.fieldIndex.find? ⟨m.symbolOf step.owner, step.name⟩ with
  | some id =>
    rw [layField_of_some hfind]
    exact gained_takeList hm _
  | none =>
    cases hempty : step.extents.isEmpty with
    | true =>
      have hnil := List.isEmpty_iff.mp hempty
      rw [layField_plain hfind hempty]
      exact gained_withField hm howner htype hmem (Int.le_refl _) nofun nofun (by rw [hnil]; rfl)
        hnil.symm
    | false =>
      obtain ⟨axes, index, hplaced, haxes, -⟩ := placeArray seen
        (m.fieldRow setting step (some ⟨m.lists.last + 1⟩)) step.extents hfind
      rw [layField_array hfind hempty, hplaced]
      refine gained_withField hm howner htype hmem (by dsimp only; omega) (fun d hd => ?_)
        (fun list hlist => ?_) ?_ (extentsOf_axes rfl (list_unused hm.lists) haxes)
      · rw [list_of_axes haxes d hd]
        exact Int.lt_succ _
      · cases hlist
        exact Int.le_refl _
      · have hlength := congrArg List.length haxes
        simpa using hlength

end

theorem gained_lay_field (hm : m.Sound) (horigin : m.Names (.origin origin setting.origin))
    {step : FieldStep}
    (hmem : (⟨step.owner, step.name⟩, step.content setting.littleEndian) ∈ entries) :
    Gained entries m (m.lay setting (.field step)) := by
  have named {key : SymbolKey} (hkey : key ∈ (Step.field step).symbols) :=
    (holds_iff _ _).mp (holds_symbols_intern m setting (.field step) hkey)
  obtain ⟨hsound, hsymbols⟩ := gained_intern hm horigin (Step.field step).symbols
  exact hsymbols.trans (gained_layField hsound (named List.mem_cons_self)
    (named (List.mem_cons_of_mem _ (List.mem_singleton_self _))) hmem)

end Memory

/-! ## Runs that go well -/

variable {σ α β : Type} [Store σ] [Unreliable σ]
  {entries : List (MemberKey × FieldContent)} {setting : Setting} {origin : String}

/-- A run that goes well has gained fields of the entries, with their axes. -/
def GainsIn (entries : List (MemberKey × FieldContent)) (x : Recording σ α) (r : Recorder σ) :
    Prop :=
  Ends (fun _ t => Recalls t ∧ r.memory.Grows t.memory ∧ Memory.Gained entries r.memory t.memory)
    (fun _ _ => True) (x r)

variable {r : Recorder σ}

theorem writeStep_gains (hr : Recalls r) (hm : r.memory.Sound)
    (horigin : r.memory.Names (.origin origin setting.origin)) {step : Step}
    (covers : Memory.Covers entries setting [step]) : GainsIn entries (writeStep setting step) r := by
  have hgrows : GrowsTo _ _ _ := writeStep_grows hr horigin step
  have hgained : Ends (fun _ t => Memory.Gained entries r.memory t.memory) (fun _ _ => True)
      (writeStep setting step r) := by
    cases step with
    | visit entry name => exact .refl hm
    | symbol key =>
      refine ends_bind ((symbol_struck hr (setting.row key)).mono (fun _ t h => ?_)
        fun _ _ _ => trivial)
      have hmemory : t.memory = (r.memory.insertSymbol (setting.row key)).2 :=
        congrArg Prod.snd h.2.2
      show Memory.Gained entries r.memory t.memory
      rw [hmemory]
      exact Memory.gained_insertSymbol hm horigin
    | field step =>
      refine (writeField_struck hr step).mono (fun _ t h => ?_) fun _ _ _ => trivial
      rw [h.2]
      exact Memory.gained_lay_field hm horigin (covers step (List.mem_singleton_self _))
    | enumerator key constant =>
      refine ends_bind ((symbolId_struck hr setting key).mono (fun owner r1 h => ?_)
        fun _ _ _ => trivial)
      obtain ⟨h1, howner, hmemory1⟩ := h
      have hinsert : Memory.Insert r.memory r1.memory := by
        rw [hmemory1]
        exact .symbol horigin
      have hsymbol : Memory.Gained entries r.memory r1.memory := by
        rw [hmemory1]
        exact Memory.gained_insertSymbol hm horigin
      refine (enumerator_struck h1 owner constant.name constant.value).mono (fun _ t h => ?_)
        fun _ _ _ => trivial
      rcases h.2 with h | ⟨-, h⟩ <;> rw [h]
      · exact hsymbol.trans (Memory.gained_insertEnumerator (hinsert.sound hm) howner _ _)
      · exact hsymbol
  exact (hgrows.and hgained).mono (fun _ _ h => ⟨h.1.1, h.1.2.1, h.2⟩) fun _ _ _ => trivial

theorem writeSteps_gains (hr : Recalls r) (hm : r.memory.Sound)
    (horigin : r.memory.Names (.origin origin setting.origin)) {steps : List Step}
    (covers : Memory.Covers entries setting steps) :
    GainsIn entries (writeSteps setting steps) r := by
  unfold writeSteps
  induction steps generalizing r with
  | nil => exact ⟨hr, .refl _, .refl hm⟩
  | cons step rest ih =>
    refine ends_bind ((writeStep_gains hr hm horigin covers.head).mono (fun _ t h => ?_)
      fun _ _ h => h)
    obtain ⟨ht, hgrows, hgained⟩ := h
    refine (ih ht (hgrows.sound hm) (hgrows.names horigin) covers.tail).mono (fun _ u h => ?_)
      fun _ _ h => h
    exact ⟨h.1, hgrows.trans h.2.1, hgained.trans h.2.2⟩

/-- A pass that goes well has gained fields of its source, with their axes. -/
theorem write_gains (source : Source) {t : Recorder σ} (hr : Recalls r) (hm : r.memory.Sound)
    (h : Pass.write source r = .ok () t) :
    Memory.Gained source.entries.fields r.memory t.memory := by
  obtain ⟨-, id, r1, log, r2, r3, horigin, hsteps, hcommit, hstore, -⟩ := Pass.write_commits h
  have entering := origin_struck hr source.origin source.littleEndian
  rw [horigin] at entering
  obtain ⟨h1, hid, hmemory⟩ := entering
  have hm1 : r1.memory.Sound := by
    rw [hmemory]
    exact hm.insertOrigin _ _
  have entered : Memory.Gained source.entries.fields r.memory r1.memory := by
    rw [hmemory]
    exact Memory.gained_enterOrigin hm source
  let setting : Setting := ⟨id, source.littleEndian⟩
  have logged : Recalls (r1.withLog log) := h1.congr rfl rfl rfl
  have named : (r1.withLog log).memory.Names (.origin source.origin setting.origin) := hid
  have written : GainsIn source.entries.fields (writeSteps setting source.steps) (r1.withLog log) :=
    writeSteps_gains logged hm1 named (Memory.covers_steps source id)
  rw [GainsIn, hsteps] at written
  have committed := ask_served .commit rfl r2
  rw [hcommit] at committed
  have hlast : t.memory = r2.memory :=
    (congrArg Unreliable.memory hstore).trans (eq_snd_of_ok committed.2)
  rw [hlast]
  exact entered.trans written.2.2

end LayoutGraph
