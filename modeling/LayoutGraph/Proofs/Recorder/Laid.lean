-- What steps leave that were laid, in whole or in part. Their rows are held
-- from then on, so laying the same steps again does no more than take lists.
import LayoutGraph.Proofs.Recorder.Agreement
import LayoutGraph.Proofs.Recorder.Plain
import LayoutGraph.Proofs.Survey.Yield

namespace LayoutGraph

open Chain Recording Survey

namespace Memory

variable {setting : Setting} {m n : Memory} {torn : Prop}

/-! ## Entries of steps -/

/-- The fields of the steps are of the entries. -/
def Covers (entries : List (MemberKey × FieldContent)) (setting : Setting) (steps : List Step) :
    Prop :=
  ∀ s, .field s ∈ steps → (⟨s.owner, s.name⟩, s.content setting.littleEndian) ∈ entries

section

variable {entries : List (MemberKey × FieldContent)} {step : Step} {rest : List Step}

theorem Covers.head (h : Covers entries setting (step :: rest)) : Covers entries setting [step] :=
  fun s hs => h s (List.mem_singleton.mp hs ▸ List.mem_cons_self)

theorem Covers.tail (h : Covers entries setting (step :: rest)) : Covers entries setting rest :=
  fun s hs => h s (List.mem_cons_of_mem _ hs)

theorem covers_steps (source : Source) (origin : OriginId) :
    Covers source.entries.fields ⟨origin, source.littleEndian⟩ source.steps :=
  fun s hs => mem_fields_entriesOf.mpr ⟨s, hs, rfl⟩

end

/-! ## What laid steps hold -/

theorem outlasts_of_answer {α : Type} (request : Request α) {reply : α}
    (h : m.answer request = .ok (reply, n)) : Outlasts m n := fun held hm =>
  (holds_iff n held).mpr (names_lasts request h ((holds_iff m held).mp hm))

theorem outlasts_moved (m : Memory) (lists : ListCounter) : Outlasts m { m with lists } := by
  intro held hm
  rw [holds_iff] at hm ⊢
  cases held <;> exact hm

theorem holds_of_answer {α : Type} (request : Request α) {reply : α} {held : Holding}
    (h : m.answer request = .ok (reply, n)) (hheld : Holding.ofInsert request reply = some held) :
    Holds n held := (holds_iff n held).mpr (names_of_insert request h hheld)

theorem holds_insertSymbol (m : Memory) (row : NewSymbol) :
    Holds (m.insertSymbol row).2 (.symbol row.key (m.insertSymbol row).1.id) :=
  holds_of_answer (.insertSymbol row) rfl rfl

theorem holds_insertField (m : Memory) (row : NewField) :
    Holds (m.insertField row).2 (.field row.key (m.insertField row).1.id) :=
  holds_of_answer (.insertField row) rfl rfl

theorem holds_insertEnumerator (m : Memory) (symbol : SymbolId) (constant : Constant) :
    Holds (m.insertEnumerator symbol constant.name constant.value).2
      (.enumerator ⟨symbol, constant.name⟩
        (m.insertEnumerator symbol constant.name constant.value).1.id) :=
  holds_of_answer (.insertEnumerator symbol constant.name constant.value) rfl rfl

theorem outlasts_insertField (m : Memory) (row : NewField) : Outlasts m (m.insertField row).2 :=
  outlasts_of_answer (.insertField row) rfl

theorem outlasts_insertEnumerator (m : Memory) (symbol : SymbolId) (constant : Constant) :
    Outlasts m (m.insertEnumerator symbol constant.name constant.value).2 :=
  outlasts_of_answer (.insertEnumerator symbol constant.name constant.value) rfl

theorem outlasts_intern (setting : Setting) (keys : List SymbolKey) :
    Outlasts m (m.intern setting keys) := by
  induction keys generalizing m with
  | nil => exact Outlasts.refl m
  | cons key rest ih =>
    exact (outlasts_of_answer (.insertSymbol (setting.row key)) rfl).trans ih

theorem outlasts_withAxes (list : ListId) (extents : List Nat) {order : Nat} :
    Outlasts m (withAxes list order extents m) := by
  induction extents generalizing order m with
  | nil => exact Outlasts.refl m
  | cons extent rest ih =>
    exact (outlasts_of_answer (.insertDimension list order extent) rfl).trans ih

theorem outlasts_placeField (row : NewField) (extents : List Nat) :
    Outlasts (m.insertField row).2 (m.placeField row extents) := by
  unfold placeField
  dsimp only
  split
  · exact outlasts_withAxes _ _
  · exact Outlasts.refl _

theorem outlasts_takeList (m : Memory) (extents : List Nat) :
    Outlasts m (m.takeList extents).2 := by
  unfold takeList
  split
  · exact Outlasts.refl m
  · exact outlasts_moved m _

theorem outlasts_layField (m : Memory) (step : FieldStep) :
    Outlasts m (m.layField setting step) :=
  (outlasts_takeList m step.extents).trans
    ((outlasts_insertField _ _).trans (outlasts_placeField _ _))

theorem outlasts_lay (step : Step) : Outlasts m (m.lay setting step) := by
  refine (outlasts_intern setting step.symbols).trans ?_
  unfold lay
  cases step with
  | visit | symbol => exact Outlasts.refl _
  | field step => exact outlasts_layField _ step
  | enumerator key constant =>
    exact outlasts_insertEnumerator _ _ constant

theorem outlasts_layAll (steps : List Step) : Outlasts m (m.layAll setting steps) := by
  induction steps generalizing m with
  | nil => exact Outlasts.refl m
  | cons step rest ih => exact (outlasts_lay step).trans ih

theorem Cut.outlasts {step : Step} (h : Cut torn setting m step n) : Outlasts m n := by
  cases h with
  | symbols => exact outlasts_intern _ _
  | list hn =>
    subst hn
    exact (outlasts_intern _ _).trans (outlasts_takeList _ _)
  | @axes step n taken dimensions k _ hn htaken =>
    have hlist := outlasts_takeList n step.extents
    rw [htaken] at hlist
    subst hn
    exact ((outlasts_intern _ _).trans hlist).trans
      ((outlasts_insertField _ _).trans (outlasts_placeField _ _))

theorem holds_intern {keys : List SymbolKey} {key : SymbolKey} (h : key ∈ keys) :
    ∃ id, Holds (m.intern setting keys) (.symbol key id) := by
  induction keys generalizing m with
  | nil => cases h
  | cons first rest ih =>
    rcases List.mem_cons.mp h with rfl | h
    · exact ⟨_, outlasts_intern setting rest _ (holds_insertSymbol m (setting.row key))⟩
    · exact ih h

theorem holds_symbolOf {key : SymbolKey} (h : ∃ id, Holds m (.symbol key id)) :
    Holds m (.symbol key (m.symbolOf key)) := by
  obtain ⟨id, hid⟩ := h
  rwa [symbolOf_of_names ((holds_iff _ _).mp hid)]

theorem holds_symbols_intern (m : Memory) (setting : Setting) (step : Step) {key : SymbolKey}
    (h : key ∈ step.symbols) :
    Holds (m.intern setting step.symbols)
      (.symbol key ((m.intern setting step.symbols).symbolOf key)) :=
  holds_symbolOf (holds_intern h)

/-- The row of a field that was placed is there, whichever of its axes are. -/
theorem holdsStep_placeField {step : FieldStep} {dimensions : Option ListId} {taken : Memory}
    (hn : n = m.intern setting (Step.field step).symbols)
    (htaken : n.takeList step.extents = (dimensions, taken)) (extents : List Nat) :
    HoldsStep (taken.placeField (n.fieldRow setting step dimensions) extents) (.field step) := by
  have hlist := outlasts_takeList n step.extents
  rw [htaken] at hlist
  have lasts : Outlasts n _ := hlist.trans ((outlasts_insertField _ _).trans
    (outlasts_placeField (n.fieldRow setting step dimensions) extents))
  have howner : Holds n (.symbol step.owner (n.symbolOf step.owner)) :=
    hn ▸ holds_symbols_intern m setting (.field step) List.mem_cons_self
  have htype : Holds n (.symbol step.type (n.symbolOf step.type)) :=
    hn ▸ holds_symbols_intern m setting (.field step) (.tail _ (List.mem_singleton_self _))
  exact ⟨_, _, _, lasts _ howner, lasts _ htype, outlasts_placeField _ _ _ (holds_insertField _ _)⟩

/-- The rows of a step that was laid are there. -/
theorem holdsStep_lay (m : Memory) (step : Step) : HoldsStep (m.lay setting step) step := by
  cases step with
  | visit => exact trivial
  | symbol key => exact ⟨_, holds_symbols_intern m _ (.symbol key) (List.mem_singleton_self key)⟩
  | field step => exact holdsStep_placeField rfl rfl step.extents
  | enumerator key constant =>
    have howner := holds_symbols_intern m setting (.enumerator key constant)
      (List.mem_singleton_self key)
    exact ⟨_, _, outlasts_insertEnumerator _ _ constant _ howner,
      holds_insertEnumerator _ _ constant⟩

theorem holdsStep_layAll {steps : List Step} {step : Step} (h : step ∈ steps) :
    HoldsStep (m.layAll setting steps) step := by
  induction steps generalizing m with
  | nil => cases h
  | cons first rest ih =>
    rcases List.mem_cons.mp h with rfl | h
    · exact (holdsStep_lay m step).mono (outlasts_layAll rest)
    · exact ih h

/-! ## Steps that are held are laid for nothing -/

theorem intern_of_held {keys : List SymbolKey} (h : ∀ key ∈ keys, ∃ id, Holds m (.symbol key id)) :
    m.intern setting keys = m := by
  induction keys with
  | nil => rfl
  | cons key rest ih =>
    obtain ⟨id, hid⟩ := h key List.mem_cons_self
    have hsame : m.insertSymbol (setting.row key) = (.existing id, m) :=
      insertSymbol_of_some ((holds_iff _ _).mp hid)
    show ((m.insertSymbol (setting.row key)).2).intern setting rest = m
    rw [hsame]
    exact ih fun other hother => h other (.tail _ hother)

theorem HoldsStep.symbols {step : Step} (h : HoldsStep m step) :
    ∀ key ∈ step.symbols, ∃ id, Holds m (.symbol key id) := by
  intro key hkey
  cases step with
  | visit => cases hkey
  | symbol own =>
    rw [List.mem_singleton.mp hkey]
    exact h
  | field step =>
    obtain ⟨owner, type, -, howner, htype, -⟩ := h
    rcases List.mem_cons.mp hkey with rfl | hkey
    · exact ⟨owner, howner⟩
    · rw [List.mem_singleton.mp hkey]
      exact ⟨type, htype⟩
  | enumerator own constant =>
    obtain ⟨owner, -, howner, -⟩ := h
    rw [List.mem_singleton.mp hkey]
    exact ⟨owner, howner⟩

/-- A field that is there is not placed again. -/
theorem placeField_of_some (row : NewField) {id : FieldId}
    (h : m.fieldIndex.find? row.key = some id) (extents : List Nat) :
    m.placeField row extents = m := by
  unfold placeField
  rw [insertField_of_some h]

/-- A field that is there takes its list and no more. -/
theorem layField_of_some {step : FieldStep} {id : FieldId}
    (h : m.fieldIndex.find? ⟨m.symbolOf step.owner, step.name⟩ = some id) :
    m.layField setting step = (m.takeList step.extents).2 := by
  unfold layField
  cases hempty : step.extents.isEmpty with
  | true =>
    rw [takeList_of_plain hempty]
    exact placeField_of_some (m.fieldRow setting step none) h _
  | false =>
    rw [takeList_of_array hempty]
    exact placeField_of_some (m := { m with lists := ⟨m.lists.last + 1⟩ })
      (m.fieldRow setting step (some ⟨m.lists.last + 1⟩)) h _

/-- A new field without extents takes no list. -/
theorem layField_plain {step : FieldStep}
    (absent : m.fieldIndex.find? ⟨m.symbolOf step.owner, step.name⟩ = none)
    (hempty : step.extents.isEmpty = true) : m.layField setting step =
      m.withField (m.fieldRow setting step none) [] m.dimensionIndex m.lists := by
  let row := m.fieldRow setting step none
  have absent : m.fieldIndex.find? row.key = none := absent
  unfold layField placeField
  rw [takeList_of_plain hempty]
  dsimp only
  rw [insertField_of_none absent]
  rfl

/-- A new field with extents takes the next list, and its axes are inserted behind it. -/
theorem layField_array {step : FieldStep}
    (absent : m.fieldIndex.find? ⟨m.symbolOf step.owner, step.name⟩ = none)
    (hempty : step.extents.isEmpty = false) : m.layField setting step =
      withAxes ⟨m.lists.last + 1⟩ 0 step.extents ({ m with lists := ⟨m.lists.last + 1⟩ }.insertField
        (m.fieldRow setting step (some ⟨m.lists.last + 1⟩))).2 := by
  let row := m.fieldRow setting step (some ⟨m.lists.last + 1⟩)
  have absent : m.fieldIndex.find? row.key = none := absent
  unfold layField placeField
  rw [takeList_of_array hempty]
  dsimp only
  rw [insertField_of_none (m := { m with lists := ⟨m.lists.last + 1⟩ }) absent]
  rfl

theorem takeList_eq (m : Memory) (step : FieldStep) :
    (m.takeList step.extents).2 =
      { m with lists := ⟨m.lists.last + ((Step.field step).lists : Int)⟩ } := by
  unfold takeList Step.lists
  dsimp only
  split <;> simp

/-- A step whose rows are there takes its lists and does nothing else. -/
theorem lay_of_held {step : Step} (h : HoldsStep m step) :
    m.lay setting step = { m with lists := ⟨m.lists.last + (step.lists : Int)⟩ } := by
  have hsame : ({ m with lists := ⟨m.lists.last + (0 : Nat)⟩ } : Memory) = m := by
    rw [Int.natCast_zero, Int.add_zero]
  unfold lay
  rw [intern_of_held (HoldsStep.symbols h)]
  cases step with
  | visit | symbol => exact hsame.symm
  | field step =>
    obtain ⟨owner, type, id, howner, -, hid⟩ := h
    rw [← symbolOf_of_names ((holds_iff _ _).mp howner)] at hid
    exact (layField_of_some ((holds_iff _ _).mp hid)).trans (takeList_eq m step)
  | enumerator key constant =>
    obtain ⟨owner, id, howner, hid⟩ := h
    rw [← symbolOf_of_names ((holds_iff _ _).mp howner)] at hid
    have hfind := insertEnumerator_of_some ((holds_iff _ _).mp hid) constant.value
    exact (congrArg Prod.snd hfind).trans hsame.symm

theorem layAll_of_held {steps : List Step} (h : ∀ step ∈ steps, HoldsStep m step) :
    m.layAll setting steps = { m with lists := ⟨m.lists.last + listsOf steps⟩ } := by
  induction steps generalizing m with
  | nil =>
    show m = { m with lists := ⟨m.lists.last + 0⟩ }
    rw [Int.add_zero]
  | cons step rest ih =>
    show (m.lay setting step).layAll setting rest = _
    rw [lay_of_held (h step List.mem_cons_self), ih, listsOf_cons]
    · push_cast
      rw [Int.add_assoc]
    · exact fun other hother => (h other (.tail _ hother)).mono (outlasts_moved m _)

end Memory

end LayoutGraph
