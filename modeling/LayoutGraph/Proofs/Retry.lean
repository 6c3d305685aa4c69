-- A pass that failed is completed by the next one. What the failed pass left
-- is held, so the next pass adds the rows that are missing and no others. Only
-- the axes of one field can be lost: a field that is there is taken as whole.
import LayoutGraph.Proofs.Ledger.Pass
import LayoutGraph.Proofs.Recorder.Laid
import LayoutGraph.Proofs.Store.Relist

namespace LayoutGraph

open Chain Recording Survey

namespace Memory

variable {setting : Setting} {m n w : Memory} {torn : Prop}

/-! ## What was cut short is laid anew -/

theorem intern_append (before after : List SymbolKey) :
    m.intern setting (before ++ after) = (m.intern setting before).intern setting after :=
  List.foldl_append

/-- Symbols that are there already are not entered again. -/
theorem intern_again (before after : List SymbolKey) :
    (m.intern setting before).intern setting (before ++ after) =
      m.intern setting (before ++ after) := by
  rw [intern_append, intern_append, intern_of_held fun key hkey => holds_intern hkey]

theorem lay_intern {step : Step} {before after : List SymbolKey}
    (h : step.symbols = before ++ after) :
    (m.intern setting before).lay setting step = m.lay setting step := by
  unfold lay
  rw [h, intern_again]

/-- The axes that a field has are no part of any other row. -/
theorem placeField_rows {row : NewField} {list : ListId} (listed : row.dimensions = some list)
    (unused : ∀ k, m.dimensionIndex.find? ⟨list, k⟩ = none) (seen : list.raw ≤ m.lists.last)
    (extents : List Nat) :
    ∃ dimensions index, m.placeField row extents =
      { (m.insertField row).2 with
        graph := { (m.insertField row).2.graph with dimensions }
        dimensionIndex := index } := by
  unfold placeField
  dsimp only
  rw [listed]
  cases (m.insertField row).1 with
  | existing id => exact ⟨_, _, rfl⟩
  | created id =>
    obtain ⟨axes, index, h, -⟩ := withAxes_new list 0 extents
      (m := (m.insertField row).2)
      (fun k _ => by rw [insertField_axes]; exact unused k) (by rw [insertField_lists]; exact seen)
    exact ⟨_, _, h⟩

theorem placeField_lists {row : NewField} {list : ListId} (listed : row.dimensions = some list)
    (unused : ∀ k, m.dimensionIndex.find? ⟨list, k⟩ = none) (seen : list.raw ≤ m.lists.last)
    (extents : List Nat) : (m.placeField row extents).lists = m.lists := by
  obtain ⟨dimensions, index, h⟩ := placeField_rows listed unused seen extents
  rw [h]
  exact insertField_lists m row

theorem alike_of_axes {row : NewField} {list : ListId} (htorn : torn) (hm : m.Bounded)
    (listed : row.dimensions = some list) (unused : ∀ k, m.dimensionIndex.find? ⟨list, k⟩ = none)
    (seen : list.raw ≤ m.lists.last) {last : Int} (hle : m.lists.last ≤ last)
    (part extents : List Nat) :
    Alike torn m.lists.last (last - m.lists.last)
      { m.placeField row part with lists := ⟨last⟩ } (m.placeField row extents) := by
  have hrow : ∀ other, row.dimensions = some other → other.raw ≤ m.lists.last := by
    intro other hother
    rw [listed] at hother
    cases hother
    exact seen
  have hpart := hm.placeField part hrow
  have hwhole := hm.placeField extents hrow
  obtain ⟨dimensions, index, heq⟩ := placeField_rows listed unused seen part
  obtain ⟨dimensions', index', heq'⟩ := placeField_rows listed unused seen extents
  rw [← insertField_lists m row] at hle ⊢
  rw [heq] at hpart ⊢
  rw [heq'] at hwhole ⊢
  have hmoved : Alike torn _ _ _ _ := .moved hwhole hle
  exact { hmoved with
    dimensions := .inl htorn
    bounded := hpart.moved hle }

/-- After a step was cut short it is laid as if it had not been begun. -/
theorem Cut.lay {step : Step} {last : Int} (h : Cut torn setting w step n) (hw : w.Bounded)
    (hle : n.lists.last ≤ last) :
    ∃ kept taken, 0 ≤ taken ∧ Alike torn kept taken
      (Memory.lay setting { n with lists := ⟨last⟩ } step) (w.lay setting step) := by
  cases h with
  | @symbols step before after hsymbols =>
    have hmoved : Alike torn _ _ _ _ := .moved (hw.intern before) hle
    have h := hmoved.lay setting step
    rw [lay_intern hsymbols] at h
    exact ⟨_, _, Int.sub_nonneg_of_le hle, h⟩
  | @list step n hn =>
    rw [takeList_eq] at hle ⊢
    have hmore : n.lists.last ≤ last := by
      dsimp only at hle
      omega
    subst hn
    have hmoved : Alike torn _ _ _ _ := .moved (hw.intern (Step.field step).symbols) hmore
    have h := hmoved.lay setting (.field step)
    rw [lay_intern (List.append_nil _).symm] at h
    exact ⟨_, _, Int.sub_nonneg_of_le hmore, h⟩
  | @axes step n taken dimensions k htorn hn htaken absent hk =>
    have hempty : step.extents.isEmpty = false := by
      cases hextents : step.extents with
      | nil =>
        rw [hextents] at hk
        cases hk
      | cons => rfl
    have hn' : n.Bounded := hn ▸ hw.intern _
    have hheld := (holdsStep_placeField hn htaken (step.extents.take k)).mono
      (outlasts_moved _ ⟨last⟩)
    have hwhole : w.lay setting (.field step) =
        taken.placeField (n.fieldRow setting step dimensions) step.extents := by
      show (w.intern setting (Step.field step).symbols).layField setting step = _
      rw [← hn, layField, htaken]
    rw [lay_of_held hheld, hwhole]
    rw [takeList_of_array hempty] at htaken
    cases htaken
    have hlists : (placeField _ (n.fieldRow setting step _) (step.extents.take k)).lists = _ :=
      placeField_lists (m := { n with lists := ⟨n.lists.last + 1⟩ }) rfl hn'.next_unused
        (Int.le_refl _) _
    rw [hlists] at hle
    have hmore : n.lists.last + 1 ≤ last + ((Step.field step).lists : Int) := by
      dsimp only at hle
      omega
    exact ⟨_, _, Int.sub_nonneg_of_le hmore, alike_of_axes htorn
      (hn'.moved (Int.le_add_one (Int.le_refl _))) rfl hn'.next_unused (Int.le_refl _) hmore _ _⟩

/-! ## Passes that broke off -/

/-- Steps that broke off are laid as if they had not been begun. -/
theorem Broken.layAll {steps : List Step} (h : Broken torn setting m steps n) (hm : m.Bounded) :
    ∃ kept taken, 0 ≤ taken ∧
      Alike torn kept taken (n.layAll setting steps) (m.layAll setting steps) := by
  obtain ⟨before, step, after, rfl, hcut⟩ := h
  -- The steps before the cut are held, so laying them again does no more than to take lists.
  have hbefore : n.layAll setting before =
      { n with lists := ⟨n.lists.last + (listsOf before : Int)⟩ } :=
    layAll_of_held fun other hother => (holdsStep_layAll hother).mono hcut.outlasts
  have hmore : n.lists.last ≤ n.lists.last + (listsOf before : Int) := by omega
  obtain ⟨kept, taken, htaken, hstep⟩ := hcut.lay (hm.layAll before) hmore
  refine ⟨kept, taken, htaken, ?_⟩
  rw [layAll_append, layAll_append, hbefore]
  exact hstep.layAll after

theorem Broken.outlasts {steps : List Step} (h : Broken torn setting m steps n) :
    Outlasts m n := by
  obtain ⟨before, step, after, -, hcut⟩ := h
  exact (outlasts_layAll before).trans hcut.outlasts

/-- An origin that is there is the origin of the rows to come. -/
theorem laySource_of_entered {source : Source} (h : Outlasts (m.enterOrigin source) n) :
    n.laySource source = n.layAll (m.settingOf source) source.steps := by
  have hheld : Holds (m.enterOrigin source) (.origin source.origin (m.settingOf source).origin) :=
    holds_of_answer (.insertOrigin source.origin source.littleEndian) rfl rfl
  have hid := (holds_iff _ _).mp (h _ hheld)
  have hsame : n.insertOrigin source.origin source.littleEndian =
      (.existing (m.settingOf source).origin, n) := by
    unfold insertOrigin
    rw [show n.originIndex.find? source.origin = _ from hid]
  unfold laySource enterOrigin settingOf
  rw [hsame]
  rfl

/-- What a failed pass over a source left is laid on to what a whole pass lays, but for the numbers
of lists and for axes that were torn off. -/
theorem laySource_alike {source : Source} (hm : m.Bounded)
    (h : n = m ∨ n = m.laySource source ∨
      Broken torn (m.settingOf source) (m.enterOrigin source) source.steps n) :
    ∃ kept taken, 0 ≤ taken ∧ Alike torn kept taken (n.laySource source) (m.laySource source) := by
  have hentered : (m.enterOrigin source).Bounded := hm.insertOrigin _ _
  rcases h with rfl | rfl | h
  · exact ⟨_, _, Int.sub_nonneg_of_le (Int.le_refl _),
      Alike.moved (hentered.layAll source.steps) (Int.le_refl _)⟩
  · have hlaid : Outlasts (m.enterOrigin source) (m.laySource source) :=
      outlasts_layAll source.steps
    have hheld : ∀ step ∈ source.steps, HoldsStep (m.laySource source) step :=
      fun _ hstep => holdsStep_layAll hstep
    rw [laySource_of_entered hlaid, layAll_of_held hheld]
    have hmore : (m.laySource source).lists.last ≤
        (m.laySource source).lists.last + (listsOf source.steps : Int) := by omega
    exact ⟨_, _, Int.sub_nonneg_of_le hmore, Alike.moved (hentered.layAll source.steps) hmore⟩
  · rw [laySource_of_entered h.outlasts]
    exact h.layAll hentered

end Memory

/-! ## Passes over one source -/

theorem errorsOnly_memory : ErrorsOnly Memory := fun _ _ _ h => by cases h

/-- A pass that ends well lays its source. -/
theorem parse_lays {source : Source} {m : Memory} (h : Session.outcome source m = some .ok) :
    (Session.parse source m).2 = m.laySource source := by
  obtain ⟨t, hwrite, hstore⟩ := Session.outcome_eq_ok h
  have hlaid := write_struck errorsOnly_memory source (recalls_start m)
  rw [hwrite] at hlaid
  exact hstore.trans hlaid

/-- A pass whose calls are struck by errors lays its source or breaks off. -/
theorem parse_struck {σ : Type} [Store σ] [Unreliable σ] (only : ErrorsOnly σ) (source : Source)
    (s : σ) :
    let m := Unreliable.memory s
    let n := Unreliable.memory (Session.parse source s).2
    n = m ∨ n = m.laySource source ∨
      Memory.Broken (TearsAxes σ) (m.settingOf source) (m.enterOrigin source) source.steps n := by
  intro m n
  have h := write_struck only source (recalls_start s)
  have hn : n = Unreliable.memory (left (Pass.write source { store := s })).store :=
    congrArg Unreliable.memory (Session.parse_store source s)
  rw [hn]
  exact (h.mono (fun _ _ hwhole => .inr (.inl hwhole)) fun _ _ hbroken => hbroken).left

/-- Whichever calls of a pass over a source fail, if a pass without failures ends well then one
after the failed pass does so too. It leaves the rows of a single pass that was not struck, where
lists may have other numbers. This includes the axes of array fields, unless an insert of an axis
failed. -/
theorem a_failed_pass_is_completed_by_the_next (source : Source)
    (faults : Nat → Method → Option FaultMode)
    (only : ∀ call method fault, faults call method = some fault → fault = .error)
    (first : Session.outcome source ({} : Memory) = some .ok)
    (room : (Session.parse source ({} : Scheduled faults)).2.memory.lists.last + source.lists ≤
      ListCounter.greatest) :
    let whole := (Session.parse source ({} : Memory)).2.graph
    let broken := (Session.parse source ({} : Scheduled faults)).2.memory
    let again := (Session.parse source broken).2.graph
    Session.outcome source broken = some .ok ∧
    ∃ number : ListId → ListId, Function.Injective number ∧
      again.origins = whole.origins ∧ again.symbols = whole.symbols ∧
      again.fields = whole.fields.map (Field.relist number) ∧
      again.enumerators = whole.enumerators ∧
      ((∀ call, faults call .insertDimension = none) → again = whole.relist number) := by
  intro whole broken again
  obtain ⟨t, hwrite, -⟩ := Session.outcome_eq_ok first
  have well := (Pass.write_ok hwrite).1
  have second : Session.outcome source broken = some .ok := by
    rw [(parse_memory source room).1, Source.status, well]
  refine ⟨second, ?_⟩
  have hleft := parse_struck (fun s method fault => only s.calls method fault) source
    ({} : Scheduled faults)
  obtain ⟨kept, taken, htaken, halike⟩ := Memory.laySource_alike Memory.bounded_empty hleft
  have hagain : (Session.parse source broken).2 = broken.laySource source := parse_lays second
  change Memory.Alike _ kept taken (broken.laySource source) _ at halike
  rw [← hagain, ← parse_lays first] at halike
  refine ⟨.shift kept taken, ListId.shift_injective htaken, halike.origins, halike.symbols,
    halike.fields, halike.enumerators, fun untorn => halike.graph_eq ?_⟩
  rintro ⟨s, fault, hfault⟩
  cases (untorn s.calls).symm.trans hfault

/-- A struct with an array of two axes. -/
def grid : Source where
  origin := "grid.o"
  littleEndian := true
  topLevel := [⟨3⟩]
  find? id :=
    if id = ⟨1⟩ then some ⟨id, some "int", some 4, .base⟩
    else if id = ⟨2⟩ then some ⟨id, none, none, .array ⟨1⟩ [3, 2]⟩
    else if id = ⟨3⟩ then some ⟨id, some "Grid", some 24, .compound .struct
      [⟨some "cells", 0, ⟨2⟩, none, none⟩] false⟩
    else none

/-- One call fails, whatever it asks for. -/
def failing (call : Nat) : Nat → Method → Option FaultMode := fun n _ =>
  if n = call then some .error else none

/-- The insert of the grid's field fails after its list was taken, and the next pass takes
another. -/
theorem a_grid_is_completed :
    let whole := (Session.parse grid ({} : Memory)).2.graph
    let broken := (Session.parse grid ({} : Scheduled (failing 8))).2.memory
    let again := (Session.parse grid broken).2.graph
    Session.outcome grid ({} : Scheduled (failing 8)) = some .storeError ∧
    again.dimensions ≠ whole.dimensions ∧ Session.outcome grid broken = some .ok ∧
    ∃ number : ListId → ListId, Function.Injective number ∧ again.symbols = whole.symbols ∧
      again.fields = whole.fields.map (Field.relist number) := by
  intro whole broken again
  have only : ∀ call method fault, failing 8 call method = some fault → fault = .error := by
    intro call method fault h
    unfold failing at h
    split at h <;> cases h
    rfl
  obtain ⟨second, number, injective, -, symbols, fields, -⟩ :=
    a_failed_pass_is_completed_by_the_next grid (failing 8) only (by decide +kernel)
      (by decide +kernel)
  exact ⟨by decide +kernel, by decide +kernel, second, number, injective, symbols, fields⟩

/-- The insert of the grid's second axis fails. The next pass finds the field and ends well, but it
writes no axes: whatever numbers the lists are given, an axis is missing. -/
theorem a_grid_loses_the_axis_that_failed :
    let whole := (Session.parse grid ({} : Memory)).2.graph
    let broken := (Session.parse grid ({} : Scheduled (failing 10))).2.memory
    let again := (Session.parse grid broken).2.graph
    Session.outcome grid ({} : Memory) = some .ok ∧
    Session.outcome grid ({} : Scheduled (failing 10)) = some .storeError ∧
    Session.outcome grid broken = some .ok ∧ ¬ ∃ number, again = whole.relist number := by
  intro whole broken again
  refine ⟨by decide +kernel, by decide +kernel, by decide +kernel, ?_⟩
  rintro ⟨number, heq⟩
  have hlength := congrArg (fun g : Graph => g.dimensions.length) heq
  dsimp only [Graph.relist] at hlength
  rw [List.length_map] at hlength
  exact absurd hlength (by decide +kernel)

end LayoutGraph
