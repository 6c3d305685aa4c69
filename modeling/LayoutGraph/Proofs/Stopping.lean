-- The law of stopping: a pass ends at the first entry that fails and keeps what
-- it has written. What stands behind that entry counts for nothing, and the
-- rows of the entries before it are those of a pass over them alone.
import LayoutGraph.Proofs.Growth
import LayoutGraph.Proofs.Recorder.SideBySide
import LayoutGraph.Proofs.Survey.Prefix

namespace LayoutGraph

open Chain Recording

/-! ## Resolutions behind one another -/

section

variable {σ : Type} [Store σ] [Unreliable σ] {setting : Setting} {r : Recorder σ}

/-- More resolutions only add rows to those of the first ones. -/
theorem writeResolutions_append_grows (name : String) {origin : String} (hr : Recalls r)
    (horigin : r.memory.Names (.origin origin setting.origin))
    (first more : List Survey.Resolution) :
    (left (Pass.writeResolutions name setting first r)).memory.Grows
      (left (Pass.writeResolutions name setting (first ++ more) r)).memory := by
  induction first generalizing r with
  | nil =>
    have h := writeResolutions_grows name setting hr horigin more
    show r.memory.Grows _
    rw [List.nil_append]
    cases hmore : Pass.writeResolutions name setting more r <;> rw [hmore] at h <;> exact h
  | cons one rest ih =>
    have h : GrowsTo _ _ _ := writeResolution_grows hr horigin one
    unfold GrowsTo at h
    rw [List.cons_append, Pass.writeResolutions, Pass.writeResolutions]
    dsimp only
    cases hone : Pass.writeResolution setting one r with
    | ok u t =>
      rw [hone] at h
      obtain ⟨ht, hgrows, -⟩ := h
      exact ih ht (hgrows.names horigin)
    | error e t => exact .refl _

end

/-! ## Passes over lists of one source -/

/-- Behind its origin a pass writes the resolutions of the survey, and nothing else. So passes over
sources of one name and one byte order leave what their resolutions leave. -/
theorem parse_eq_writeResolutions (name : String) (littleEndian : Bool) (m : Memory) :
    ∃ (id : OriginId) (r : Recorder Memory), Recalls r ∧ r.memory.Names (.origin name id) ∧
      ∀ source : Source, source.origin = name → source.littleEndian = littleEndian →
        (Session.parse source m).2 = (left (Pass.writeResolutions name ⟨id, littleEndian⟩
          (Survey.survey source).resolutions r)).memory := by
  obtain ⟨r, horigin, -⟩ := origin_memory (r := { store := m }) name littleEndian
  have h := origin_struck (recalls_start m) name littleEndian
  rw [horigin] at h
  refine ⟨_, r, h.1, h.2.1, ?_⟩
  rintro source rfl rfl
  let setting : Setting :=
    ⟨(m.insertOrigin source.origin source.littleEndian).1.id, source.littleEndian⟩
  let walking : Log.Event := .walking source.topLevel.length source.littleEndian
  have hnote : note walking r = .ok () (r.withLog (r.log.push walking)) := rfl
  -- The log is not seen, so the resolutions leave what they leave without this note.
  have alike := SideBySide.writeResolutions mild_memory mild_memory source.origin setting
    (Survey.survey source).resolutions (r.withLog (r.log.push walking)) r rfl
  have rows := congrArg (fun x => (left x).memory) alike
  simp only [left_onState] at rows
  refine Eq.trans ?_ rows
  rw [Session.parse_store]
  unfold Pass.write
  rw [bind_of_ok horigin, bind_of_ok hnote]
  cases hwrite : Pass.writeResolutions source.origin setting (Survey.survey source).resolutions
      (r.withLog (r.log.push walking)) with
  | ok failure t =>
    have hcommit : ask .commit t = .ok () t := ask_of_ok (Faultless.commit t.store)
    rw [bind_of_ok hwrite, bind_of_ok hcommit]
    cases failure <;> rfl
  | error e t =>
    rw [bind_of_error hwrite]
    rfl

/-- The first of two passes that go on alike leaves rows to which the second adds. -/
theorem parse_grows_of_append {a b : Source} {m : Memory} (origins : b.origin = a.origin)
    (endians : b.littleEndian = a.littleEndian) {more : List Survey.Resolution}
    (resolutions : (Survey.survey b).resolutions = (Survey.survey a).resolutions ++ more) :
    (Session.parse a m).2.Grows (Session.parse b m).2 := by
  obtain ⟨id, r, hr, hid, hparse⟩ := parse_eq_writeResolutions a.origin a.littleEndian m
  rw [hparse a rfl rfl, hparse b origins endians, resolutions]
  exact writeResolutions_append_grows a.origin hr hid _ more

/-! ## Sources that fail -/

theorem status_of_failure {source : Source} (h : source.failure? ≠ none) :
    source.status = .parseError := by
  unfold Source.status
  cases hfailure : source.failure? with
  | none => exact absurd hfailure h
  | some e =>
    obtain ⟨r, hr, he⟩ := List.exists_of_findSome?_eq_some hfailure
    have hreference := Survey.surveyFrom_failure source source.topLevel {} hr he
    cases hreference <;> rfl

/-- A pass over entries of which the last one fails, whatever stands behind it. -/
theorem resolutions_of_stuck {source : Source} {before : List EntryId} {stuck : EntryId}
    (well : (source.withTopLevel before).failure? = none)
    (fails : (source.withTopLevel (before ++ [stuck])).failure? ≠ none) :
    ∃ more, ∀ after, (Survey.survey (source.withTopLevel (before ++ stuck :: after))).resolutions =
      (Survey.survey (source.withTopLevel before)).resolutions ++ more := by
  unfold Source.failure? at well fails
  rw [Survey.survey_withTopLevel] at well fails
  obtain ⟨p, hp⟩ := Survey.surveyFrom_append_of_well well
  refine ⟨(Survey.surveyFrom source [stuck] p).resolutions, fun after => ?_⟩
  rw [Survey.survey_withTopLevel, Survey.survey_withTopLevel, ← hp,
    ← Survey.surveyFrom_append_of_failure fails after, List.append_assoc]
  rfl

theorem lists_le_of_append {a b : Source} {more : List Survey.Resolution}
    (resolutions : (Survey.survey b).resolutions = (Survey.survey a).resolutions ++ more) :
    a.lists ≤ b.lists := by
  unfold Source.lists Source.steps
  rw [resolutions, Survey.stepsOf_append, Survey.listsOf_append]
  exact Nat.le_add_right _ _

/-- Where the entries before an entry resolve, as far as they do not wait for a typedef's name, and
it does not: the pass leaves the rows of a pass over the entries before, and behind them some rows
that do not depend on what stands behind the entry. As long as there are lists for it to take, it
ends as a parse error, and the pass over the entries before ends well. -/
theorem a_failing_pass_keeps_the_work_before_the_failure (source : Source) (before : List EntryId)
    (stuck : EntryId) (m : Memory) (reached : m.Reached)
    (well : (source.withTopLevel before).failure? = none)
    (fails : (source.withTopLevel (before ++ [stuck])).failure? ≠ none) :
    ∃ added, ∀ after,
      let passed := source.withTopLevel before
      let failed := source.withTopLevel (before ++ stuck :: after)
      (Session.parse failed m).2.graph = (Session.parse passed m).2.graph ++ added ∧
        (m.lists.last + failed.lists ≤ ListCounter.greatest →
          Session.outcome passed m = some .ok ∧ Session.outcome failed m = some .parseError) := by
  obtain ⟨more, hmore⟩ := resolutions_of_stuck well fails
  have grows : (Session.parse (source.withTopLevel before) m).2.Grows
      (Session.parse (source.withTopLevel (before ++ [stuck])) m).2 :=
    parse_grows_of_append rfl rfl (hmore [])
  have sound := (Memory.steady_reached.parse (source.withTopLevel before) reached).sound
  obtain ⟨added, hadded, -⟩ := grows.added sound
  refine ⟨added, fun after => ⟨?_, fun room => ⟨?_, ?_⟩⟩⟩
  · have same : (Survey.survey (source.withTopLevel (before ++ stuck :: after))).resolutions =
        (Survey.survey (source.withTopLevel (before ++ [stuck]))).resolutions :=
      (hmore after).trans (hmore []).symm
    obtain ⟨-, rows⟩ := Session.parse_sideBySide mild_memory mild_memory
      (a := source.withTopLevel (before ++ stuck :: after))
      (b := source.withTopLevel (before ++ [stuck])) rfl rfl same (s := m) (t := m) rfl
    rw [← hadded]
    exact congrArg Memory.graph rows
  · have hle := lists_le_of_append (hmore after)
    rw [(parse_memory (source.withTopLevel before) (by omega)).1]
    unfold Source.status
    rw [well]
  · have failing : (source.withTopLevel (before ++ stuck :: after)).failure? ≠ none := by
      unfold Source.failure? at fails ⊢
      rw [hmore after, ← hmore []]
      exact fails
    rw [(parse_memory _ room).1, status_of_failure failing]

/-- A pair of numbers, a struct whose second member leads to no entry, and a number behind them. -/
def torn : Source where
  origin := "torn.o"
  littleEndian := true
  topLevel := [⟨2⟩, ⟨3⟩, ⟨4⟩]
  find? id :=
    if id = ⟨1⟩ then some ⟨id, some "int", some 4, .base⟩
    else if id = ⟨2⟩ then some ⟨id, some "pair", some 8, .compound .struct
      [⟨some "left", 0, ⟨1⟩, none, none⟩, ⟨some "right", 4, ⟨1⟩, none, none⟩] false⟩
    else if id = ⟨3⟩ then some ⟨id, some "torn", some 8, .compound .struct
      [⟨some "whole", 0, ⟨1⟩, none, none⟩, ⟨some "lost", 4, ⟨9⟩, none, none⟩] false⟩
    else if id = ⟨4⟩ then some ⟨id, some "late", some 2, .base⟩
    else none

/-- Behind the rows of a ring the pair is kept, and so is the member before the one that fails. -/
theorem a_torn_struct_keeps_the_pair_before_it :
    let m := (Session.parse ring ({} : Memory)).2
    let passed := torn.withTopLevel [⟨2⟩]
    (Session.parse torn m).2.graph ≠ (Session.parse passed m).2.graph ∧
      (∃ added, (Session.parse torn m).2.graph = (Session.parse passed m).2.graph ++ added) ∧
      Session.outcome passed m = some .ok ∧ Session.outcome torn m = some .parseError := by
  intro m passed
  have reached : m.Reached := Memory.steady_reached.parse ring .empty
  obtain ⟨added, h⟩ := a_failing_pass_keeps_the_work_before_the_failure torn [⟨2⟩] ⟨3⟩ m reached
    (by decide +kernel) (by decide +kernel)
  obtain ⟨rows, ends⟩ := h [⟨4⟩]
  obtain ⟨well, fails⟩ := ends (by decide +kernel)
  exact ⟨by decide +kernel, ⟨added, rows⟩, well, fails⟩

/-- A struct with an array before the member that leads to no entry. -/
def frayed : Source where
  origin := "frayed.o"
  littleEndian := true
  topLevel := [⟨1⟩, ⟨3⟩]
  find? id :=
    if id = ⟨1⟩ then some ⟨id, some "int", some 4, .base⟩
    else if id = ⟨2⟩ then some ⟨id, none, none, .array ⟨1⟩ [2]⟩
    else if id = ⟨3⟩ then some ⟨id, some "frayed", some 16, .compound .struct
      [⟨some "cells", 0, ⟨2⟩, none, none⟩, ⟨some "lost", 8, ⟨9⟩, none, none⟩] false⟩
    else none

/-- Where the last list has been used there is none for the array, and the pass does not get to the
member that leads to no entry. -/
theorem a_frayed_struct_finds_no_list :
    let m := (({} : Memory).insertDimension ⟨ListCounter.greatest⟩ 0 1).2
    m.Reached ∧ (frayed.withTopLevel [⟨1⟩]).failure? = none ∧
      (frayed.withTopLevel ([⟨1⟩] ++ [⟨3⟩])).failure? ≠ none ∧
      Session.outcome (frayed.withTopLevel [⟨1⟩]) m = some .ok ∧
      Session.outcome (frayed.withTopLevel ([⟨1⟩] ++ ⟨3⟩ :: [])) m = none := by
  intro m
  have last : ({} : Memory).answer (.insertDimension ⟨ListCounter.greatest⟩ 0 1) = .ok (⟨1⟩, m) :=
    rfl
  exact ⟨.serve .empty last, by decide +kernel, by decide +kernel, by decide +kernel,
    by decide +kernel⟩

end LayoutGraph
