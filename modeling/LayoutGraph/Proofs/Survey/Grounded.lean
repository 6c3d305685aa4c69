-- What a walk rests on. The ids that it binds have entries, and where all that
-- an entry needs has been walked, the walk has come by each id that the entry
-- refers to. So a survey that goes well has looked up every id that it had to
-- follow, and one that fails has failed at such an id.
import LayoutGraph.Proofs.Survey.Failing
import LayoutGraph.Proofs.Survey.Whole

namespace LayoutGraph

/-- An id that a pass has to follow: a listed one whose entry waits for no name, or one that the
entry of such an id refers to, however far. -/
inductive Source.Needed (source : Source) : EntryId → Prop
  | listed {id : EntryId} {e : Entry} : id ∈ source.topLevel → source.find? id = some e →
    e.awaitsName = false → Needed source id
  | step {id target : EntryId} {e : Entry} : Needed source id → source.find? id = some e →
    target ∈ e.references → Needed source target

theorem Source.Needed.reachable {source : Source} {id : EntryId} (h : source.Needed id) :
    source.Reachable id := by
  induction h with
  | listed hid => exact .listed hid
  | step _ hfind htarget ih => exact ih.step hfind htarget

namespace Survey

variable {source : Source} {p q : Progress} {id : EntryId} {e : Entry}

/-! ## The invariant -/

structure Grounded (source : Source) (p : Progress) : Prop where
  found : ∀ id, (p.symbol? id).isSome → (source.find? id).isSome
  references : ∀ id key, p.bindings.lookup id = some ⟨key, true⟩ → ∀ e, source.find? id = some e →
    ∀ target ∈ e.references, Handled source p target

/-- An id that a walk has come by has an entry. -/
theorem Grounded.found_of_handled (h : Grounded source p) (hid : Handled source p id) :
    (source.find? id).isSome := by
  cases hid with
  | bound hbound => exact h.found _ hbound
  | elsewhere hfind => simp [hfind]
  | wraps hfind => simp [hfind]

theorem Grounded.congr (h : Grounded source p) (bindings : q.bindings = p.bindings)
    (void : p.voidWritten = true → q.voidWritten = true) : Grounded source q := by
  have symbols : ∀ id, q.symbol? id = p.symbol? id := fun id => by
    unfold Progress.symbol?
    rw [bindings]
  refine ⟨fun id hid => h.found id (symbols id ▸ hid), fun id key hid e hfind target htarget => ?_⟩
  rw [bindings] at hid
  exact (h.references id key hid e hfind target htarget).mono (fun id hid => symbols id ▸ hid) void

theorem bindings_pushConstants (p : Progress) (key : SymbolKey) (constants : List Constant) :
    (p.pushConstants key constants).bindings = p.bindings ∧
      (p.pushConstants key constants).voidWritten = p.voidWritten := by
  unfold Progress.pushConstants
  induction constants generalizing p with
  | nil => exact ⟨rfl, rfl⟩
  | cons c rest ih => exact ih _

theorem bindings_withVoid (p : Progress) : p.withVoid.bindings = p.bindings := by
  unfold Progress.withVoid
  split <;> rfl

namespace Grounded

theorem push (h : Grounded source p) (s : Step) : Grounded source (p.push s) := h.congr rfl fun hv => hv

theorem pushConstants (h : Grounded source p) (key : SymbolKey) (constants : List Constant) :
    Grounded source (p.pushConstants key constants) := by
  obtain ⟨bindings, void⟩ := bindings_pushConstants p key constants
  exact h.congr bindings fun hv => void.trans hv

theorem withVoid (h : Grounded source p) : Grounded source p.withVoid :=
  h.congr (bindings_withVoid p) (Extends.withVoid p).void

/-- An id with an entry may be bound; as complete, if all that the entry refers to is handled. -/
theorem bind (h : Grounded source p) {b : Binding} (hfind : source.find? id = some e)
    (hrefs : b.complete = true → ∀ target ∈ e.references, Handled source p target) :
    Grounded source (p.bind id b) := by
  have later := Extends.bind p id b
  refine ⟨fun other hother => ?_, fun other key hother f hf target htarget => ?_⟩
  · rw [Progress.symbol?_bind] at hother
    split at hother
    · rename_i heq
      simp [heq, hfind]
    · exact h.found other hother
  · rw [Progress.lookup_bind] at hother
    split at hother
    · rename_i heq
      cases hother
      cases hfind.symm.trans (heq ▸ hf)
      exact later.handled (hrefs rfl target htarget)
    · exact later.handled (h.references other key hother f hf target htarget)

theorem enter (h : Grounded source p) (id : EntryId) {key : SymbolKey}
    (hfind : source.find? e.id = some e) : Grounded source (p.enter id e key) :=
  ((h.push _).push _).bind hfind nofun

end Grounded

/-! ## Handled ids -/

/-- An id is handled where the own id of its entry is. -/
theorem handled_of_own (hfind : source.find? id = some e) (hself : source.find? e.id = some e)
    (h : Handled source p e.id) : Handled source p id := by
  generalize hown : e.id = own at h hself
  cases h with
  | bound hbound => exact .elsewhere hfind (hown ▸ hbound)
  | elsewhere hother hbound =>
    cases hself.symm.trans hother
    exact .elsewhere hfind hbound
  | wraps hother hwraps htarget hvoid =>
    cases hself.symm.trans hother
    exact .wraps hfind hwraps htarget hvoid

theorem handled_of_bound {under : EntryId} {key : SymbolKey} (hfind : source.find? id = some e)
    (hwhich : under = id ∨ under = e.id) : Handled source (p.bind under ⟨key, true⟩) id := by
  have hbound : ((p.bind under ⟨key, true⟩).symbol? under).isSome := by
    rw [Progress.symbol?_bind, if_pos rfl]
    rfl
  rcases hwhich with rfl | rfl
  · exact .bound hbound
  · exact .elsewhere hfind hbound

/-- What is behind qualifiers is found under its own id. -/
theorem found_of_strips (coherent : source.Coherent) {behind : Option Entry} {bare : Entry}
    (h : Strips source id behind) (hbehind : behind = some bare) :
    source.find? bare.id = some bare := by
  induction h with
  | stop hfind =>
    cases hbehind
    exact coherent _ _ hfind
  | skip _ _ _ ih => exact ih hbehind
  | void => cases hbehind

theorem handled_of_strips (coherent : source.Coherent) {behind : Option Entry} {bare : Entry}
    (h : Strips source id behind) (hbehind : behind = some bare)
    (hbare : Handled source p bare.id) : Handled source p id := by
  induction h with
  | stop hfind =>
    cases hbehind
    exact handled_of_own hfind (coherent _ _ hfind) hbare
  | skip hfind hkind _ ih => exact handled_of_wraps hfind (.qualified hkind) (ih hbehind)
  | void => cases hbehind

/-! ## Walks -/

/-- The ids that a task has to come by. -/
def Task.ids : Task → List EntryId
  | .entry id _ => [id]
  | .members _ rest => rest.map fun m => m.1.type
  | .content _ _ => []

/-- A walk ends well where it binds an entry whose references are handled, under the id that it
asked for or the entry's own. -/
theorem Grounded.completes (h : Grounded source q) (coherent : source.Coherent) {under : EntryId}
    {key : SymbolKey} (hid : source.find? id = some e) (hwhich : under = id ∨ under = e.id)
    (hrefs : ∀ target ∈ e.references, Handled source q target) :
    Grounded source (q.bind under ⟨key, true⟩) ∧
      ∀ other ∈ [id], Handled source (q.bind under ⟨key, true⟩) other := by
  have hunder : source.find? under = some e := by
    rcases hwhich with rfl | rfl
    · exact hid
    · exact coherent _ _ hid
  refine ⟨h.bind hunder fun _ => hrefs, fun other hother => ?_⟩
  cases List.mem_singleton.mp hother
  exact handled_of_bound hid hwhich

/-- A walk that goes well keeps to ids with entries and comes by those of its task. -/
theorem Walks.grounded (coherent : source.Coherent) {task : Task} {key : SymbolKey}
    (h : Walks source task p key q) (hp : Grounded source p) :
    Grounded source q ∧ ∀ id ∈ task.ids, Handled source q id := by
  induction h with
  | bound hbound =>
    refine ⟨hp, fun other hother => ?_⟩
    cases List.mem_singleton.mp hother
    exact .bound (by simp [hbound])
  | elsewhere hfind hbound =>
    refine ⟨hp, fun other hother => ?_⟩
    cases List.mem_singleton.mp hother
    exact .elsewhere hfind (by simp [hbound])
  | base fresh hkind =>
    exact ((hp.push _).push _).completes coherent fresh.found (.inl rfl)
      (by simp [Entry.references, hkind])
  | @compound id name? e p q key kind members declaration fresh hkind hname hsize hwalks ih =>
    obtain ⟨hq, hdone⟩ := ih (hp.enter id (coherent _ _ fresh.found))
    refine hq.completes coherent fresh.found (.inr rfl) fun target htarget => ?_
    obtain ⟨m, hm, rfl⟩ := (mem_references_of_compound hkind).mp htarget
    obtain ⟨place, hplace⟩ := exists_mem_zipIdx hm
    exact hdone m.type (List.mem_map.mpr ⟨(m, place), hplace, rfl⟩)
  | enumeration fresh hkind =>
    exact (((hp.push _).push _).pushConstants _ _).completes coherent fresh.found (.inr rfl)
      (by simp [Entry.references, hkind])
  | array fresh hkind hwalks ih =>
    obtain ⟨hq, hdone⟩ := ih (hp.push _)
    refine hq.completes coherent fresh.found (.inl rfl) ?_
    simpa [Entry.references, hkind] using hdone _ List.mem_cons_self
  | pointer fresh hkind hwalks ih =>
    obtain ⟨hq, hdone⟩ := ih (hp.push _)
    refine hq.completes coherent fresh.found (.inl rfl) ?_
    simpa [Entry.references, hkind] using hdone _ List.mem_cons_self
  | pointerVoid fresh hkind =>
    exact (hp.push _).withVoid.completes coherent fresh.found (.inl rfl)
      (by simp [Entry.references, hkind])
  | qualified fresh hkind hwalks ih =>
    obtain ⟨hq, hdone⟩ := ih (hp.push _)
    refine ⟨hq, fun other hother => ?_⟩
    cases List.mem_singleton.mp hother
    exact handled_of_wraps fresh.found (.qualified hkind) (hdone _ List.mem_cons_self)
  | qualifiedVoid fresh hkind =>
    refine ⟨(hp.push _).withVoid, fun other hother => ?_⟩
    cases List.mem_singleton.mp hother
    exact handled_of_wraps fresh.found (.qualified hkind) (voidWritten_withVoid _)
  | naming fresh hkind hstrips hunnamed hwalks ih =>
    obtain ⟨hq, hdone⟩ := ih (hp.push _)
    have hbehind := handled_of_strips coherent hstrips rfl (hdone _ List.mem_cons_self)
    refine hq.completes coherent fresh.found (.inr rfl) ?_
    simpa [Entry.references, hkind] using hbehind
  | @typedef id target name? e behind p m q key type fresh hkind hstrips hnaming hname hsize htarget
      hwalks ihtarget ih =>
    obtain ⟨hm, hdone⟩ := ihtarget (hp.enter id (coherent _ _ fresh.found))
    obtain ⟨hq, -⟩ := ih hm
    refine hq.completes coherent fresh.found (.inr rfl) ?_
    simpa [Entry.references, hkind] using hwalks.extends.handled (hdone _ List.mem_cons_self)
  | @typedefVoid id name? e p key fresh hkind =>
    exact (hp.enter id (coherent _ _ fresh.found)).completes coherent fresh.found (.inr rfl)
      (by simp [Entry.references, hkind])
  | done => exact ⟨hp, List.forall_mem_nil _⟩
  | @member owner type m place rest extents pointers goal p q r hleads hgoal hrest ihgoal ihrest =>
    obtain ⟨hq, hdone⟩ := ihgoal hp
    obtain ⟨hr, hothers⟩ := ihrest (hq.push _)
    refine ⟨hr, fun other hother => ?_⟩
    rcases List.mem_cons.mp hother with rfl | hother
    · have later := (Extends.push q _).trans hrest.extends
      exact later.handled (handled_of_leads hleads (hdone goal List.mem_cons_self))
    · exact hothers other hother
  | @memberVoid owner m place rest extents pointers p r hleads hrest ihrest =>
    obtain ⟨hr, hothers⟩ := ihrest (hp.withVoid.push _)
    refine ⟨hr, fun other hother => ?_⟩
    rcases List.mem_cons.mp hother with rfl | hother
    · have later := (Extends.push p.withVoid _).trans hrest.extends
      exact later.handled (handled_of_leads hleads (voidWritten_withVoid p))
    · exact hothers other hother
  | lentMembers _ _ ih => exact ⟨(ih hp).1, List.forall_mem_nil _⟩
  | lentConstants => exact ⟨hp.pushConstants _ _, List.forall_mem_nil _⟩
  | nothing => exact ⟨hp, List.forall_mem_nil _⟩

/-! ## Surveys -/

theorem Grounded.restart (h : Grounded source p) : Grounded source { p with steps := #[] } :=
  h.congr rfl fun hv => hv

/-- Where nothing is pending, what an entry behind a handled id refers to is handled. -/
theorem Grounded.handled_of_references (coherent : source.Coherent) (h : Grounded source p)
    (done : p.pending = []) (hid : Handled source p id) (hfind : source.find? id = some e)
    {target : EntryId} (htarget : target ∈ e.references) : Handled source p target := by
  have bound {under : EntryId} (hbound : (p.symbol? under).isSome)
      (hunder : source.find? under = some e) : Handled source p target := by
    unfold Progress.symbol? at hbound
    rw [Option.isSome_map] at hbound
    obtain ⟨b, hb⟩ := Option.isSome_iff_exists.mp hbound
    have hcomplete := Progress.complete_of_pending hb (by simp [done])
    obtain ⟨key, complete⟩ := b
    cases hcomplete
    exact h.references under key hb e hunder target htarget
  cases hid with
  | bound hbound => exact bound hbound hfind
  | elsewhere hother hbound =>
    cases hfind.symm.trans hother
    exact bound hbound (coherent _ _ hfind)
  | wraps hother hwraps hnext =>
    cases hfind.symm.trans hother
    rw [hwraps.references, Option.mem_toList] at htarget
    exact hnext target htarget

/-- A survey that goes well has looked up all its ids, and comes by those that wait for no name. What
its walks keep holds at its end, of all steps that it wrote. -/
theorem surveyFrom_grounded (coherent : source.Coherent) (I : List Step → Progress → Prop)
    (restart : ∀ before p, I before p →
      I (before ++ p.steps.toList) { p with steps := #[] })
    (walk : ∀ before p id key q, Walks source (.entry id none) p key q → I before p → I before q)
    (ids : List EntryId) (before : List Step) {start : Progress} (hstart : Grounded source start)
    (hkeeps : I before { start with steps := #[] }) (hpending : start.pending = [])
    (hok : failureOf (surveyFrom source ids start).resolutions = none) :
    ∃ last : Progress, last.steps = #[] ∧
      I (before ++ stepsOf (surveyFrom source ids start).resolutions) last ∧
      Grounded source last ∧ last.pending = [] ∧
      (∀ id, Handled source start id → Handled source last id) ∧
      ∀ id ∈ ids, ∃ e, source.find? id = some e ∧
        (e.awaitsName = false → Handled source last id) := by
  induction ids generalizing start before with
  | nil =>
    refine ⟨{ start with steps := #[] }, rfl, ?_, hstart.restart, hpending,
      fun id h => h.restart, nofun⟩
    simpa [surveyFrom, stepsOf] using hkeeps
  | cons id rest ih =>
    obtain ⟨e, hfind, hcases⟩ := resolveTop_cases start fun _ => resolveTop_unfailing hok
    unfold surveyFrom at hok ⊢
    rcases hcases with ⟨hawaits, htop⟩ | ⟨-, key, q, hwalks, htop⟩
    · rw [htop] at hok ⊢
      obtain ⟨last, hsteps, hlast, hgrounded, hdone, hkept, hrest⟩ :=
        ih before hstart hkeeps hpending hok
      refine ⟨last, hsteps, hlast, hgrounded, hdone, hkept, fun other hother => ?_⟩
      rcases List.mem_cons.mp hother with rfl | hother
      · refine ⟨e, hfind, fun hnot => ?_⟩
        rw [hawaits] at hnot
        cases hnot
      · exact hrest other hother
    · rw [htop] at hok ⊢
      obtain ⟨hq, hhandled⟩ := hwalks.grounded coherent hstart.restart
      have hqkeeps := restart _ _ (walk _ _ _ _ _ hwalks hkeeps)
      have hqpending : q.pending = [] := List.subset_nil.mp (hpending ▸ hwalks.pending)
      have hokrest : failureOf (surveyFrom source rest q).resolutions = none :=
        failureOf_eq_none.mpr fun r hr =>
          failureOf_eq_none.mp hok r (List.mem_cons_of_mem _ hr)
      obtain ⟨last, hsteps, hlast, hgrounded, hdone, hkept, hrest⟩ :=
        ih _ hq hqkeeps hqpending hokrest
      refine ⟨last, hsteps, ?_, hgrounded, hdone, fun other hother => ?_, fun other hother => ?_⟩
      · simpa using hlast
      · exact hkept other (hwalks.extends.handled hother.restart)
      · rcases List.mem_cons.mp hother with rfl | hother
        · exact ⟨e, hfind, fun _ => hkept _ (hhandled _ List.mem_cons_self)⟩
        · exact hrest other hother

theorem grounded_empty (source : Source) : Grounded source {} where
  found _ h := by cases h
  references _ _ h := by cases h

/-- A survey without failure has found every listed id and every id that it had to follow. -/
theorem found_of_survey (coherent : source.Coherent) (hok : source.failure? = none) :
    (∀ id ∈ source.topLevel, (source.find? id).isSome) ∧
      ∀ id, source.Needed id → (source.find? id).isSome := by
  obtain ⟨last, -, -, hlast, hdone, -, hlisted⟩ :=
    surveyFrom_grounded coherent (fun _ _ => True) (fun _ _ _ => trivial)
      (fun _ _ _ _ _ _ _ => trivial) source.topLevel [] (grounded_empty source) trivial rfl hok
  refine ⟨fun id hid => ?_, fun id hid => hlast.found_of_handled ?_⟩
  · obtain ⟨e, hfind, -⟩ := hlisted id hid
    simp [hfind]
  · induction hid with
    | listed hid hfind hawaits =>
      obtain ⟨e, hother, hhandled⟩ := hlisted _ hid
      cases hfind.symm.trans hother
      exact hhandled hawaits
    | step _ hfind htarget ih =>
      exact hlast.handled_of_references coherent hdone ih hfind htarget

/-- The needed ids, with the own ids of their entries. -/
theorem closed_needed (coherent : source.Coherent) : Closed source fun id =>
    source.Needed id ∨ ∃ other e, source.Needed other ∧ source.find? other = some e ∧ id = e.id where
  own id e hid hfind := by
    rcases hid with hid | ⟨other, f, hother, hf, rfl⟩
    · exact .inr ⟨id, e, hid, hfind, rfl⟩
    · cases hfind.symm.trans (coherent _ _ hf)
      exact .inr ⟨other, e, hother, hf, rfl⟩
  references id e hid hfind target htarget := by
    rcases hid with hid | ⟨other, f, hother, hf, rfl⟩
    · exact .inl (hid.step hfind htarget)
    · cases hfind.symm.trans (coherent _ _ hf)
      exact .inl (hother.step hf htarget)

/-- A survey that fails does so at an id without an entry, which is listed or had to be followed,
or at the end of a chain that is too long. -/
theorem failure_of_survey (coherent : source.Coherent) {e : Failure}
    (h : source.failure? = some e) :
    (∃ id, e = .unresolved id ∧ source.find? id = none ∧
      (id ∈ source.topLevel ∨ source.Needed id)) ∨ ∃ id, e = tooDeep id := by
  obtain ⟨r, hr, he⟩ := List.exists_of_findSome?_eq_some h
  have hat := surveyFrom_at (closed_needed coherent) source.topLevel
    (fun id hid entry hfind hawaits => .inl (.listed hid hfind hawaits)) {} hr he
  cases hat with
  | @unresolved id hid hnone =>
    refine .inl ⟨id, rfl, hnone, ?_⟩
    rcases hid with hid | hid | ⟨other, f, -, hf, rfl⟩
    · exact .inl hid
    · exact .inr hid
    · rw [coherent _ _ hf] at hnone
      cases hnone
  | tooDeep => exact .inr ⟨_, rfl⟩

end Survey

end LayoutGraph
