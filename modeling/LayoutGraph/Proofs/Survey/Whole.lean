-- The survey of a source that goes well. When the last walk has ended no
-- entry is pending, so everything that was come by is settled, and from the
-- listed entries on this reaches every entry that can be reached.
import LayoutGraph.Proofs.Survey.Faithful
import LayoutGraph.Proofs.Survey.Yield

namespace LayoutGraph.Survey

variable {source : Source} {before : List Step} {p : Progress}

/-! ## Nothing pending -/

/-- An entry that is handled while nothing is pending is settled. -/
theorem settled_of_handled (coherent : source.Coherent) (hp : Faithful source before p)
    (done : p.pending = []) {id : EntryId} {e : Entry} (h : Handled source p id)
    (hfind : source.find? id = some e) : Settled source before p e := by
  have settled {under : EntryId} (hbound : (p.symbol? under).isSome)
      (hunder : source.find? under = some e) : Settled source before p e := by
    unfold Progress.symbol? at hbound
    rw [Option.isSome_map] at hbound
    obtain ⟨b, hb⟩ := Option.isSome_iff_exists.mp hbound
    have hcomplete := Progress.complete_of_pending hb (by simp [done])
    obtain ⟨key, complete⟩ := b
    cases hcomplete
    exact hp.settled under key hb e hunder
  cases h with
  | bound hbound => exact settled hbound hfind
  | elsewhere hother hbound =>
    cases hfind.symm.trans hother
    exact settled hbound (coherent _ _ hfind)
  | wraps hother hwraps htarget hvoid =>
    cases hfind.symm.trans hother
    refine settled_of_wraps hwraps ?_
    cases hwhich : ‹Option EntryId› with
    | some target => exact htarget target hwhich
    | none => exact hvoid hwhich

theorem handled_of_reachable (coherent : source.Coherent) (hp : Faithful source before p)
    (done : p.pending = []) (listed : ∀ id ∈ source.topLevel, Handled source p id) {id : EntryId}
    (h : source.Reachable id) : Handled source p id := by
  induction h with
  | listed hid => exact listed _ hid
  | step _ hfind htarget ih =>
    exact (settled_of_handled coherent hp done ih hfind).references _ htarget

/-! ## Top-level entries -/

/-- A top-level entry without failure waits for a name, so nothing comes of it, or it is walked. -/
theorem resolveTop_cases {id : EntryId} (start : Progress)
    (hok : ∀ r, (resolveTop source id start).1 = some r → r.failure = none) :
    ∃ e, source.find? id = some e ∧
      (e.awaitsName = true ∧ resolveTop source id start = (none, start) ∨
        e.awaitsName = false ∧
          ∃ key q, Walks source (.entry id none) { start with steps := #[] } key q ∧
            resolveTop source id start = (some { entry := id, steps := q.steps }, q)) := by
  unfold resolveTop at hok ⊢
  cases hentry : source.entry id with
  | error e =>
    rw [hentry] at hok
    cases hok _ rfl
  | ok e =>
    refine ⟨e, entry_eq_ok.mp hentry, ?_⟩
    rw [hentry] at hok
    cases hawaits : e.awaitsName with
    | true => exact .inl ⟨rfl, by simp [hawaits]⟩
    | false =>
      simp only [hawaits] at hok ⊢
      cases hresolve : resolve source fullRoom id none { start with steps := #[] } with
      | ok key q => exact .inr ⟨trivial, key, q, resolve_walks (Nat.le_refl _) hresolve, rfl⟩
      | error e q =>
        rw [hresolve] at hok
        cases hok _ rfl

theorem resolveTop_walks (named : source.Named) {id : EntryId} (hid : source.Reachable id)
    (start : Progress) (hok : ∀ r, (resolveTop source id start).1 = some r → r.failure = none) :
    ∃ key q, Walks source (.entry id none) { start with steps := #[] } key q ∧
      resolveTop source id start = (some { entry := id, steps := q.steps }, q) := by
  obtain ⟨e, hfind, ⟨hawaits, -⟩ | ⟨-, h⟩⟩ := resolveTop_cases start hok
  · rw [named e ⟨id, hid, hfind⟩] at hawaits
    cases hawaits
  · exact h

/-- The walk goes on with no steps of its own. -/
theorem Faithful.restart (h : Faithful source before p) :
    Faithful source (before ++ p.steps.toList) { p with steps := #[] } where
  resolves := h.resolves
  justified s hs := h.justified s (wrote_restart.mp hs)
  void hv := wrote_restart.mpr (h.void hv)
  settled id key hid e he := (h.settled id key hid e he).mono (later_restart before p)

theorem Handled.restart {id : EntryId} (h : Handled source p id) :
    Handled source { p with steps := #[] } id := by
  refine h.mono (fun other hother => ?_) fun hv => ?_
  · exact hother
  · exact hv

theorem surveyFrom_faithful (coherent : source.Coherent) (named : source.Named)
    (ids : List EntryId) (hids : ∀ id ∈ ids, source.Reachable id) {start : Progress}
    (hstart : Faithful source before { start with steps := #[] }) (hpending : start.pending = [])
    (hok : failureOf (surveyFrom source ids start).resolutions = none) :
    ∃ last : Progress, last.steps = #[] ∧
      Faithful source (before ++ stepsOf (surveyFrom source ids start).resolutions) last ∧
      last.pending = [] ∧ (∀ id, Handled source start id → Handled source last id) ∧
      ∀ id ∈ ids, Handled source last id := by
  induction ids generalizing start before with
  | nil =>
    refine ⟨{ start with steps := #[] }, rfl, ?_, hpending, fun id h => h.restart, nofun⟩
    simpa [surveyFrom, stepsOf] using hstart
  | cons id rest ih =>
    have hid := hids id List.mem_cons_self
    obtain ⟨key, q, hwalks, htop⟩ :=
      resolveTop_walks named hid start fun _ => resolveTop_unfailing hok
    unfold surveyFrom at hok ⊢
    rw [htop] at hok ⊢
    obtain ⟨hq, -, hhandled⟩ := hwalks.faithful coherent named ⟨rfl, hid⟩ hstart
    have hqpending : q.pending = [] := List.subset_nil.mp (hpending ▸ hwalks.pending)
    obtain ⟨last, hsteps, hlast, hdone, hkept, hrest⟩ :=
      ih (fun other h => hids other (List.mem_cons_of_mem _ h)) hq.restart hqpending
        (failureOf_eq_none.mpr fun r hr =>
          failureOf_eq_none.mp hok r (List.mem_cons_of_mem _ hr))
    refine ⟨last, hsteps, ?_, hdone, fun other h => ?_, fun other h => ?_⟩
    · simpa using hlast
    · exact hkept other (hwalks.extends.handled h.restart)
    · rcases List.mem_cons.mp h with rfl | h
      · exact hkept _ hhandled
      · exact hrest other h

/-! ## The whole source -/

/-- The steps are what the source says: no more, and nothing less. -/
structure Exact (source : Source) (steps : List Step) : Prop where
  justified : ∀ s ∈ steps, Justified source s
  symbols : ∀ e, source.Reaches e → OwnsSymbol e →
    ∃ key, OwnKey source e key ∧ .symbol key ∈ steps
  void : source.MeetsVoid → .symbol voidKey ∈ steps
  fields : ∀ key, HasMember source key →
    ∃ step : FieldStep, .field step ∈ steps ∧ step.owner = key.owner ∧ step.name = key.name
  constants : ∀ key value, ConstantOf source key value →
    ∃ c : Constant, .enumerator key.owner c ∈ steps ∧ c.name = key.name

theorem faithful_empty (source : Source) : Faithful source [] {} where
  resolves _ _ h := by cases h
  justified s hs := by simp [Wrote] at hs
  void h := by cases h
  settled _ _ h := by cases h

/-- A survey without failure yields exactly what the source says. -/
theorem exact_of_survey (coherent : source.Coherent) (named : source.Named)
    (hok : source.failure? = none) : Exact source source.steps := by
  obtain ⟨last, hsteps, hlast, hdone, -, hlisted⟩ := surveyFrom_faithful coherent named
    source.topLevel (fun _ => .listed) (faithful_empty source) rfl hok
  rw [List.nil_append] at hlast
  have hwrote : ∀ s, Wrote source.steps last s ↔ s ∈ source.steps := fun _ =>
    wrote_of_no_steps hsteps
  have settled : ∀ e, source.Reaches e → Settled source source.steps last e := by
    rintro e ⟨id, hid, hfind⟩
    exact settled_of_handled coherent hlast hdone
      (handled_of_reachable coherent hlast hdone hlisted hid) hfind
  refine ⟨fun s hs => hlast.justified s ((hwrote s).mpr hs), fun e he howns => ?_, ?_, ?_, ?_⟩
  · obtain ⟨key, hkey, hsymbol⟩ := (settled e he).symbol howns
    exact ⟨key, hkey, (hwrote _).mp hsymbol⟩
  · rintro ⟨e, he, hkind⟩
    have hwraps : Wraps e none := by
      rcases hkind with hkind | hkind
      · exact .pointer hkind
      · exact .qualified hkind
    exact (hwrote _).mp (hlast.void ((settled e he).void hwraps))
  · rintro _ ⟨he, hkey, hlends, hb, hm⟩
    obtain ⟨step, hstep, howner, hname⟩ :=
      ((settled _ he).content _ hkey _ hlends).fields _ _ _ hb _ _ hm
    exact ⟨step, (hwrote _).mp hstep, howner, hname⟩
  · rintro _ _ ⟨he, hkey, hlends, hb, hc⟩
    exact ⟨_, (hwrote _).mp (((settled _ he).content _ hkey _ hlends).constants _ hb _ hc), rfl⟩

end LayoutGraph.Survey
