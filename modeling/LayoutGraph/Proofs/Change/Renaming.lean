-- What a remap does to the fields. Its plans are carried out one after
-- another, so a plan also catches the fields that a plan before it has moved.
-- Where no new name is the old name of a later mapping, none is caught twice,
-- and the remap is a renaming of all types at once.
import LayoutGraph.Proofs.Change.Check
import LayoutGraph.Proofs.Change.Retyping
import LayoutGraph.Proofs.HalfDone

namespace LayoutGraph

open Chain Recording

/-! ## Fields of some types -/

/-- The fields of some types are given the target. -/
def Retyping.ofTypes (sources : List SymbolId) (target : SymbolId) : Retyping :=
  ⟨fun f => f.type ∈ sources, target⟩

namespace Retyping

variable {source target : SymbolId} {sources : List SymbolId}

theorem apply_ofTypes_nil : (ofTypes [] target).apply = id := by
  funext f
  simp [apply, ofTypes]

/-- The first type and then the others, or all of them. -/
theorem apply_ofTypes_cons (apart : target ∉ sources) (f : Field) :
    (ofTypes sources target).apply (if f.type = source then { f with type := target } else f) =
      (ofTypes (source :: sources) target).apply f := by
  by_cases h : f.type = source
  · simp [apply, ofTypes, h, apart]
  · simp [apply, ofTypes, h]

theorem apart_ofTypes (once : (source :: sources).Nodup) (apart : target ∉ sources) :
    Apart [ofTypes [source] target, ofTypes sources target] := by
  apply List.pairwise_pair.mpr
  intro f h
  have type : f.type = source := by simpa [ofTypes] using h
  have fresh : source ∉ sources := (List.nodup_cons.mp once).1
  simp [ofTypes, type, fresh, apart]

theorem length_filter_ofTypes_cons (once : (source :: sources).Nodup) (apart : target ∉ sources)
    (fields : List Field) :
    (fields.filter fun f => f.type = source).length +
        ((fields.map fun f => if f.type = source then { f with type := target } else f).filter
          (ofTypes sources target).hits).length =
      (fields.filter (ofTypes (source :: sources) target).hits).length := by
  have first : (fun f : Field => if f.type = source then { f with type := target } else f) =
      (ofTypes [source] target).apply := by
    funext f
    simp [apply, ofTypes]
  have sum := length_filter_hitAny (apart_ofTypes once apart) fields
  rw [← first] at sum
  simpa [ofTypes] using sum

end Retyping

/-- The type of the field is a symbol of the name. -/
def Graph.TypeNamed (g : Graph) (f : Field) (name : String) : Prop :=
  ∃ x ∈ g.symbols, x.name = name ∧ x.id = f.type

instance (g : Graph) (f : Field) (name : String) : Decidable (g.TypeNamed f name) :=
  inferInstanceAs (Decidable (∃ x ∈ g.symbols, x.name = name ∧ x.id = f.type))

namespace Change

/-! ## One plan -/

variable {r : Recorder AnyStore}

theorem retargetAll_ok (sound : r.store.Sound) {target : SymbolId}
    (there : ∃ x ∈ r.store.graph.symbols, x.id = target) {sources : List SymbolId}
    (once : sources.Nodup) (apart : target ∉ sources) :
    ∃ t, retargetAll target sources r =
        .ok (r.store.graph.fields.filter (Retyping.ofTypes sources target).hits).length t ∧
      t.store.Sound ∧ t.store.graph = { r.store.graph with
        fields := r.store.graph.fields.map (Retyping.ofTypes sources target).apply } := by
  induction sources generalizing r with
  | nil =>
    have none : r.store.graph.fields.filter (Retyping.ofTypes [] target).hits = [] := by
      simp [Retyping.ofTypes]
    rw [none, Retyping.apply_ofTypes_nil, List.map_id]
    exact ⟨r, rfl, sound, rfl⟩
  | cons source rest ih =>
    have apart : target ∉ rest := fun h => apart (List.mem_cons_of_mem _ h)
    obtain ⟨next, served, hnext⟩ := sound.retargetFields source there
    have thereNext : ∃ x ∈ next.graph.symbols, x.id = target := by
      rw [hnext]
      exact there
    obtain ⟨t, ran, soundT, ht⟩ :=
      ih (r := { r with store := next }) (sound.served served) thereNext once.of_cons apart
    refine ⟨t, ?_, soundT, ?_⟩
    · unfold retargetAll
      rw [bind_of_ok (ask_of_ok served), bind_of_ok ran]
      dsimp only
      rw [hnext, Retyping.length_filter_ofTypes_cons once apart]
      rfl
    · rw [ht, hnext]
      dsimp only
      rw [List.map_map]
      congr 1
      exact List.map_congr_left fun f _ => Retyping.apply_ofTypes_cons apart f

def RemapPlan.retyping (plan : RemapPlan) : Retyping := .ofTypes plan.sources plan.target

/-- What a plan reports. -/
def RemapPlan.entry (plan : RemapPlan) (fields : List Field) : Remapped :=
  ⟨plan.mapping, plan.target, (fields.filter plan.retyping.hits).length⟩

/-- The target of a plan is there, and it is none of the sources, which differ. -/
structure RemapPlan.Standing (g : Graph) (plan : RemapPlan) : Prop where
  there : ∃ x ∈ g.symbols, x.id = plan.target
  once : plan.sources.Nodup
  apart : plan.target ∉ plan.sources

theorem applyPlan_ok (sound : r.store.Sound) {plan : RemapPlan}
    (standing : plan.Standing r.store.graph) :
    ∃ t, applyPlan plan r = .ok (plan.entry r.store.graph.fields) t ∧ t.store.Sound ∧
      t.store.graph = { r.store.graph with
        fields := r.store.graph.fields.map plan.retyping.apply } := by
  obtain ⟨t, ran, soundT, ht⟩ :=
    retargetAll_ok sound standing.there standing.once standing.apart
  let event : Log.Event := .remapped plan.mapping.old plan.mapping.new plan.target
    (r.store.graph.fields.filter plan.retyping.hits).length
  refine ⟨{ t with log := t.log.push event }, ?_, soundT, ht⟩
  unfold applyPlan
  rw [bind_of_ok ran]
  rfl

/-! ## All plans -/

/-- Each plan reports the fields that it finds behind the plans before it. -/
def entries (fields : List Field) : List RemapPlan → List Remapped
  | [] => []
  | plan :: rest => plan.entry fields :: entries (fields.map plan.retyping.apply) rest

/-- What the plans make of one field, one after another. -/
def retypeAll (plans : List RemapPlan) (f : Field) : Field :=
  Retyping.applyAll (plans.map RemapPlan.retyping) f

theorem applyPlans_ok (sound : r.store.Sound) {plans : List RemapPlan}
    (standing : ∀ plan ∈ plans, plan.Standing r.store.graph) :
    ∃ t, plans.mapM applyPlan r = .ok (entries r.store.graph.fields plans) t ∧ t.store.Sound ∧
      t.store.graph = { r.store.graph with
        fields := r.store.graph.fields.map (retypeAll plans) } := by
  induction plans generalizing r with
  | nil =>
    refine ⟨r, rfl, sound, ?_⟩
    rw [show retypeAll [] = id from rfl, List.map_id]
  | cons plan rest ih =>
    obtain ⟨head, others⟩ := List.forall_mem_cons.mp standing
    obtain ⟨m, ran, soundM, hm⟩ := applyPlan_ok sound head
    have standingM : ∀ plan ∈ rest, plan.Standing m.store.graph := by
      intro plan hplan
      rw [hm]
      exact ⟨(others plan hplan).there, (others plan hplan).once, (others plan hplan).apart⟩
    obtain ⟨t, ranRest, soundT, ht⟩ := ih soundM standingM
    refine ⟨t, ?_, soundT, ?_⟩
    · rw [List.mapM_cons, bind_of_ok ran, bind_of_ok ranRest, hm]
      rfl
    · rw [ht, hm]
      dsimp only
      rw [List.map_map]
      rfl

/-! ## Remaps -/

theorem RemapPlan.Fits.mem_sources {g : Graph} {plan : RemapPlan} (h : plan.Fits g)
    {id : SymbolId} :
    id ∈ plan.sources ↔ ∃ x ∈ g.symbols, x.name = plan.mapping.old ∧ x.id = id := by
  rw [h.sources, List.mem_map]
  simp only [Graph.mem_symbolsNamed, and_assoc]

/-- The target has another name than the sources. -/
theorem RemapPlan.Fits.standing {g : Graph} (ordered : g.Ordered) {plan : RemapPlan}
    (h : plan.Fits g) : plan.Standing g := by
  obtain ⟨target, lowest, hid⟩ := h.target
  refine ⟨⟨target, lowest.mem, hid.symm⟩, ?_, fun hmem => ?_⟩
  · rw [h.sources]
    exact (ordered.symbolIds_once.sublist (List.filter_sublist.map _))
  obtain ⟨x, hx, hname, hsame⟩ := h.mem_sources.mp hmem
  cases ordered.symbol_eq hx lowest.mem (hsame.trans hid)
  exact h.moves (hname.symm.trans lowest.named)

/-- A remap carries out its plans, or it stops at a check and has changed nothing. -/
theorem remap_ends (sound : r.store.Sound) (mappings : List Mapping) :
    Ends
      (fun report t => Remappable r.store.graph mappings ∧ ∃ plans : List RemapPlan,
        plans.map RemapPlan.mapping = mappings ∧ (∀ plan ∈ plans, plan.Fits r.store.graph) ∧
        report = entries r.store.graph.fields plans ∧
        t.store.graph = { r.store.graph with
          fields := r.store.graph.fields.map (retypeAll plans) })
      (fun e t => t = r ∧ ∃ before m rest, mappings = before ++ m :: rest ∧
        Remappable r.store.graph before ∧ m.Offends r.store.graph before e)
      (remap mappings r) := by
  unfold remap
  refine ends_bind ((planMappings_ends sound mappings).mono ?_ fun _ _ h => h)
  rintro plans t ⟨rfl, ok, hplans, fits⟩
  have standing : ∀ plan ∈ plans, plan.Standing t.store.graph :=
    fun plan h => (fits plan h).standing sound.ordered
  obtain ⟨m, ran, -, hm⟩ := applyPlans_ok sound standing
  have committed : ask .commit m = .ok () m := ask_of_ok (Faultless.commit m.store)
  rw [bind_of_ok ran, bind_of_ok committed]
  exact ⟨ok, plans, hplans, fits, rfl, hm⟩

/-! ## Renaming at once -/

theorem RemapPlan.Fits.hits {g : Graph} {plan : RemapPlan} (h : plan.Fits g) {f : Field} :
    plan.retyping.hits f = true ↔ g.TypeNamed f plan.mapping.old := by
  show decide (f.type ∈ plan.sources) = true ↔ _
  rw [decide_eq_true_iff, h.mem_sources]
  rfl

theorem hitAny_iff {g : Graph} {plans : List RemapPlan} (fits : ∀ plan ∈ plans, plan.Fits g)
    {f : Field} : Retyping.hitAny (plans.map RemapPlan.retyping) f = true ↔
      ∃ m ∈ plans.map RemapPlan.mapping, g.TypeNamed f m.old := by
  unfold Retyping.hitAny
  rw [List.any_map, List.any_eq_true]
  constructor
  · rintro ⟨plan, hplan, hit⟩
    exact ⟨_, List.mem_map_of_mem hplan, (fits plan hplan).hits.mp hit⟩
  · rintro ⟨m, hm, named⟩
    obtain ⟨plan, hplan, rfl⟩ := List.mem_map.mp hm
    exact ⟨plan, hplan, (fits plan hplan).hits.mpr named⟩

/-- Two plans are apart where the new name of the one is not the old name of the other. -/
theorem apart_of_fits {g : Graph} (ordered : g.Ordered) {plans : List RemapPlan}
    (fits : ∀ plan ∈ plans, plan.Fits g) (ok : Remappable g (plans.map RemapPlan.mapping))
    (unchained : (plans.map RemapPlan.mapping).Pairwise fun m later => m.new ≠ later.old) :
    Retyping.Apart (plans.map RemapPlan.retyping) := by
  have once : plans.Pairwise fun p q => p.mapping.old ≠ q.mapping.old := by
    have h := ok.once
    rw [List.map_map] at h
    exact List.pairwise_map.mp h
  apply List.pairwise_map.mpr
  refine ((List.pairwise_map.mp unchained).and once).imp_of_mem ?_
  rintro p q hp hq ⟨unchained, different⟩ f hit
  obtain ⟨x, hx, hname, hid⟩ := (fits p hp).hits.mp hit
  constructor
  · apply Bool.eq_false_iff.mpr
    intro hit'
    obtain ⟨y, hy, hname', hid'⟩ := (fits q hq).hits.mp hit'
    cases ordered.symbol_eq hx hy (hid.trans hid'.symm)
    exact different (hname.symm.trans hname')
  · apply Bool.eq_false_iff.mpr
    intro hit'
    obtain ⟨y, hy, hname', hid'⟩ := (fits q hq).hits.mp hit'
    obtain ⟨target, lowest, htarget⟩ := (fits p hp).target
    cases ordered.symbol_eq hy lowest.mem (hid'.trans htarget)
    exact unchained (lowest.named.symm.trans hname')

/-- Where the plans are apart, each field that is hit is counted once. -/
theorem fieldsRewritten_entries {plans : List RemapPlan}
    (apart : Retyping.Apart (plans.map RemapPlan.retyping)) (fields : List Field) :
    fieldsRewritten (entries fields plans) =
      (fields.filter (Retyping.hitAny (plans.map RemapPlan.retyping))).length := by
  induction plans generalizing fields with
  | nil => simp [fieldsRewritten, entries]
  | cons plan rest ih =>
    show (fields.filter plan.retyping.hits).length +
      fieldsRewritten (entries (fields.map plan.retyping.apply) rest) = _
    rw [ih (List.pairwise_cons.mp apart).2]
    exact Retyping.length_filter_hitAny apart fields

theorem map_mapping_entries (fields : List Field) (plans : List RemapPlan) :
    (entries fields plans).map Remapped.mapping = plans.map RemapPlan.mapping := by
  induction plans generalizing fields with
  | nil => rfl
  | cons plan rest ih => exact congrArg (plan.mapping :: ·) (ih _)

theorem exists_of_mem_entries {fields : List Field} {plans : List RemapPlan} {entry : Remapped}
    (h : entry ∈ entries fields plans) :
    ∃ plan ∈ plans, entry.mapping = plan.mapping ∧ entry.target = plan.target := by
  induction plans generalizing fields with
  | nil => cases h
  | cons plan rest ih =>
    rcases List.mem_cons.mp h with rfl | h
    · exact ⟨plan, List.mem_cons_self, rfl, rfl⟩
    · obtain ⟨later, hlater, same⟩ := ih h
      exact ⟨later, List.mem_cons_of_mem _ hlater, same⟩

/-- All types of the old names are renamed at once: each field of such a type has the target that is
reported for the name, and is counted once; nothing else is another. -/
structure RenamesAtOnce (before after : Graph) (mappings : List Mapping)
    (report : List Remapped) : Prop where
  inOrder : report.map Remapped.mapping = mappings
  targets : ∀ entry ∈ report, ∃ target, before.Lowest entry.mapping.new target ∧
    entry.target = target.id
  tables : after = { before with fields := after.fields }
  fields : List.Forall₂
    (fun f f' => f.OnlyRetyped f' ∧
      (∀ entry ∈ report, before.TypeNamed f entry.mapping.old → f'.type = entry.target) ∧
      ((∀ m ∈ mappings, ¬ before.TypeNamed f m.old) → f' = f))
    before.fields after.fields
  count : fieldsRewritten report =
    (before.fields.filter fun f => ∃ m ∈ mappings, before.TypeNamed f m.old).length

/-- A remap, on a store in memory or in a database, renames all types at once, where no mapping's
new name is the old name of a later mapping. -/
theorem a_remap_renames_all_types_at_once (s : AnyStore) (sound : s.Sound)
    {mappings : List Mapping} (unchained : mappings.Pairwise fun m later => m.new ≠ later.old)
    {report : List Remapped} {t : Recorder AnyStore}
    (made : remap mappings { store := s } = .ok report t) :
    RenamesAtOnce s.graph t.store.graph mappings report := by
  have ends := remap_ends (r := { store := s }) sound mappings
  rw [made] at ends
  obtain ⟨ok, plans, rfl, fits, rfl, after⟩ := ends
  have apart := apart_of_fits sound.ordered fits ok unchained
  constructor
  · exact map_mapping_entries _ _
  · intro entry hentry
    obtain ⟨plan, hplan, hmapping, htarget⟩ := exists_of_mem_entries hentry
    rw [hmapping, htarget]
    exact (fits plan hplan).target
  · rw [after]
  · rw [after]
    show List.Forall₂ _ s.graph.fields (s.graph.fields.map (retypeAll plans))
    rw [List.forall₂_map_right_iff, List.forall₂_same]
    intro f hf
    refine ⟨Retyping.onlyRetyped_applyAll _ f, ?_, ?_⟩
    · intro entry hentry named
      obtain ⟨plan, hplan, hmapping, htarget⟩ := exists_of_mem_entries hentry
      rw [hmapping] at named
      have hit := (fits plan hplan).hits.mpr named
      rw [htarget, retypeAll, Retyping.applyAll_of_hit apart (List.mem_map_of_mem hplan) hit]
      rfl
    · intro unnamed
      apply Retyping.applyAll_of_miss
      rw [Bool.eq_false_iff, Ne, hitAny_iff fits]
      rintro ⟨m, hm, named⟩
      exact unnamed m hm named
  · rw [fieldsRewritten_entries apart]
    congr 1
    apply List.filter_congr
    intro f hf
    rw [Bool.eq_iff_iff, decide_eq_true_iff]
    exact hitAny_iff fits

/-! ## Chains of names -/

/-- The report of a change that was made, and the rows that it left. -/
def made? {α : Type} : EStateM.Result Failure (Recorder AnyStore) α → Option (α × Graph)
  | .ok report t => some (report, t.store.graph)
  | .error _ _ => none

theorem made?_eq_some {α : Type} {result : EStateM.Result Failure (Recorder AnyStore) α}
    {report : α} {g : Graph} (h : made? result = some (report, g)) :
    ∃ t, result = .ok report t ∧ t.store.graph = g := by
  unfold made? at h
  split at h <;> cases h
  exact ⟨_, rfl, rfl⟩

/-- The rows of the words, in memory. -/
def wordsInMemory : AnyStore := (AnyStore.memory {}).after [.parse words]

theorem sound_wordsInMemory : wordsInMemory.Sound := AnyStore.sound_memory.after _

theorem closed_wordsInMemory : wordsInMemory.graph.Closed := by constructor <;> decide +kernel

/-- The rows of the words with other types of the two fields of the pair. -/
def wordsTyped (short long : SymbolId) : Graph :=
  { wordsInMemory.graph with
    fields := [⟨⟨1⟩, ⟨2⟩, "short", 0, short, none, true, none, none, 0⟩,
      ⟨⟨2⟩, ⟨2⟩, "long", 8, long, none, true, none, none, 0⟩] }

/-- Words become cells when the cells before them have become pairs. -/
theorem words_become_cells_behind_cells_that_become_pairs :
    let mappings : List Mapping := [⟨"cell", "pair"⟩, ⟨"word", "cell"⟩]
    wordsInMemory.Sound ∧ mappings.Pairwise (fun m later => m.new ≠ later.old) ∧
      ∃ report t, remap mappings { store := wordsInMemory } = .ok report t ∧
        RenamesAtOnce wordsInMemory.graph t.store.graph mappings report := by
  intro mappings
  have unchained : mappings.Pairwise fun m later => m.new ≠ later.old := by decide
  obtain ⟨t, made, -⟩ := made?_eq_some
    (show made? (remap mappings { store := wordsInMemory }) =
      some ([⟨⟨"cell", "pair"⟩, ⟨2⟩, 0⟩, ⟨⟨"word", "cell"⟩, ⟨1⟩, 2⟩], wordsTyped ⟨1⟩ ⟨1⟩) by
        decide +kernel)
  exact ⟨sound_wordsInMemory, unchained, _, t, made,
    a_remap_renames_all_types_at_once wordsInMemory sound_wordsInMemory unchained made⟩

/-- Where words become cells and cells then become pairs, the fields of the words are pairs, though
cells are reported, and each of them is counted twice. -/
theorem words_that_become_cells_are_carried_on_to_pairs :
    let mappings : List Mapping := [⟨"word", "cell"⟩, ⟨"cell", "pair"⟩]
    wordsInMemory.Sound ∧ wordsInMemory.graph.Closed ∧
      ∃ report t, remap mappings { store := wordsInMemory } = .ok report t ∧
        report = [⟨⟨"word", "cell"⟩, ⟨1⟩, 2⟩, ⟨⟨"cell", "pair"⟩, ⟨2⟩, 2⟩] ∧
        t.store.graph = wordsTyped ⟨2⟩ ⟨2⟩ ∧
        ¬ RenamesAtOnce wordsInMemory.graph t.store.graph mappings report := by
  intro mappings
  obtain ⟨t, made, after⟩ := made?_eq_some
    (show made? (remap mappings { store := wordsInMemory }) =
      some ([⟨⟨"word", "cell"⟩, ⟨1⟩, 2⟩, ⟨⟨"cell", "pair"⟩, ⟨2⟩, 2⟩], wordsTyped ⟨2⟩ ⟨2⟩) by
        decide +kernel)
  refine ⟨sound_wordsInMemory, closed_wordsInMemory, _, t, made, rfl, after, fun renamed => ?_⟩
  exact absurd renamed.count (by decide +kernel)

end Change

end LayoutGraph
