-- What overrides do to a graph, one after another. Symbols and constants are
-- added as to a table, so the first request of a key decides; the fields of
-- the requests differ, so each has the type that its own request gives it.
import LayoutGraph.Proofs.Change.Renaming
import LayoutGraph.Proofs.Change.Replacing

namespace LayoutGraph

open Chain Recording

namespace Change

/-! ## Fields of different requests -/

def Applied.retyping (done : Applied) : Retyping :=
  .ofField done.plan.field.id done.entry.replacement

theorem Applied.hits (d : Applied) (f : Field) :
    d.retyping.hits f = true ↔ f.id = d.plan.field.id := decide_eq_true_iff

/-- Requests for different places are about different fields. -/
theorem apart_of_places {g : Graph} (ordered : g.Ordered) {done : List Applied}
    (fits : ∀ d ∈ done, d.plan.Fits g) (once : (done.map fun d => d.plan.request.place).Nodup) :
    Retyping.Apart (done.map Applied.retyping) := by
  apply List.pairwise_map.mpr
  refine (List.pairwise_map.mp once).imp_of_mem fun {p q} hp hq different f hit => ?_
  have hp := fits p hp
  have hq := fits q hq
  have other : f.id ≠ q.plan.field.id := by
    intro same
    have field : p.plan.field = q.plan.field :=
      ordered.field_eq hp.field hq.field (((p.hits f).mp hit).symm.trans same)
    have keys : (⟨p.plan.owner.id, p.plan.request.field⟩ : FieldKey) =
        ⟨q.plan.owner.id, q.plan.request.field⟩ := by
      rw [← hp.key, ← hq.key, field]
    have owners : p.plan.owner = q.plan.owner :=
      ordered.symbol_eq hp.owner.mem hq.owner.mem (congrArg FieldKey.owner keys)
    have names : p.plan.request.symbol = q.plan.request.symbol := by
      rw [← hp.owner.named, ← hq.owner.named, owners]
    exact different (Prod.ext names (congrArg FieldKey.name keys))
  exact ⟨decide_eq_false other, decide_eq_false other⟩

/-! ## One override after another -/

inductive MakesAll : Graph → List Applied → Graph → Prop
  | nil (g : Graph) : MakesAll g [] g
  | cons {g m after : Graph} {d : Applied} {rest : List Applied} : Makes g d m →
    MakesAll m rest after → MakesAll g (d :: rest) after

theorem Makes.standing {g after : Graph} {d : Applied} (h : Makes g d after) {plan : OverridePlan}
    (standing : plan.Standing g) : plan.Standing after where
  previous := standing.previous.imp fun _ hp => ⟨h.symbols.mem hp.1, hp.2⟩
  origin := by
    rw [h.origins]
    exact standing.origin
  field := by
    have fields := h.fields
    rw [Retyping.apply_ofField] at fields
    exact standing.field.retyped fields

variable {r : Recorder AnyStore}

theorem applyOverridePlans_make (h : Running r) {plans : List OverridePlan}
    (standing : ∀ plan ∈ plans, plan.Standing r.store.graph) :
    ∃ done t, plans.mapM applyOverridePlan r = .ok (done.map Applied.entry) t ∧ Running t ∧
      done.map Applied.plan = plans ∧ MakesAll r.store.graph done t.store.graph := by
  induction plans generalizing r with
  | nil => exact ⟨[], r, rfl, h, rfl, .nil _⟩
  | cons plan rest ih =>
    obtain ⟨head, others⟩ := List.forall_mem_cons.mp standing
    obtain ⟨entry, m, ran, hm, makes⟩ := applyOverridePlan_makes h head
    obtain ⟨done, t, ranRest, ht, rfl, makesAll⟩ :=
      ih hm fun later hlater => makes.standing (others later hlater)
    refine ⟨⟨plan, entry⟩ :: done, t, ?_, ht, rfl, .cons makes makesAll⟩
    rw [List.mapM_cons, bind_of_ok ran, bind_of_ok ranRest]
    rfl

namespace MakesAll

variable {g after : Graph} {done : List Applied}

theorem origins (h : MakesAll g done after) : after.origins = g.origins := by
  induction h with
  | nil => rfl
  | cons head _ ih => exact ih.trans head.origins

theorem dimensions (h : MakesAll g done after) : after.dimensions = g.dimensions := by
  induction h with
  | nil => rfl
  | cons head _ ih => exact ih.trans head.dimensions

theorem symbols (h : MakesAll g done after) : g.symbols <+: after.symbols := by
  induction h with
  | nil => exact List.prefix_rfl
  | cons head _ ih => exact head.symbols.trans ih

theorem enumerators (h : MakesAll g done after) : g.enumerators <+: after.enumerators := by
  induction h with
  | nil => exact List.prefix_rfl
  | cons head _ ih => exact head.enumerators.trans ih

theorem symbolTable (h : MakesAll g done after) :
    after.symbolTable =
      Table.merge g.symbolTable (done.map fun d => (d.plan.key, d.plan.owner.origin)) := by
  induction h with
  | nil => rfl
  | cons head _ ih =>
    rw [ih, head.symbolTable]
    rfl

theorem constantTable (h : MakesAll g done after) :
    after.constantTable = Table.merge g.constantTable (done.flatMap Applied.written) := by
  induction h with
  | nil => rfl
  | cons head _ ih => rw [ih, head.constantTable, ← Table.merge_append, List.flatMap_cons]

theorem fields (h : MakesAll g done after) :
    after.fields = g.fields.map (Retyping.applyAll (done.map Applied.retyping)) := by
  induction h with
  | nil g => exact (List.map_id g.fields).symm
  | cons head _ ih =>
    rw [ih, head.fields, List.map_map]
    rfl

theorem reported (h : MakesAll g done after) : ∀ d ∈ done, d.entry = ⟨d.plan.request,
    d.plan.request.typeName, d.plan.previous.id, d.entry.replacement,
    d.entry.enumeratorsCreated⟩ := by
  induction h with
  | nil =>
    intro d hd
    cases hd
  | cons head _ ih => exact List.forall_mem_cons.mpr ⟨head.reported, ih⟩

theorem replacement (h : MakesAll g done after) :
    ∀ d ∈ done, ∃ x ∈ after.symbols, x.id = d.entry.replacement ∧ x.key = d.plan.key := by
  induction h with
  | nil =>
    intro d hd
    cases hd
  | cons head rest ih =>
    refine List.forall_mem_cons.mpr ⟨?_, ih⟩
    exact head.replacement.imp fun x hx => ⟨rest.symbols.mem hx.1, hx.2⟩

theorem split {earlier : List Applied} {d : Applied} {later : List Applied}
    (h : MakesAll g (earlier ++ d :: later) after) :
    ∃ m n, MakesAll g earlier m ∧ Makes m d n := by
  induction earlier generalizing g with
  | nil =>
    cases h with
    | cons head _ => exact ⟨g, _, .nil g, head⟩
  | cons first rest ih =>
    cases h with
    | cons head others =>
      obtain ⟨m, n, makesAll, makes⟩ := ih others
      exact ⟨m, n, .cons head makesAll, makes⟩

end MakesAll

/-! ## Constants that are counted -/

theorem Override.Sensible.constants_once {o : Override} (h : o.Sensible) :
    (o.constants.map Constant.name).Nodup := by
  unfold Override.constants
  split
  · exact .nil
  · rename_i heq
    exact (h.constants _ _ heq).2

theorem Override.Sensible.written_once {o : Override} (h : o.Sensible) (id : SymbolId) :
    Table.KeysOnce (o.written id) := by
  have keys : (o.written id).map Prod.fst =
      (o.constants.map Constant.name).map fun name => (⟨id, name⟩ : EnumeratorKey) := by
    unfold Override.written
    rw [List.map_map, List.map_map]
    rfl
  unfold Table.KeysOnce
  rw [keys]
  exact h.constants_once.map fun _ _ same => congrArg EnumeratorKey.name same

theorem length_constantTable (g : Graph) : g.constantTable.length = g.enumerators.length :=
  List.length_map _

/-- An override counts those of its constants that neither the rows before had nor an override
before it has written. -/
theorem MakesAll.created {g after : Graph} {earlier : List Applied} {d : Applied}
    {later : List Applied} (h : MakesAll g (earlier ++ d :: later) after)
    (sensible : d.plan.request.Sensible) :
    d.entry.enumeratorsCreated = (d.plan.request.constants.filter fun c =>
      (⟨d.entry.replacement, c.name⟩ : EnumeratorKey) ∉ g.constantTable.map Prod.fst ∧
      ⟨d.entry.replacement, c.name⟩ ∉ (earlier.flatMap Applied.written).map Prod.fst).length := by
  obtain ⟨m, n, before, makes⟩ := h.split
  have lengths := makes.created
  have grown := Table.length_merge m.constantTable
    (sensible.written_once d.entry.replacement)
  rw [← length_constantTable, ← length_constantTable, makes.constantTable] at lengths
  have same : d.written = d.plan.request.written d.entry.replacement := rfl
  rw [same, grown] at lengths
  have counted : d.entry.enumeratorsCreated =
      ((d.plan.request.written d.entry.replacement).filter fun entry =>
        entry.1 ∉ m.constantTable.map Prod.fst).length := by omega
  rw [counted, Override.written, List.filter_map, List.length_map, before.constantTable]
  congr 1
  apply List.filter_congr
  intro c _
  simp only [Function.comp_apply, Table.mem_keys_merge, not_or]

/-! ## Overrides -/

/-- What overrides leave of a graph. Each plan has found its field in the rows before; the symbol of
its key takes the place of the type there. Symbols and constants are merged in the order of the
requests: a key that has a row keeps it, and for a new key the first request decides. -/
structure Replaces (before : Graph) (done : List Applied) (after : Graph) : Prop where
  fits : ∀ d ∈ done, d.plan.Fits before
  reported : ∀ d ∈ done, d.entry = ⟨d.plan.request, d.plan.request.typeName, d.plan.previous.id,
    d.entry.replacement, d.entry.enumeratorsCreated⟩
  replacement : ∀ d ∈ done, ∃ x ∈ after.symbols, x.id = d.entry.replacement ∧
    x.key = d.plan.key
  given : ∀ d ∈ done, { d.plan.field with type := d.entry.replacement } ∈ after.fields
  fields : List.Forall₂
    (fun f f' => f.OnlyRetyped f' ∧ ((∀ d ∈ done, d.plan.field ≠ f) → f' = f))
    before.fields after.fields
  origins : after.origins = before.origins
  dimensions : after.dimensions = before.dimensions
  ordered : after.Ordered
  symbols : before.symbols <+: after.symbols
  symbolTable : after.symbolTable = Table.merge before.symbolTable
    (done.map fun d => (d.plan.key, d.plan.owner.origin))
  enumerators : before.enumerators <+: after.enumerators
  constantTable : after.constantTable =
    Table.merge before.constantTable (done.flatMap Applied.written)
  created : ∀ earlier d later, done = earlier ++ d :: later →
    d.entry.enumeratorsCreated = (d.plan.request.constants.filter fun c =>
      (⟨d.entry.replacement, c.name⟩ : EnumeratorKey) ∉ before.constantTable.map Prod.fst ∧
      ⟨d.entry.replacement, c.name⟩ ∉ (earlier.flatMap Applied.written).map Prod.fst).length

theorem MakesAll.replaces {before after : Graph} {done : List Applied}
    (h : MakesAll before done after) (ordered : before.Ordered) (orderedAfter : after.Ordered)
    (fits : ∀ d ∈ done, d.plan.Fits before)
    (once : (done.map fun d => d.plan.request.place).Nodup) : Replaces before done after := by
  have apart := apart_of_places ordered fits once
  constructor
  · exact fits
  · exact h.reported
  · exact h.replacement
  · intro d hd
    rw [h.fields]
    have hit : d.retyping.hits d.plan.field = true := (d.hits _).mpr rfl
    exact List.mem_map.mpr ⟨d.plan.field, (fits d hd).field,
      Retyping.applyAll_of_hit apart (List.mem_map_of_mem hd) hit⟩
  · rw [h.fields, List.forall₂_map_right_iff, List.forall₂_same]
    intro f hf
    refine ⟨Retyping.onlyRetyped_applyAll _ f, fun unasked => Retyping.applyAll_of_miss ?_⟩
    rw [Retyping.hitAny_eq_false]
    refine List.forall_mem_map.mpr fun d hd => decide_eq_false fun same => ?_
    exact unasked d hd (ordered.field_eq (fits d hd).field hf same.symm)
  · exact h.origins
  · exact h.dimensions
  · exact orderedAfter
  · exact h.symbols
  · exact h.symbolTable
  · exact h.enumerators
  · exact h.constantTable
  · rintro earlier d later rfl
    exact h.created (fits d (List.mem_append_right _ List.mem_cons_self)).sensible

theorem OverridePlan.Fits.standing {g : Graph} (closed : g.Closed) {plan : OverridePlan}
    (h : plan.Fits g) : plan.Standing g where
  previous := ⟨plan.previous, h.previous, rfl⟩
  origin := closed.origins plan.owner h.owner.mem
  field := ⟨plan.field, h.field, rfl⟩

/-- Overrides carry out their plans, or they stop at a check and have changed nothing. -/
theorem override_ends {s : AnyStore} (sound : s.Sound) (closed : s.graph.Closed)
    (requests : List Override) :
    Ends
      (fun report t => Overridable s.graph requests ∧ ∃ done : List Applied,
        (done.map fun d => d.plan.request) = requests ∧ done.map Applied.entry = report ∧
        Replaces s.graph done t.store.graph)
      (fun e t => t.store = s ∧ ∃ before o rest, requests = before ++ o :: rest ∧
        Overridable s.graph before ∧ o.Offends s.graph before e)
      (override requests { store := s }) := by
  unfold override
  refine ends_bind ((planOverrides_plans (r := { store := s }) sound closed requests).mono ?_ ?_)
  · rintro plans t ⟨rfl, ok, rfl, fits⟩
    have running : Running { store := s } := ⟨sound, agrees_start s⟩
    obtain ⟨done, m, ran, hm, rfl, makes⟩ :=
      applyOverridePlans_make running fun plan hplan => (fits plan hplan).standing closed
    have committed : ask .commit m = .ok () m := ask_of_ok (Faultless.commit m.store)
    rw [bind_of_ok ran, bind_of_ok committed]
    have once := ok.once
    rw [List.map_map, List.map_map] at once
    refine ⟨ok, done, ?_, rfl, makes.replaces sound.ordered hm.sound.ordered ?_ once⟩
    · rw [List.map_map]
      rfl
    · exact List.forall_mem_map.mp fits
  · rintro e t ⟨rfl, offends⟩
    exact ⟨rfl, offends⟩

/-- Overrides of a closed graph, in memory or in a database, that are made change the types of the
requested fields and nothing else; symbols and constants are only appended. -/
theorem overrides_change_only_the_types_of_their_fields (s : AnyStore) (sound : s.Sound)
    (closed : s.graph.Closed) {requests : List Override} {report : List Overridden}
    {t : Recorder AnyStore} (made : override requests { store := s } = .ok report t) :
    ∃ done : List Applied, (done.map fun d => d.plan.request) = requests ∧
      done.map Applied.entry = report ∧ Replaces s.graph done t.store.graph := by
  have ends := override_ends sound closed requests
  rw [made] at ends
  exact ends.2

/-- The rows of the words, in memory, when words have become cells. -/
def cellsInMemory : AnyStore := wordsInMemory.after [.remap [⟨"word", "cell"⟩]]

theorem sound_cellsInMemory : cellsInMemory.Sound := sound_wordsInMemory.after _

theorem closed_cellsInMemory : cellsInMemory.graph.Closed := by constructor <;> decide +kernel

/-- Both fields of a pair become levels, for which the two requests name other constants. -/
def levels : List Override :=
  [⟨"pair", "short", .enumeration (some "level") [⟨"low", 0⟩, ⟨"high", 1⟩]⟩,
    ⟨"pair", "long", .enumeration (some "level") [⟨"high", 7⟩, ⟨"top", 2⟩]⟩]

/-- What is reported when cells become levels, and the rows then. -/
def levelsMade : List Overridden × Graph :=
  ([⟨levels[0], "level", ⟨1⟩, ⟨5⟩, 2⟩, ⟨levels[1], "level", ⟨1⟩, ⟨5⟩, 1⟩],
    { wordsTyped ⟨5⟩ ⟨5⟩ with
      symbols := cellsInMemory.graph.symbols ++ [⟨⟨5⟩, ⟨1⟩, "level", 8⟩]
      enumerators := [⟨⟨1⟩, ⟨5⟩, "low", 0⟩, ⟨⟨2⟩, ⟨5⟩, "high", 1⟩, ⟨⟨3⟩, ⟨5⟩, "top", 2⟩] })

theorem made?_levels :
    made? (override levels { store := cellsInMemory }) = some levelsMade := by decide +kernel

/-- Two fields share a new enumeration, in which the first request decides what is high. -/
theorem two_fields_become_levels_of_one_enumeration :
    cellsInMemory.Sound ∧ cellsInMemory.graph.Closed ∧
      ∃ t, override levels { store := cellsInMemory } = .ok levelsMade.1 t ∧
        t.store.graph = levelsMade.2 ∧
        ∃ done : List Applied, (done.map fun d => d.plan.request) = levels ∧
          done.map Applied.entry = levelsMade.1 ∧
          Replaces cellsInMemory.graph done t.store.graph := by
  obtain ⟨t, made, after⟩ := made?_eq_some made?_levels
  exact ⟨sound_cellsInMemory, closed_cellsInMemory, t, made, after,
    overrides_change_only_the_types_of_their_fields cellsInMemory sound_cellsInMemory
      closed_cellsInMemory made⟩

end Change

end LayoutGraph
