-- Overrides that are made again. New symbols lie behind the others, so each
-- request finds the owner that it found before; its field has the type that
-- the first run gave it, which is as large as the one before, so the key of
-- the replacement is the key of that type. Nothing is new the second time.
import LayoutGraph.Proofs.Change.Overriding

namespace LayoutGraph

open Chain Recording

namespace Change

/-! ## Lists side by side -/

theorem forall₂_with_mem {α β : Type} {R : α → β → Prop} {as : List α} {bs : List β}
    (h : List.Forall₂ R as bs) : List.Forall₂ (fun a b => a ∈ as ∧ b ∈ bs ∧ R a b) as bs := by
  induction h with
  | nil => exact .nil
  | cons head _ ih =>
    refine .cons ⟨List.mem_cons_self, List.mem_cons_self, head⟩ (ih.imp fun a b h => ?_)
    exact ⟨List.mem_cons_of_mem _ h.1, List.mem_cons_of_mem _ h.2.1, h.2.2⟩

theorem exists_left_of_forall₂ {α β : Type} {R : α → β → Prop} {as : List α} {bs : List β}
    (h : List.Forall₂ R as bs) : ∀ b ∈ bs, ∃ a ∈ as, R a b := by
  induction h with
  | nil =>
    intro b hb
    cases hb
  | cons head _ ih =>
    refine List.forall_mem_cons.mpr ⟨⟨_, List.mem_cons_self, head⟩, fun b hb => ?_⟩
    obtain ⟨a, ha, hab⟩ := ih b hb
    exact ⟨a, List.mem_cons_of_mem _ ha, hab⟩

/-! ## The graph after overrides -/

namespace Replaces

variable {before after : Graph} {done : List Applied}

/-- A symbol with the lowest id of its name stays it, for new symbols have higher ids. -/
theorem lowest (h : Replaces before done after) {name : String} {x : Symbol}
    (lowest : before.Lowest name x) : after.Lowest name x := by
  obtain ⟨added, hadded⟩ := h.symbols
  refine ⟨h.symbols.mem lowest.mem, lowest.named, fun other hother named => ?_⟩
  have ascending := h.ordered.symbols.ascending
  rw [← hadded] at ascending hother
  rcases List.mem_append.mp hother with hother | hother
  · exact lowest.least other hother named
  · exact Int.le_of_lt ((List.pairwise_append.mp ascending).2.2 x lowest.mem other hother)

/-- A field has its type from before, or the one that its request gives it. -/
theorem type_cases (h : Replaces before done after) {f : Field} (hf : f ∈ after.fields) :
    (∃ old ∈ before.fields, old.owner = f.owner ∧ (old.type = f.type ∨
      ∃ d ∈ done, d.entry.replacement = f.type)) := by
  obtain ⟨old, hold, retyped, unasked⟩ := exists_left_of_forall₂ h.fields f hf
  refine ⟨old, hold, retyped.owner.symm, ?_⟩
  by_cases asked : ∃ d ∈ done, d.plan.field = old
  · obtain ⟨d, hd, rfl⟩ := asked
    have given := h.ordered.field_eq (h.given d hd) hf retyped.id.symm
    exact .inr ⟨d, hd, congrArg Field.type given⟩
  · have kept : f = old := unasked fun d hd same => asked ⟨d, hd, same⟩
    exact .inl (congrArg Field.type kept.symm)

theorem there (h : Replaces before done after) {id : SymbolId}
    (old : ∃ x ∈ before.symbols, x.id = id) : ∃ x ∈ after.symbols, x.id = id :=
  old.imp fun _ hx => ⟨h.symbols.mem hx.1, hx.2⟩

/-- The rows go on referring to rows that are there. -/
theorem closed (h : Replaces before done after) (closed : before.Closed) : after.Closed where
  origins x hx := by
    have hrow : (x.key, x.origin) ∈ after.symbolTable :=
      List.mem_map_of_mem (f := fun x : Symbol => (x.key, x.origin)) hx
    rw [h.symbolTable] at hrow
    rw [h.origins]
    rcases Table.mem_of_mem_merge hrow with hrow | hrow
    · obtain ⟨old, hold, same⟩ := List.mem_map.mp hrow
      have origin : old.origin = x.origin := congrArg Prod.snd same
      rw [← origin]
      exact closed.origins old hold
    · obtain ⟨d, hd, same⟩ := List.mem_map.mp hrow
      have origin : d.plan.owner.origin = x.origin := congrArg Prod.snd same
      rw [← origin]
      exact closed.origins _ (h.fits d hd).owner.mem
  owners f hf := by
    obtain ⟨old, hold, owner, -⟩ := h.type_cases hf
    rw [← owner]
    exact h.there (closed.owners old hold)
  types f hf := by
    obtain ⟨old, hold, -, same | ⟨d, hd, same⟩⟩ := h.type_cases hf
    · rw [← same]
      exact h.there (closed.types old hold)
    · obtain ⟨x, hx, hid, -⟩ := h.replacement d hd
      exact ⟨x, hx, hid.trans same⟩
  enumerators e he := by
    have hrow : (e.key, e.value) ∈ after.constantTable :=
      List.mem_map_of_mem (f := fun e : Enumerator => (e.key, e.value)) he
    rw [h.constantTable] at hrow
    rcases Table.mem_of_mem_merge hrow with hrow | hrow
    · obtain ⟨old, hold, same⟩ := List.mem_map.mp hrow
      rw [show e.symbol = old.symbol from congrArg (fun row => row.1.symbol) same.symm]
      exact h.there (closed.enumerators old hold)
    · obtain ⟨d, hd, hrow⟩ := List.mem_flatMap.mp hrow
      obtain ⟨c, -, same⟩ := List.mem_map.mp hrow
      obtain ⟨x, hx, hid, -⟩ := h.replacement d hd
      exact ⟨x, hx, hid.trans (congrArg (fun row => row.1.symbol) same)⟩

/-- What was in order to be overridden is so again. -/
theorem overridable (h : Replaces before done after)
    (ok : Overridable before (done.map fun d => d.plan.request)) :
    Overridable after (done.map fun d => d.plan.request) where
  once := ok.once
  sensible := ok.sensible
  fields := List.forall_mem_map.mpr fun d hd =>
    ⟨d.plan.owner, h.lowest (h.fits d hd).owner, _, h.given d hd, (h.fits d hd).key⟩

/-! ## Overrides of what is overridden -/

variable {last : Graph} {again : List Applied} {d d' : Applied}

/-- A request that is made again finds the type that it gave, and gives it once more. -/
theorem again_gives (h : Replaces before done after) (h' : Replaces after again last)
    (hd : d ∈ done) (hd' : d' ∈ again) (same : d'.plan.request = d.plan.request) :
    d'.plan.field = { d.plan.field with type := d.entry.replacement } ∧
      d'.plan.previous.id = d.entry.replacement ∧ d'.plan.key = d'.plan.previous.key ∧
      d'.entry.replacement = d.entry.replacement := by
  have fits := h.fits d hd
  have fits' := h'.fits d' hd'
  have owner : d'.plan.owner = d.plan.owner := by
    refine h.ordered.lowest_unique fits'.owner ?_
    rw [same]
    exact h.lowest fits.owner
  have field : d'.plan.field = { d.plan.field with type := d.entry.replacement } := by
    refine h.ordered.fields.eq_of_key fits'.field (h.given d hd) ?_
    rw [fits'.key, owner, same]
    exact fits.key.symm
  obtain ⟨x, hx, hid, hkey⟩ := h.replacement d hd
  have previous : d'.plan.previous = x := by
    refine h.ordered.symbol_eq fits'.previous hx ?_
    rw [fits'.type, field, hid]
  have size : x.byteSize = d.plan.previous.byteSize := congrArg SymbolKey.byteSize hkey
  have key : d'.plan.key = x.key := by
    rw [hkey]
    unfold OverridePlan.key
    rw [same, previous, size]
  obtain ⟨y, hy, hid', hkey'⟩ := h'.replacement d' hd'
  have found : y = x := h'.ordered.symbols.eq_of_key hy (h'.symbols.mem hx) (hkey'.trans key)
  refine ⟨field, ?_, ?_, ?_⟩
  · rw [previous, hid]
  · rw [key, previous]
  · rw [← hid', found, hid]

/-- The constants of a request are there when it has been carried out. -/
theorem constant_there (h : Replaces before done after) (hd : d ∈ done) {c : Constant}
    (hc : c ∈ d.plan.request.constants) :
    (⟨d.entry.replacement, c.name⟩ : EnumeratorKey) ∈ after.constantTable.map Prod.fst := by
  rw [h.constantTable, Table.mem_keys_merge]
  right
  have written : (⟨d.entry.replacement, c.name⟩, c.value) ∈ done.flatMap Applied.written :=
    List.mem_flatMap.mpr ⟨d, hd, List.mem_map.mpr ⟨c, hc, rfl⟩⟩
  exact List.mem_map_of_mem (f := Prod.fst) written

/-- Each request of the second run was one of the first. -/
theorem first_of (requests : (again.map fun d => d.plan.request) = done.map fun d => d.plan.request)
    (hd' : d' ∈ again) : ∃ d ∈ done, d'.plan.request = d.plan.request := by
  have mem : d'.plan.request ∈ done.map fun d => d.plan.request :=
    requests ▸ List.mem_map_of_mem hd'
  obtain ⟨d, hd, same⟩ := List.mem_map.mp mem
  exact ⟨d, hd, same.symm⟩

theorem symbols_again (h : Replaces before done after) (h' : Replaces after again last)
    (requests : (again.map fun d => d.plan.request) = done.map fun d => d.plan.request) :
    last.symbols = after.symbols := by
  have table : last.symbolTable = after.symbolTable := by
    rw [h'.symbolTable]
    refine Table.merge_of_keys (List.forall_mem_map.mpr fun d' hd' => ?_)
    obtain ⟨d, hd, same⟩ := first_of requests hd'
    obtain ⟨-, -, key, -⟩ := h.again_gives h' hd hd' same
    exact Graph.mem_keys_symbolTable.mpr ⟨_, (h'.fits d' hd').previous, key.symm⟩
  have lengths := congrArg List.length table
  unfold Graph.symbolTable at lengths
  rw [List.length_map, List.length_map] at lengths
  exact (h'.symbols.eq_of_length lengths.symm).symm

theorem enumerators_again (h : Replaces before done after) (h' : Replaces after again last)
    (requests : (again.map fun d => d.plan.request) = done.map fun d => d.plan.request) :
    last.enumerators = after.enumerators := by
  have table : last.constantTable = after.constantTable := by
    rw [h'.constantTable]
    refine Table.merge_of_keys fun entry hentry => ?_
    obtain ⟨d', hd', hentry⟩ := List.mem_flatMap.mp hentry
    obtain ⟨c, hc, rfl⟩ := List.mem_map.mp hentry
    obtain ⟨d, hd, same⟩ := first_of requests hd'
    obtain ⟨-, -, -, replacement⟩ := h.again_gives h' hd hd' same
    rw [replacement]
    exact h.constant_there hd (same ▸ hc)
  have lengths := congrArg List.length table
  rw [length_constantTable, length_constantTable] at lengths
  exact (h'.enumerators.eq_of_length lengths.symm).symm

theorem fields_again (h : Replaces before done after) (h' : Replaces after again last)
    (requests : (again.map fun d => d.plan.request) = done.map fun d => d.plan.request) :
    last.fields = after.fields := by
  have same : List.Forall₂ (· = ·) after.fields last.fields := by
    refine (forall₂_with_mem h'.fields).imp ?_
    rintro f f' ⟨-, hf', retyped, unasked⟩
    by_cases asked : ∃ d' ∈ again, d'.plan.field = f
    · obtain ⟨d', hd', rfl⟩ := asked
      obtain ⟨d, hd, same⟩ := first_of requests hd'
      obtain ⟨field, -, -, replacement⟩ := h.again_gives h' hd hd' same
      have given := h'.given d' hd'
      rw [show ({ d'.plan.field with type := d'.entry.replacement } : Field) = d'.plan.field by
        rw [replacement, field]] at given
      exact h'.ordered.field_eq given hf' retyped.id.symm
    · exact (unasked fun d' hd' same => asked ⟨d', hd', same⟩).symm
  rw [List.forall₂_eq_eq_eq] at same
  exact same.symm

theorem graph_again (h : Replaces before done after) (h' : Replaces after again last)
    (requests : (again.map fun d => d.plan.request) = done.map fun d => d.plan.request) :
    last = after := by
  have symbols := h.symbols_again h' requests
  have fields := h.fields_again h' requests
  have enumerators := h.enumerators_again h' requests
  have origins := h'.origins
  have dimensions := h'.dimensions
  obtain ⟨_, _, _, _, _⟩ := last
  obtain ⟨_, _, _, _, _⟩ := after
  cases symbols
  cases fields
  cases enumerators
  cases origins
  cases dimensions
  rfl

/-- No constant is new the second time. -/
theorem created_again (h : Replaces before done after) (h' : Replaces after again last)
    (hd : d ∈ done) (hd' : d' ∈ again) (same : d'.plan.request = d.plan.request) :
    d'.entry.enumeratorsCreated = 0 := by
  obtain ⟨earlier, later, split⟩ := List.append_of_mem hd'
  obtain ⟨-, -, -, replacement⟩ := h.again_gives h' hd hd' same
  rw [h'.created earlier d' later split, List.length_eq_zero_iff, List.filter_eq_nil_iff]
  intro c hc new
  have absent := (of_decide_eq_true new).1
  rw [replacement] at absent
  exact absent (h.constant_there hd (same ▸ hc))

theorem entry_again (h : Replaces before done after) (h' : Replaces after again last)
    (hd : d ∈ done) (hd' : d' ∈ again) (same : d'.plan.request = d.plan.request) :
    d'.entry = { d.entry with previous := d.entry.replacement, enumeratorsCreated := 0 } := by
  obtain ⟨-, previous, -, replacement⟩ := h.again_gives h' hd hd' same
  rw [h'.reported d' hd', h.reported d hd, h.created_again h' hd hd' same, same, previous,
    replacement]

theorem report_again (h : Replaces before done after) (h' : Replaces after again last)
    (requests : (again.map fun d => d.plan.request) = done.map fun d => d.plan.request) :
    again.map Applied.entry = (done.map Applied.entry).map fun e =>
      { e with previous := e.replacement, enumeratorsCreated := 0 } := by
  have same : List.Forall₂ (fun d' d : Applied => d'.plan.request = d.plan.request) again done := by
    rw [← List.forall₂_eq_eq_eq, List.forall₂_map_left_iff, List.forall₂_map_right_iff] at requests
    exact requests
  rw [List.map_map, ← List.forall₂_eq_eq_eq, List.forall₂_map_left_iff, List.forall₂_map_right_iff]
  refine (forall₂_with_mem same).imp ?_
  rintro d' d ⟨hd', hd, same⟩
  exact h.entry_again h' hd hd' same

end Replaces

/-- Overrides of a closed graph, in memory or in a database, that are made once more are made, leave
all rows as they are, and report the types that they found to be the replacements already. -/
theorem overrides_made_again_change_nothing (s : AnyStore) (sound : s.Sound)
    (closed : s.graph.Closed) {requests : List Override} {report : List Overridden}
    {t : Recorder AnyStore} (made : override requests { store := s } = .ok report t) :
    ∃ u, override requests { store := t.store } =
        .ok (report.map fun e => { e with previous := e.replacement, enumeratorsCreated := 0 }) u ∧
      u.store.graph = t.store.graph := by
  have ends := override_ends sound closed requests
  rw [made] at ends
  obtain ⟨ok, done, rfl, rfl, first⟩ := ends
  have start : InStore AnyStore.Sound { store := s } := sound
  have soundAfter : t.store.Sound := (AnyStore.steady_sound.override _).of_ok start made
  have endsAgain := override_ends soundAfter (first.closed closed)
    (done.map fun d => d.plan.request)
  cases ran : override (done.map fun d => d.plan.request) { store := t.store } with
  | ok report u =>
    rw [ran] at endsAgain
    obtain ⟨-, again, requests, rfl, second⟩ := endsAgain
    exact ⟨u, congrArg (EStateM.Result.ok · u) (first.report_again second requests),
      first.graph_again second requests⟩
  | error e u =>
    rw [ran] at endsAgain
    obtain ⟨-, before, o, rest, split, -, offends⟩ := endsAgain
    have ok : Overridable t.store.graph (before ++ o :: rest) := split ▸ first.overridable ok
    exact absurd ok (offends.not_overridable soundAfter.ordered rest)

/-- Levels that are levels already stay so. -/
theorem levels_are_made_once :
    cellsInMemory.Sound ∧ cellsInMemory.graph.Closed ∧
      ∃ t, override levels { store := cellsInMemory } = .ok levelsMade.1 t ∧
        ∃ u, override levels { store := t.store } =
            .ok [⟨levels[0], "level", ⟨5⟩, ⟨5⟩, 0⟩, ⟨levels[1], "level", ⟨5⟩, ⟨5⟩, 0⟩] u ∧
          u.store.graph = t.store.graph := by
  obtain ⟨t, made, -⟩ := made?_eq_some made?_levels
  exact ⟨sound_cellsInMemory, closed_cellsInMemory, t, made,
    overrides_made_again_change_nothing cellsInMemory sound_cellsInMemory closed_cellsInMemory made⟩

end Change

end LayoutGraph
