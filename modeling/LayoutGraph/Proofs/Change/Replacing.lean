-- What one override does to a graph. Its symbol and its constants are added
-- where their keys are new, its field is given the symbol as a type, and it
-- counts the constants that it added. On a store in order none of this fails.
import LayoutGraph.Proofs.Change.Check
import LayoutGraph.Proofs.Change.Retyping
import LayoutGraph.Proofs.Ledger.Table

namespace LayoutGraph

open Chain Recording

/-! ## Rows by their keys -/

namespace Graph

/-- The symbols by their keys, with the origins that had them first. -/
def symbolTable (g : Graph) : List (SymbolKey × OriginId) :=
  g.symbols.map fun x => (x.key, x.origin)

/-- The values of the constants by their keys. -/
def constantTable (g : Graph) : List (EnumeratorKey × Int) :=
  g.enumerators.map fun e => (e.key, e.value)

variable {g : Graph}

theorem mem_keys_symbolTable {key : SymbolKey} :
    key ∈ g.symbolTable.map Prod.fst ↔ ∃ x ∈ g.symbols, x.key = key := by
  simp [symbolTable]

theorem mem_keys_constantTable {key : EnumeratorKey} :
    key ∈ g.constantTable.map Prod.fst ↔ ∃ e ∈ g.enumerators, e.key = key := by
  simp [constantTable]

end Graph

namespace Change

/-! ## Moves -/

/-- The store is in order, and the memo names its rows. -/
structure Running (r : Recorder AnyStore) : Prop where
  sound : r.store.Sound
  agrees : Agrees r

variable {r : Recorder AnyStore}

theorem Running.of_ok {α : Type} {x : Recording AnyStore α} {t : Recorder AnyStore} {a : α}
    (h : Running r) (keeps : Keeps (InStore AnyStore.Sound) x) (agrees : Agrees t)
    (ran : x r = .ok a t) : Running t := ⟨keeps.of_ok h.sound ran, agrees⟩

/-- The look-up of a symbol finds what the rows have, whether the memo answers or the store. -/
theorem findSymbol_gets (h : Running r) (key : SymbolKey)
    (known : ∃ p ∈ r.store.graph.symbols, p.byteSize = key.byteSize) :
    ∃ t, findSymbol key r =
        .ok ((r.store.graph.symbols.find? fun x => x.key = key).map Symbol.id) t ∧
      t.store = r.store := by
  have served := h.sound.findSymbol known
  rw [findSymbol_eq]
  cases hmemo : r.memo.symbols.find? key with
  | some id =>
    have held : Store.serve (.findSymbol key) r.store = .ok (some id) r.store :=
      h.agrees.symbols key id hmemo
    rw [served] at held
    injection held with found
    rw [found]
    exact ⟨r, rfl, rfl⟩
  | none =>
    rw [bind_of_ok (ask_of_ok served)]
    cases (r.store.graph.symbols.find? fun x => x.key = key).map Symbol.id with
    | none => exact ⟨r, rfl, rfl⟩
    | some id => exact ⟨_, rfl, rfl⟩

/-- The symbol of a key is there afterwards, behind the others if the key was new. -/
structure GetsSymbol (g : Graph) (row : NewSymbol) (id : SymbolId) (after : Graph) : Prop where
  frame : after = { g with symbols := after.symbols }
  kept : g.symbols <+: after.symbols
  table : after.symbolTable = Table.addNew g.symbolTable (row.key, row.origin)
  there : ∃ x ∈ after.symbols, x.id = id ∧ x.key = row.key

theorem GetsSymbol.held {g : Graph} {row : NewSymbol} {x : Symbol} (hx : x ∈ g.symbols)
    (hkey : x.key = row.key) : GetsSymbol g row x.id g := by
  have held : row.key ∈ g.symbolTable.map Prod.fst := Graph.mem_keys_symbolTable.mpr ⟨x, hx, hkey⟩
  exact ⟨rfl, List.prefix_rfl,
    (Table.addNew_of_mem (Table.lookup_isSome_iff_mem.mpr held)).symm, x, hx, rfl, hkey⟩

theorem GetsSymbol.appended {g : Graph} {row : NewSymbol}
    (fresh : ∀ x ∈ g.symbols, x.key ≠ row.key) (id : SymbolId) :
    GetsSymbol g row id { g with symbols := g.symbols ++ [row.withId id] } := by
  have absent : row.key ∉ g.symbolTable.map Prod.fst := by
    rw [Graph.mem_keys_symbolTable]
    rintro ⟨x, hx, hkey⟩
    exact fresh x hx hkey
  refine ⟨rfl, List.prefix_append _ _, ?_, row.withId id,
    List.mem_append_right _ List.mem_cons_self, rfl, rfl⟩
  rw [Table.addNew_of_new (Table.lookup_eq_none_iff_not_mem.mpr absent)]
  exact List.map_append

theorem recover_created {ι : Type} {taken : TakenKey} {raw : ι → Int}
    {insert : Recording AnyStore (Inserted ι)} {again : Recording AnyStore (Option ι)} {id : ι}
    {t : Recorder AnyStore} (h : insert r = .ok (.created id) t) :
    recover taken raw insert again r = .ok (.created id) t := by
  unfold recover
  rw [h]

theorem symbol_gets (h : Running r) (row : NewSymbol)
    (known : ∃ p ∈ r.store.graph.symbols, p.byteSize = row.byteSize)
    (origin : ∃ o ∈ r.store.graph.origins, o.id = row.origin) :
    ∃ inserted t, symbol row r = .ok inserted t ∧ Running t ∧
      GetsSymbol r.store.graph row inserted.id t.store.graph := by
  obtain ⟨m, found, hstore⟩ := findSymbol_gets h row.key known
  have ran : ∃ inserted t, symbol row r = .ok inserted t ∧
      GetsSymbol r.store.graph row inserted.id t.store.graph := by
    unfold symbol
    rw [bind_of_ok found]
    cases hfind : r.store.graph.symbols.find? fun x => x.key = row.key with
    | some x =>
      obtain ⟨hx, hkey⟩ := h.sound.ordered.symbols.find?_eq_some.mp hfind
      refine ⟨.existing x.id, _, rfl, ?_⟩
      show GetsSymbol _ _ _ m.store.graph
      rw [hstore]
      exact .held hx hkey
    | none =>
      obtain ⟨id, next, served, hnext⟩ := h.sound.insertSymbol known origin hfind
      have asked : ask (.insertSymbol row) m = .ok (.created id) { m with store := next } :=
        ask_of_ok (hstore ▸ served)
      dsimp only [Option.map_none]
      rw [bind_of_ok (recover_created asked)]
      refine ⟨.created id, _, rfl, ?_⟩
      show GetsSymbol _ _ _ next.graph
      rw [hnext]
      exact .appended (Database.fresh_of_find? hfind) id
  obtain ⟨inserted, t, ran, gets⟩ := ran
  have running : Running t :=
    h.of_ok (AnyStore.steady_sound.symbol row) (symbol_ok ran h.agrees).1 ran
  exact ⟨inserted, t, ran, running, gets⟩

/-- Constants of a symbol are there afterwards, behind the others where their keys were new, and
the new ones are counted. -/
structure GetsConstants (r : Recorder AnyStore) (entries : List (EnumeratorKey × Int))
    (t : Recorder AnyStore) : Prop where
  frame : t.store.graph = { r.store.graph with enumerators := t.store.graph.enumerators }
  kept : r.store.graph.enumerators <+: t.store.graph.enumerators
  table : t.store.graph.constantTable = Table.merge r.store.graph.constantTable entries
  counted : t.memo.tally.enumeratorsCreated + r.store.graph.enumerators.length =
    r.memo.tally.enumeratorsCreated + t.store.graph.enumerators.length

theorem GetsConstants.held {e : Enumerator} (he : e ∈ r.store.graph.enumerators) (value : Int) :
    GetsConstants r [(e.key, value)] r := by
  have held : e.key ∈ r.store.graph.constantTable.map Prod.fst :=
    Graph.mem_keys_constantTable.mpr ⟨e, he, rfl⟩
  exact ⟨rfl, List.prefix_rfl,
    (Table.addNew_of_mem (Table.lookup_isSome_iff_mem.mpr held)).symm, rfl⟩

theorem enumerator_gets (h : Running r) {id : SymbolId}
    (there : ∃ x ∈ r.store.graph.symbols, x.id = id) (name : String) (value : Int) :
    ∃ t, enumerator id name value r = .ok () t ∧ Running t ∧
      GetsConstants r [(⟨id, name⟩, value)] t := by
  have ran : ∃ t, enumerator id name value r = .ok () t ∧
      GetsConstants r [(⟨id, name⟩, value)] t := by
    unfold enumerator
    by_cases hmem : ∃ e ∈ r.store.graph.enumerators, e.key = ⟨id, name⟩
    · obtain ⟨e, he, hkey⟩ := hmem
      rw [ask_of_ok (h.sound.insertEnumerator_found he hkey value), ← hkey]
      exact ⟨r, rfl, .held he value⟩
    · have fresh : ∀ e ∈ r.store.graph.enumerators, e.key ≠ ⟨id, name⟩ :=
        fun e he hkey => hmem ⟨e, he, hkey⟩
      obtain ⟨new, next, served, hnext⟩ := h.sound.insertEnumerator_new value there fresh
      rw [ask_of_ok served]
      refine ⟨_, rfl, ?_⟩
      have absent : (⟨id, name⟩ : EnumeratorKey) ∉ r.store.graph.constantTable.map Prod.fst :=
        fun held => hmem (Graph.mem_keys_constantTable.mp held)
      constructor
      · show next.graph = { r.store.graph with enumerators := next.graph.enumerators }
        rw [hnext]
      · show _ <+: next.graph.enumerators
        rw [hnext]
        exact List.prefix_append _ _
      · show next.graph.constantTable = Table.addNew _ _
        rw [hnext, Table.addNew_of_new (Table.lookup_eq_none_iff_not_mem.mpr absent)]
        exact List.map_append
      · show r.memo.tally.enumeratorsCreated + 1 + _ = _ + next.graph.enumerators.length
        rw [hnext]
        dsimp only
        rw [List.length_append, List.length_singleton]
        omega
  obtain ⟨t, ran, gets⟩ := ran
  have running : Running t :=
    h.of_ok (AnyStore.steady_sound.enumerator id name value) (enumerator_ok ran h.agrees).1 ran
  exact ⟨t, ran, running, gets⟩

theorem GetsConstants.append {m t : Recorder AnyStore} {a b : List (EnumeratorKey × Int)}
    (h : GetsConstants r a m) (h' : GetsConstants m b t) : GetsConstants r (a ++ b) t where
  frame := by
    calc t.store.graph = { m.store.graph with enumerators := t.store.graph.enumerators } := h'.frame
      _ = { r.store.graph with enumerators := t.store.graph.enumerators } := by rw [h.frame]
  kept := h.kept.trans h'.kept
  table := by rw [h'.table, h.table, Table.merge_append]
  counted := by
    have first := h.counted
    have second := h'.counted
    omega

/-- The constants that a request writes, by their keys. -/
def Override.written (o : Override) (id : SymbolId) : List (EnumeratorKey × Int) :=
  o.constants.map fun c => (⟨id, c.name⟩, c.value)

theorem constants_get (h : Running r) {id : SymbolId}
    (there : ∃ x ∈ r.store.graph.symbols, x.id = id) (constants : List Constant) :
    ∃ t, (constants.forM fun c => enumerator id c.name c.value) r = .ok ⟨⟩ t ∧ Running t ∧
      GetsConstants r (constants.map fun c => (⟨id, c.name⟩, c.value)) t := by
  induction constants generalizing r with
  | nil => exact ⟨r, rfl, h, rfl, List.prefix_rfl, rfl, rfl⟩
  | cons c rest ih =>
    obtain ⟨m, ranHead, hm, head⟩ := enumerator_gets h there c.name c.value
    have there : ∃ x ∈ m.store.graph.symbols, x.id = id := by
      rw [head.frame]
      exact there
    obtain ⟨t, ranRest, ht, others⟩ := ih hm there
    exact ⟨t, forM_cons_ok_iff.mpr ⟨_, m, ranHead, ranRest⟩, ht, head.append others⟩

/-! ## One override -/

/-- The key of the symbol that takes the place of the type before. -/
def OverridePlan.key (plan : OverridePlan) : SymbolKey :=
  ⟨plan.request.typeName, plan.previous.byteSize⟩

end Change

/-- The field of an id is given a type. -/
def Retyping.ofField (id : FieldId) (type : SymbolId) : Retyping := ⟨fun f => f.id = id, type⟩

theorem Retyping.apply_ofField (id : FieldId) (type : SymbolId) :
    (ofField id type).apply = fun f => if f.id = id then { f with type } else f := by
  funext f
  simp [apply, ofField]

namespace Change

/-- A plan and what is reported of it. -/
structure Applied where
  plan : OverridePlan
  entry : Overridden

/-- The constants that an override has written. -/
def Applied.written (done : Applied) : List (EnumeratorKey × Int) :=
  done.plan.request.written done.entry.replacement

/-- What one override makes of a graph. -/
structure Makes (g : Graph) (done : Applied) (after : Graph) : Prop where
  reported : done.entry = ⟨done.plan.request, done.plan.request.typeName, done.plan.previous.id,
    done.entry.replacement, done.entry.enumeratorsCreated⟩
  origins : after.origins = g.origins
  dimensions : after.dimensions = g.dimensions
  symbols : g.symbols <+: after.symbols
  symbolTable : after.symbolTable =
    Table.addNew g.symbolTable (done.plan.key, done.plan.owner.origin)
  replacement : ∃ x ∈ after.symbols, x.id = done.entry.replacement ∧ x.key = done.plan.key
  enumerators : g.enumerators <+: after.enumerators
  constantTable : after.constantTable = Table.merge g.constantTable done.written
  created : done.entry.enumeratorsCreated + g.enumerators.length = after.enumerators.length
  fields : after.fields =
    g.fields.map (Retyping.ofField done.plan.field.id done.entry.replacement).apply

/-- What a plan refers to is there. -/
structure OverridePlan.Standing (g : Graph) (plan : OverridePlan) : Prop where
  previous : ∃ p ∈ g.symbols, p.byteSize = plan.previous.byteSize
  origin : ∃ o ∈ g.origins, o.id = plan.owner.origin
  field : g.HasField plan.field.id

/-- The moves of an override, taken together. -/
theorem makes_of_moves {plan : OverridePlan} {id : SymbolId} {r1 r2 : Recorder AnyStore}
    {g after : Graph}
    (symbols : GetsSymbol g
      ⟨plan.owner.origin, plan.request.typeName, plan.previous.byteSize⟩ id r1.store.graph)
    (constants : GetsConstants r1 (plan.request.written id) r2)
    (given : after = { r2.store.graph with
      fields := r2.store.graph.fields.map (Retyping.ofField plan.field.id id).apply }) :
    Makes g
      ⟨plan, plan.request, plan.request.typeName, plan.previous.id, id,
        r2.memo.tally.enumeratorsCreated - r1.memo.tally.enumeratorsCreated⟩ after := by
  have frame1 := symbols.frame
  have frame2 := constants.frame
  have sameSymbols : after.symbols = r1.store.graph.symbols := by rw [given, frame2]
  have sameEnumerators : r1.store.graph.enumerators = g.enumerators := by rw [frame1]
  have enumerators : after.enumerators = r2.store.graph.enumerators := by rw [given]
  constructor
  · rfl
  · rw [given, frame2, frame1]
  · rw [given, frame2, frame1]
  · rw [sameSymbols]
    exact symbols.kept
  · have table : after.symbolTable = r1.store.graph.symbolTable := congrArg (List.map _) sameSymbols
    exact table.trans symbols.table
  · rw [sameSymbols]
    exact symbols.there
  · rw [enumerators, ← sameEnumerators]
    exact constants.kept
  · have before : r1.store.graph.constantTable = g.constantTable :=
      congrArg (List.map _) sameEnumerators
    have table : after.constantTable = r2.store.graph.constantTable :=
      congrArg (List.map _) enumerators
    rw [table, ← before]
    exact constants.table
  · have counted := constants.counted
    have grown := constants.kept.length_le
    rw [enumerators, ← sameEnumerators]
    dsimp only
    omega
  · rw [given, frame2, frame1]

theorem applyOverridePlan_makes (h : Running r) {plan : OverridePlan}
    (standing : plan.Standing r.store.graph) :
    ∃ entry t, applyOverridePlan plan r = .ok entry t ∧ Running t ∧
      Makes r.store.graph ⟨plan, entry⟩ t.store.graph := by
  obtain ⟨inserted, r1, ran1, h1, symbols⟩ :=
    symbol_gets h ⟨plan.owner.origin, plan.request.typeName, plan.previous.byteSize⟩
      standing.previous standing.origin
  obtain ⟨x, hx, hid, -⟩ := symbols.there
  obtain ⟨r2, ran2, h2, constants⟩ := constants_get h1 ⟨x, hx, hid⟩ plan.request.constants
  have there : ∃ x ∈ r2.store.graph.symbols, x.id = inserted.id := by
    rw [constants.frame]
    exact ⟨x, hx, hid⟩
  have found : r2.store.graph.HasField plan.field.id := by
    rw [constants.frame, symbols.frame]
    exact standing.field
  obtain ⟨next, served, given⟩ := h2.sound.setFieldType found there
  rw [← Retyping.apply_ofField] at given
  have makes := makes_of_moves symbols constants given
  let created := r2.memo.tally.enumeratorsCreated - r1.memo.tally.enumeratorsCreated
  let entry : Overridden :=
    ⟨plan.request, plan.request.typeName, plan.previous.id, inserted.id, created⟩
  let event : Log.Event := .overrode plan.request.symbol plan.request.field plan.previous.name
    plan.request.typeName created
  let t : Recorder AnyStore := { r2 with store := next, log := r2.log.push event }
  have ran : applyOverridePlan plan r = .ok entry t := by
    unfold applyOverridePlan
    dsimp only
    rw [bind_of_ok ran1, bind_of_ok (get_apply r1), bind_of_ok ran2, bind_of_ok (get_apply r2),
      bind_of_ok (ask_of_ok served)]
    rfl
  have agrees : Agrees t := (h2.agrees.ask (ask_of_ok served)).congr rfl rfl rfl
  exact ⟨entry, t, ran, h.of_ok (AnyStore.steady_sound.applyOverridePlan plan) agrees ran, makes⟩

end Change

end LayoutGraph
