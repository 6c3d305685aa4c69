-- Stores in order. In each table the ids ascend and no natural key has two
-- rows, so a row is told by its id and by its key, and the first symbol of a
-- name is the one with the lowest id. Every store that a history leaves is in
-- order, and a store in order answers from its rows alone.
import LayoutGraph.Proofs.Growth
import LayoutGraph.Proofs.History
import LayoutGraph.Proofs.Store.Erring
import LayoutGraph.Proofs.Store.Mirror

namespace LayoutGraph

open Chain
open Database (columnEnd)

/-! ## Tables in order -/

/-- Ids ascend from row to row, and no key has two rows. -/
structure InOrder {ρ κ : Type} (raw : ρ → Int) (key : ρ → κ) (rows : List ρ) : Prop where
  ascending : rows.Pairwise fun a b => raw a < raw b
  keysOnce : (rows.map key).Nodup

namespace InOrder

variable {ρ κ : Type} {raw : ρ → Int} {key : ρ → κ} {rows : List ρ} {a b : ρ}

theorem eq_of_key (h : InOrder raw key rows) (ha : a ∈ rows) (hb : b ∈ rows)
    (same : key a = key b) : a = b :=
  List.inj_on_of_nodup_map h.keysOnce ha hb same

theorem rawOnce (h : InOrder raw key rows) : (rows.map raw).Nodup := by
  rw [List.Nodup, List.pairwise_map]
  exact h.ascending.imp fun less => by omega

theorem eq_of_raw (h : InOrder raw key rows) (ha : a ∈ rows) (hb : b ∈ rows)
    (same : raw a = raw b) : a = b :=
  List.inj_on_of_nodup_map h.rawOnce ha hb same

theorem find?_eq_some [DecidableEq κ] (h : InOrder raw key rows) {k : κ} :
    (rows.find? fun r => key r = k) = some a ↔ a ∈ rows ∧ key a = k := by
  constructor
  · intro hfind
    exact ⟨List.mem_of_find?_eq_some hfind, by simpa using List.find?_some hfind⟩
  · rintro ⟨ha, rfl⟩
    cases hfind : rows.find? fun r => key r = key a with
    | none => simpa using List.find?_eq_none.mp hfind a ha
    | some r =>
      have hkey : key r = key a := by simpa using List.find?_some hfind
      rw [h.eq_of_key (List.mem_of_find?_eq_some hfind) ha hkey]

/-- A row of a new key goes behind the others, with an id above theirs. -/
theorem snoc (h : InOrder raw key rows) (fresh : ∀ r ∈ rows, key r ≠ key a)
    (above : ∀ r ∈ rows, raw r < raw a) : InOrder raw key (rows ++ [a]) := by
  constructor
  · rw [List.pairwise_append]
    refine ⟨h.ascending, List.pairwise_singleton _ _, fun r hr b hb => ?_⟩
    rw [List.mem_singleton.mp hb]
    exact above r hr
  · rw [List.map_append, List.nodup_append]
    refine ⟨h.keysOnce, List.nodup_singleton _, ?_⟩
    intro k hk other hother
    obtain ⟨r, hr, rfl⟩ := List.mem_map.mp hk
    rw [List.mem_singleton.mp hother]
    exact fresh r hr

theorem map (h : InOrder raw key rows) {change : ρ → ρ} (sameRaw : ∀ r, raw (change r) = raw r)
    (sameKey : ∀ r, key (change r) = key r) : InOrder raw key (rows.map change) := by
  constructor
  · rw [List.pairwise_map]
    exact h.ascending.imp fun less => by rw [sameRaw, sameRaw]; exact less
  · rw [List.map_map, show key ∘ change = key from funext sameKey]
    exact h.keysOnce

/-- Rows that are numbered by their places ascend. -/
theorem of_numbered (numbered : Numbered raw rows) (once : (rows.map key).Nodup) :
    InOrder raw key rows := by
  refine ⟨List.pairwise_iff_getElem.mpr fun i j hi hj less => ?_, once⟩
  rw [numbered i _ (List.getElem?_eq_getElem hi), numbered j _ (List.getElem?_eq_getElem hj)]
  omega

end InOrder

namespace Graph

/-- Each table is in order. -/
structure Ordered (g : Graph) : Prop where
  origins : InOrder (fun o : Origin => o.id.raw) Origin.name g.origins
  symbols : InOrder (fun s : Symbol => s.id.raw) Symbol.key g.symbols
  fields : InOrder (fun f : Field => f.id.raw) Field.key g.fields
  dimensions : InOrder (fun d : Dimension => d.id.raw) Dimension.key g.dimensions
  enumerators : InOrder (fun e : Enumerator => e.id.raw) Enumerator.key g.enumerators

/-- The symbol has the name, and no symbol of the name has a lower id. -/
structure Lowest (g : Graph) (name : String) (s : Symbol) : Prop where
  mem : s ∈ g.symbols
  named : s.name = name
  least : ∀ other ∈ g.symbols, other.name = name → s.id.raw ≤ other.id.raw

variable {g : Graph} {name : String} {s : Symbol}

theorem mem_symbolsNamed : s ∈ g.symbolsNamed name ↔ s ∈ g.symbols ∧ s.name = name := by
  simp [symbolsNamed]

namespace Ordered

theorem symbol_eq (h : g.Ordered) {a b : Symbol} (ha : a ∈ g.symbols) (hb : b ∈ g.symbols)
    (same : a.id = b.id) : a = b :=
  h.symbols.eq_of_raw ha hb (congrArg SymbolId.raw same)

theorem symbolIds_once (h : g.Ordered) : (g.symbols.map Symbol.id).Nodup := by
  have once := h.symbols.rawOnce
  rw [show (fun s : Symbol => s.id.raw) = SymbolId.raw ∘ Symbol.id from rfl, ← List.map_map] at once
  exact once.of_map _

theorem field_eq (h : g.Ordered) {a b : Field} (ha : a ∈ g.fields) (hb : b ∈ g.fields)
    (same : a.id = b.id) : a = b :=
  h.fields.eq_of_raw ha hb (congrArg FieldId.raw same)

/-- Of the symbols of a name the first is the one with the lowest id. -/
theorem lowest_of_first (h : g.Ordered) {rest : List Symbol}
    (first : g.symbolsNamed name = s :: rest) : g.Lowest name s := by
  have hs := mem_symbolsNamed.mp (first ▸ List.mem_cons_self : s ∈ g.symbolsNamed name)
  refine ⟨hs.1, hs.2, fun other hother named => ?_⟩
  have ascending := h.symbols.ascending.filter fun s => decide (s.name = name)
  have hmem := mem_symbolsNamed.mpr ⟨hother, named⟩
  unfold symbolsNamed at first hmem
  rw [first] at ascending hmem
  rcases List.mem_cons.mp hmem with rfl | hrest
  · exact Int.le_refl _
  · exact Int.le_of_lt ((List.pairwise_cons.mp ascending).1 other hrest)

theorem lowest_unique (h : g.Ordered) {a b : Symbol} (ha : g.Lowest name a)
    (hb : g.Lowest name b) : a = b := by
  have below := ha.least b hb.mem hb.named
  have above := hb.least a ha.mem ha.named
  exact h.symbols.eq_of_raw ha.mem hb.mem (by omega)

theorem symbolById?_eq_some (h : g.Ordered) {id : SymbolId} :
    g.symbolById? id = some s ↔ s ∈ g.symbols ∧ s.id = id := by
  constructor
  · intro hfind
    exact ⟨List.mem_of_find?_eq_some hfind, by simpa using List.find?_some hfind⟩
  · rintro ⟨hs, rfl⟩
    cases hfind : g.symbolById? s.id with
    | none => simpa using List.find?_eq_none.mp hfind s hs
    | some found =>
      have hid : found.id = s.id := by simpa using List.find?_some hfind
      rw [h.symbol_eq (List.mem_of_find?_eq_some hfind) hs hid]

theorem fieldById?_eq_some (h : g.Ordered) {id : FieldId} {f : Field} :
    g.fieldById? id = some f ↔ f ∈ g.fields ∧ f.id = id := by
  constructor
  · intro hfind
    exact ⟨List.mem_of_find?_eq_some hfind, by simpa using List.find?_some hfind⟩
  · rintro ⟨hf, rfl⟩
    cases hfind : g.fieldById? f.id with
    | none => simpa using List.find?_eq_none.mp hfind f hf
    | some found =>
      have hid : found.id = f.id := by simpa using List.find?_some hfind
      rw [h.field_eq (List.mem_of_find?_eq_some hfind) hf hid]

end Ordered

end Graph

/-! ## Stores in order -/

theorem Memory.Sound.ordered {m : Memory} (h : m.Sound) : m.graph.Ordered where
  origins := .of_numbered h.numbered.origins h.keysOnce.origins
  symbols := .of_numbered h.numbered.symbols h.keysOnce.symbols
  fields := .of_numbered h.numbered.fields h.keysOnce.fields
  dimensions := .of_numbered h.numbered.dimensions h.keysOnce.dimensions
  enumerators := .of_numbered h.numbered.enumerators h.keysOnce.enumerators

namespace Database

theorem le_greatest (ids : List Int) (start : Int) {i : Int} (h : i ≤ start ∨ i ∈ ids) :
    i ≤ ids.foldl max start := by
  induction ids generalizing start with
  | nil => simpa using h
  | cons id rest ih =>
    apply ih (max start id)
    rcases h with h | h
    · exact .inl (by omega)
    · rcases List.mem_cons.mp h with rfl | h
      · exact .inl (by omega)
      · exact .inr h

/-- The next id is above the ids of all rows. -/
theorem lt_nextId {ρ : Type} {raw : ρ → Int} {rows : List ρ} {r : ρ} (h : r ∈ rows) :
    raw r < nextId (rows.map raw) := by
  have below := le_greatest (rows.map raw) 0 (.inr (List.mem_map_of_mem (f := raw) h))
  unfold nextId
  omega

/-- A scan that finds no row of a key. -/
theorem fresh_of_find? {ρ κ : Type} [DecidableEq κ] {rows : List ρ} {key : ρ → κ} {k : κ}
    (h : (rows.find? fun r => key r = k) = none) : ∀ r ∈ rows, key r ≠ k := by
  simpa using h

/-- The tables are in order, the sizes fit their column, and the store may be written. -/
structure Sound (db : Database) : Prop where
  ordered : db.graph.Ordered
  sizes : ∀ s ∈ db.graph.symbols, s.byteSize < columnEnd
  mayWrite : db.mayWrite = true

namespace Sound

variable {db next : Database}

theorem reopen (h : db.Sound) : db.reopen.Sound := ⟨h.ordered, h.sizes, h.mayWrite⟩

theorem insertOrigin (h : db.Sound) {name : String} {littleEndian : Bool}
    {reply : Inserted OriginId} (ok : db.insertOrigin name littleEndian = .ok (reply, next)) :
    next.Sound := by
  unfold Database.insertOrigin at ok
  obtain ⟨-, -, ok⟩ := bind_eq_ok.mp ok
  split at ok <;> cases ok
  · exact h
  · rename_i absent
    have origins := h.ordered.origins.snoc (a := ⟨⟨_⟩, name, littleEndian⟩)
      (fresh_of_find? absent) fun _ => lt_nextId
    exact { h with ordered := { h.ordered with origins } }

theorem insertSymbol (h : db.Sound) {row : NewSymbol} {reply : Inserted SymbolId}
    (ok : db.insertSymbol row = .ok (reply, next)) : next.Sound := by
  unfold Database.insertSymbol at ok
  obtain ⟨_, fits, ok⟩ := bind_eq_ok.mp ok
  obtain ⟨-, -, ok⟩ := bind_eq_ok.mp ok
  split at ok
  · cases ok
    exact h
  · rename_i absent
    obtain ⟨-, -, ok⟩ := bind_eq_ok.mp ok
    cases ok
    have symbols := h.ordered.symbols.snoc (a := row.withId ⟨_⟩)
      (fresh_of_find? absent) fun _ => lt_nextId
    refine { h with ordered := { h.ordered with symbols }, sizes := fun s hs => ?_ }
    rcases List.mem_append.mp hs with hs | hs
    · exact h.sizes s hs
    · rw [List.mem_singleton.mp hs]
      exact checkFits_eq_ok.mp fits

theorem insertField (h : db.Sound) {row : NewField} {reply : Inserted FieldId}
    (ok : db.insertField row = .ok (reply, next)) : next.Sound := by
  unfold Database.insertField at ok
  obtain ⟨-, -, ok⟩ := bind_eq_ok.mp ok
  obtain ⟨-, -, ok⟩ := bind_eq_ok.mp ok
  obtain ⟨-, -, ok⟩ := bind_eq_ok.mp ok
  obtain ⟨-, -, ok⟩ := bind_eq_ok.mp ok
  split at ok
  · cases ok
    exact h
  · rename_i absent
    obtain ⟨-, -, ok⟩ := bind_eq_ok.mp ok
    obtain ⟨-, -, ok⟩ := bind_eq_ok.mp ok
    cases ok
    have fields := h.ordered.fields.snoc (a := row.withId ⟨_⟩)
      (fresh_of_find? absent) fun _ => lt_nextId
    exact { h with ordered := { h.ordered with fields } }

theorem insertDimension (h : db.Sound) {list : ListId} {order extent : Nat} {reply : DimensionId}
    (ok : db.insertDimension list order extent = .ok (reply, next)) : next.Sound := by
  unfold Database.insertDimension at ok
  obtain ⟨-, -, ok⟩ := bind_eq_ok.mp ok
  obtain ⟨-, -, ok⟩ := bind_eq_ok.mp ok
  split at ok
  · cases ok
    exact ⟨h.ordered, h.sizes, h.mayWrite⟩
  · rename_i absent
    cases ok
    let row : Dimension :=
      ⟨⟨nextId (db.graph.dimensions.map fun d => d.id.raw)⟩, list, order, extent⟩
    have dimensions := h.ordered.dimensions.snoc (a := row) (fresh_of_find? absent)
      fun _ => lt_nextId
    exact { h with ordered := { h.ordered with dimensions } }

theorem insertEnumerator (h : db.Sound) {symbol : SymbolId} {name : String} {value : Int}
    {reply : Inserted EnumeratorId}
    (ok : db.insertEnumerator symbol name value = .ok (reply, next)) : next.Sound := by
  unfold Database.insertEnumerator at ok
  obtain ⟨-, -, ok⟩ := bind_eq_ok.mp ok
  split at ok
  · cases ok
    exact h
  · rename_i absent
    obtain ⟨-, -, ok⟩ := bind_eq_ok.mp ok
    cases ok
    let row : Enumerator :=
      ⟨⟨nextId (db.graph.enumerators.map fun e => e.id.raw)⟩, symbol, name, value⟩
    have enumerators := h.ordered.enumerators.snoc (a := row) (fresh_of_find? absent)
      fun _ => lt_nextId
    exact { h with ordered := { h.ordered with enumerators } }

/-- Another type for fields changes neither their keys nor their ids. -/
theorem mapFields (h : db.Sound) {change : Field → Field} (sameKey : ∀ f, (change f).key = f.key)
    (sameId : ∀ f, (change f).id = f.id) :
    Sound { db with graph := { db.graph with fields := db.graph.fields.map change } } :=
  { h with
    ordered := { h.ordered with
      fields := h.ordered.fields.map (fun f => congrArg FieldId.raw (sameId f)) sameKey } }

/-- Whatever is asked of a database in order leaves it in order. -/
theorem answer (h : db.Sound) {α : Type} {request : Request α} {reply : α}
    (ok : db.answer request = .ok (reply, next)) : next.Sound := by
  cases request with
  | insertOrigin name littleEndian => exact h.insertOrigin ok
  | insertSymbol row => exact h.insertSymbol ok
  | insertField row => exact h.insertField ok
  | insertDimension list order extent => exact h.insertDimension ok
  | insertEnumerator symbol name value => exact h.insertEnumerator ok
  | allocateList =>
    obtain ⟨lists, rfl⟩ := allocateList_ok ok
    exact ⟨h.ordered, h.sizes, h.mayWrite⟩
  | retargetFields old new =>
    rw [retargetFields_ok ok]
    exact h.mapFields (fun f => by split <;> rfl) (fun f => by split <;> rfl)
  | setFieldType field type =>
    rw [setFieldType_ok ok]
    exact h.mapFields (fun f => by split <;> rfl) (fun f => by split <;> rfl)
  | findSymbol key =>
    simp only [Database.answer] at ok
    cases hfound : db.findSymbol key <;> rw [hfound] at ok <;> cases ok
    exact h
  | findOrigin _ | findField _ | symbolById _ | fieldById _ | symbolsNamed _ | snapshot
  | commit =>
    cases ok
    exact h

end Sound

end Database

namespace AnyStore

/-- The store is in order: the one in memory has sound indexes, the one in a database may be
written and its sizes fit. -/
def Sound : AnyStore → Prop
  | memory m => m.Sound
  | database db => db.Sound

variable {s : AnyStore}

theorem Sound.ordered (h : s.Sound) : s.graph.Ordered := by
  cases s with
  | memory m => exact Memory.Sound.ordered h
  | database db => exact Database.Sound.ordered h

theorem steady_sound : Steady Sound where
  serve request s h := by
    cases s with
    | memory m =>
      rw [left_serve_memory]
      exact left_ofStep (P := Memory.Sound) h fun _ _ ok => Memory.Sound.answer h _ ok
    | database db =>
      rw [left_serve_database]
      exact left_ofStep (P := Database.Sound) h fun _ _ ok => Database.Sound.answer h ok

theorem Sound.served (h : s.Sound) {α : Type} {request : Request α} {reply : α} {t : AnyStore}
    (ok : Store.serve request s = .ok reply t) : t.Sound :=
  Keeps.of_ok (steady_sound.serve request) h ok

theorem Sound.reopen (h : s.Sound) : s.reopen.Sound := by
  cases s with
  | memory m => exact h
  | database db => exact Database.Sound.reopen h

theorem Sound.act (h : s.Sound) (action : Action) : (s.act action).Sound := by
  cases action with
  | parse source => exact steady_sound.parse source h
  | remap mappings => exact steady_sound.remap mappings { store := s } h
  | override requests => exact steady_sound.override requests { store := s } h
  | ask request => exact steady_sound.serve request s h
  | reopen => exact h.reopen

/-- Every history leaves a store in order that was in order. -/
theorem Sound.after (h : s.Sound) (history : List Action) : (s.after history).Sound := by
  induction history generalizing s with
  | nil => exact h
  | cons action rest ih => exact ih (h.act action)

theorem sound_memory : (memory {}).Sound := Memory.sound_empty

end AnyStore

end LayoutGraph
