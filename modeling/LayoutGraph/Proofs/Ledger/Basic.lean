-- The ledger: a graph told without row ids. Each table is a list of natural
-- keys and contents, ids are read as the keys of their rows, and dimension
-- lists are read as their extents.
import LayoutGraph.Graph.Query
import LayoutGraph.Proofs.Ledger.Table
import LayoutGraph.Proofs.Survey.Yield

namespace LayoutGraph

/-! ## Ledgers -/

/-- The key of a field or of an enumeration constant: the key of the symbol that has it, and its
name. -/
@[ext] structure MemberKey where
  owner : SymbolKey
  name : String
deriving DecidableEq, Repr, Inhabited

/-- What a field says besides its key. -/
structure FieldContent where
  byteOffset : Nat
  type : SymbolKey
  extents : List Nat
  littleEndian : Bool
  bitSize : Option Nat
  bitOffset : Option Nat
  pointerDepth : Nat
deriving DecidableEq, Repr, Inhabited

/-- What a row says besides its key, with its type and its list told without row ids. -/
def NewField.content (row : NewField) (type : SymbolKey) (extents : List Nat) : FieldContent :=
  ⟨row.byteOffset, type, extents, row.littleEndian, row.bitSize, row.bitOffset, row.pointerDepth⟩

/-- Inputs with their byte order, symbols with the input that first had them, fields with their
content, and constants with their value. -/
structure Ledger where
  origins : List (String × Bool) := []
  symbols : List (SymbolKey × String) := []
  fields : List (MemberKey × FieldContent) := []
  enumerators : List (MemberKey × Int) := []
deriving DecidableEq, Repr, Inhabited

namespace Ledger

instance : Append Ledger where
  append a b := ⟨a.origins ++ b.origins, a.symbols ++ b.symbols, a.fields ++ b.fields,
    a.enumerators ++ b.enumerators⟩

theorem append_def (a b : Ledger) : a ++ b = ⟨a.origins ++ b.origins, a.symbols ++ b.symbols,
    a.fields ++ b.fields, a.enumerators ++ b.enumerators⟩ := rfl

/-- A ledger after entries were added table by table; what is there stays. -/
def merge (l entries : Ledger) : Ledger :=
  ⟨Table.merge l.origins entries.origins, Table.merge l.symbols entries.symbols,
    Table.merge l.fields entries.fields, Table.merge l.enumerators entries.enumerators⟩

/-- Each key has one row in its table. -/
structure KeysOnce (l : Ledger) : Prop where
  origins : Table.KeysOnce l.origins
  symbols : Table.KeysOnce l.symbols
  fields : Table.KeysOnce l.fields
  enumerators : Table.KeysOnce l.enumerators

theorem merge_append (l a b : Ledger) : l.merge (a ++ b) = (l.merge a).merge b := by
  show Ledger.mk _ _ _ _ = Ledger.mk _ _ _ _
  congr 1 <;> exact Table.merge_append _ _ _

theorem keysOnce_empty : KeysOnce {} :=
  ⟨Table.keysOnce_nil, Table.keysOnce_nil, Table.keysOnce_nil, Table.keysOnce_nil⟩

theorem KeysOnce.merge {l : Ledger} (h : l.KeysOnce) (entries : Ledger) :
    (l.merge entries).KeysOnce :=
  ⟨Table.keysOnce_merge h.origins _, Table.keysOnce_merge h.symbols _,
    Table.keysOnce_merge h.fields _, Table.keysOnce_merge h.enumerators _⟩

end Ledger

/-! ## What steps enter -/

namespace Survey

/-- The symbols that a step needs to be there. -/
def Step.symbols : Step → List SymbolKey
  | .visit _ _ => []
  | .symbol key => [key]
  | .field step => [step.owner, step.type]
  | .enumerator key _ => [key]

/-- What a field of a source in this byte order says. -/
def FieldStep.content (littleEndian : Bool) (step : FieldStep) : FieldContent where
  byteOffset := step.byteOffset
  type := step.type
  extents := step.extents
  littleEndian := littleEndian
  bitSize := step.bitSize
  bitOffset := step.bitOffset
  pointerDepth := step.pointerDepth

/-- The entries of one step of a source. -/
def Step.entries (origin : String) (littleEndian : Bool) (step : Step) : Ledger where
  symbols := step.symbols.map fun key => (key, origin)
  fields := match step with
    | .field member => [(⟨member.owner, member.name⟩, member.content littleEndian)]
    | _ => []
  enumerators := match step with
    | .enumerator key constant => [(⟨key, constant.name⟩, constant.value)]
    | _ => []

/-- The entries of steps, in order. -/
def entriesOf (origin : String) (littleEndian : Bool) (steps : List Step) : Ledger where
  symbols := steps.flatMap fun step => (step.entries origin littleEndian).symbols
  fields := steps.flatMap fun step => (step.entries origin littleEndian).fields
  enumerators := steps.flatMap fun step => (step.entries origin littleEndian).enumerators

theorem entriesOf_cons (origin : String) (littleEndian : Bool) (step : Step) (rest : List Step) :
    entriesOf origin littleEndian (step :: rest) =
      step.entries origin littleEndian ++ entriesOf origin littleEndian rest := rfl

theorem mem_symbols_entriesOf {origin : String} {littleEndian : Bool} {steps : List Step}
    {key : SymbolKey} : key ∈ (entriesOf origin littleEndian steps).symbols.map Prod.fst ↔
      ∃ step ∈ steps, key ∈ step.symbols := by
  simp [entriesOf, Step.entries]

theorem mem_fields_entriesOf {origin : String} {littleEndian : Bool} {steps : List Step}
    {entry : MemberKey × FieldContent} :
    entry ∈ (entriesOf origin littleEndian steps).fields ↔ ∃ step, .field step ∈ steps ∧
      entry = (⟨step.owner, step.name⟩, step.content littleEndian) := by
  simp only [entriesOf, List.mem_flatMap]
  constructor
  · rintro ⟨step, hstep, hentry⟩
    cases step with
    | field step => exact ⟨step, hstep, List.mem_singleton.mp hentry⟩
    | _ => cases hentry
  · rintro ⟨step, hstep, rfl⟩
    exact ⟨.field step, hstep, List.mem_singleton_self _⟩

theorem mem_enumerators_entriesOf {origin : String} {littleEndian : Bool} {steps : List Step}
    {entry : MemberKey × Int} :
    entry ∈ (entriesOf origin littleEndian steps).enumerators ↔
      ∃ key c, .enumerator key c ∈ steps ∧ entry = (⟨key, c.name⟩, c.value) := by
  simp only [entriesOf, List.mem_flatMap]
  constructor
  · rintro ⟨step, hstep, hentry⟩
    cases step with
    | enumerator key c => exact ⟨key, c, hstep, List.mem_singleton.mp hentry⟩
    | _ => cases hentry
  · rintro ⟨key, c, hstep, rfl⟩
    exact ⟨.enumerator key c, hstep, List.mem_singleton_self _⟩

/-- A field is looked up as the first step of its key writes it. -/
theorem exists_first_field {origin : String} {littleEndian : Bool} {steps : List Step}
    {key : MemberKey} {content : FieldContent}
    (h : (entriesOf origin littleEndian steps).fields.lookup key = some content) :
    ∃ before step after, steps = before ++ .field step :: after ∧ key = ⟨step.owner, step.name⟩ ∧
      content = step.content littleEndian ∧
      ∀ s, .field s ∈ before → (⟨s.owner, s.name⟩ : MemberKey) ≠ key := by
  obtain ⟨before, step, after, rfl, hstep, hbefore⟩ :=
    List.findSome?_eq_some_iff.mp ((Table.lookup_flatMap _ _ _).symm.trans h)
  cases step with
  | field step =>
    cases List.mem_singleton.mp (Table.mem_of_lookup hstep)
    refine ⟨before, step, after, rfl, rfl, rfl, fun s hs heq => ?_⟩
    have hnone := hbefore _ hs
    rw [← heq] at hnone
    simp [Step.entries] at hnone
  | _ => cases hstep

/-- A constant is looked up as the first step of its key writes it. -/
theorem exists_first_enumerator {origin : String} {littleEndian : Bool} {steps : List Step}
    {key : MemberKey} {value : Int}
    (h : (entriesOf origin littleEndian steps).enumerators.lookup key = some value) :
    ∃ before owner c after, steps = before ++ .enumerator owner c :: after ∧
      key = ⟨owner, c.name⟩ ∧ value = c.value ∧
      ∀ owner' c', .enumerator owner' c' ∈ before → (⟨owner', c'.name⟩ : MemberKey) ≠ key := by
  obtain ⟨before, step, after, rfl, hstep, hbefore⟩ :=
    List.findSome?_eq_some_iff.mp ((Table.lookup_flatMap _ _ _).symm.trans h)
  cases step with
  | enumerator owner c =>
    cases List.mem_singleton.mp (Table.mem_of_lookup hstep)
    refine ⟨before, owner, c, after, rfl, rfl, rfl, fun owner' c' hc heq => ?_⟩
    have hnone := hbefore _ hc
    rw [← heq] at hnone
    simp [Step.entries] at hnone
  | _ => cases hstep

end Survey

/-- All that a pass over the source enters into a ledger. -/
def Source.entries (source : Source) : Ledger :=
  { Survey.entriesOf source.origin source.littleEndian source.steps with
    origins := [(source.origin, source.littleEndian)] }

/-! ## Reading a graph -/

namespace Graph

def symbolKey? (g : Graph) (id : SymbolId) : Option SymbolKey :=
  (g.symbolById? id).map Symbol.key

/-- The extents of a list, the outermost first; a field without a list has none. -/
def extentsOf (g : Graph) : Option ListId → List Nat
  | none => []
  | some list => (g.dimensionsOf list).map Dimension.extent

/-- A symbol, if its origin is there. -/
def readSymbol (g : Graph) (s : Symbol) : Option (SymbolKey × String) :=
  (g.originById? s.origin).map fun o => (s.key, o.name)

/-- A field, if its owner and its type are there. -/
def readField (g : Graph) (f : Field) : Option (MemberKey × FieldContent) := do
  let owner ← g.symbolKey? f.owner
  let type ← g.symbolKey? f.type
  return (⟨owner, f.name⟩, ⟨f.byteOffset, type, g.extentsOf f.dimensions, f.littleEndian, f.bitSize,
    f.bitOffset, f.pointerDepth⟩)

/-- A constant, if its symbol is there. -/
def readEnumerator (g : Graph) (e : Enumerator) : Option (MemberKey × Int) :=
  (g.symbolKey? e.symbol).map fun owner => (⟨owner, e.name⟩, e.value)

/-- The rows, with their ids read in the graph, are the entries of the ledger one by one: every id
in them leads to a row of the graph. -/
structure ReadsIn (g rows : Graph) (l : Ledger) : Prop where
  origins : (rows.origins.map fun o => (o.name, o.littleEndian)) = l.origins
  symbols : rows.symbols.map g.readSymbol = l.symbols.map some
  fields : rows.fields.map g.readField = l.fields.map some
  enumerators : rows.enumerators.map g.readEnumerator = l.enumerators.map some

/-- The graph without its row ids is the ledger. -/
def Reads (g : Graph) (l : Ledger) : Prop := g.ReadsIn g l

/-- A graph has one ledger. -/
theorem Reads.unique {g : Graph} {a b : Ledger} (ha : g.Reads a) (hb : g.Reads b) : a = b := by
  have one {α : Type} {x y : List α} (h : x.map some = y.map some) : x = y :=
    List.map_injective_iff.mpr (fun _ _ => Option.some.inj) h
  cases a
  cases b
  simp only [Ledger.mk.injEq]
  exact ⟨ha.origins.symm.trans hb.origins, one (ha.symbols.symm.trans hb.symbols),
    one (ha.fields.symm.trans hb.fields), one (ha.enumerators.symm.trans hb.enumerators)⟩

/-- The keys of the symbols are those of the ledger, in order. -/
theorem Reads.symbolKeys {g : Graph} {l : Ledger} (h : g.Reads l) :
    g.symbols.map Symbol.key = l.symbols.map Prod.fst := by
  have hread : ∀ s ∈ g.symbols, (g.readSymbol s).map Prod.fst = some s.key := by
    intro s hs
    have hmem : g.readSymbol s ∈ l.symbols.map some := h.symbols ▸ List.mem_map_of_mem hs
    obtain ⟨entry, -, hentry⟩ := List.mem_map.mp hmem
    obtain ⟨o, -, rfl⟩ := Option.map_eq_some_iff.mp hentry.symm
    rw [← hentry]
    rfl
  have hkeys := congrArg (List.map (Option.map Prod.fst)) h.symbols
  rw [List.map_map, List.map_map] at hkeys
  refine List.map_injective_iff.mpr (fun _ _ => Option.some.inj) ?_
  rw [List.map_map, List.map_map]
  exact (List.map_congr_left fun s hs => (hread s hs).symm).trans hkeys

/-! ## Rows behind rows -/

instance : Append Graph where
  append a b := ⟨a.origins ++ b.origins, a.symbols ++ b.symbols, a.fields ++ b.fields,
    a.dimensions ++ b.dimensions, a.enumerators ++ b.enumerators⟩

theorem append_def (a b : Graph) : a ++ b = ⟨a.origins ++ b.origins, a.symbols ++ b.symbols,
    a.fields ++ b.fields, a.dimensions ++ b.dimensions, a.enumerators ++ b.enumerators⟩ := rfl

theorem ReadsIn.append {g a b : Graph} {l k : Ledger} (ha : g.ReadsIn a l) (hb : g.ReadsIn b k) :
    g.ReadsIn (a ++ b) (l ++ k) where
  origins := List.map_append.trans (congrArg₂ _ ha.origins hb.origins)
  symbols := by
    show (a.symbols ++ b.symbols).map _ = (l.symbols ++ k.symbols).map _
    rw [List.map_append, List.map_append, ha.symbols, hb.symbols]
  fields := by
    show (a.fields ++ b.fields).map _ = (l.fields ++ k.fields).map _
    rw [List.map_append, List.map_append, ha.fields, hb.fields]
  enumerators := by
    show (a.enumerators ++ b.enumerators).map _ = (l.enumerators ++ k.enumerators).map _
    rw [List.map_append, List.map_append, ha.enumerators, hb.enumerators]

/-- Readings that succeed and are kept by another reader come out the same. -/
theorem map_eq_of_some {α β : Type} {f f' : α → Option β} {rows : List α} {entries : List β}
    (h : rows.map f = entries.map some) (kept : ∀ x ∈ rows, ∀ y, f x = some y → f' x = some y) :
    rows.map f' = entries.map some := by
  rw [← h]
  refine List.map_congr_left fun x hx => ?_
  have hmem : f x ∈ entries.map some := h ▸ List.mem_map_of_mem hx
  obtain ⟨y, -, hy⟩ := List.mem_map.mp hmem
  rw [← hy, kept x hx y hy.symm]

theorem symbolKey?_append {g : Graph} {id : SymbolId} {key : SymbolKey}
    (h : g.symbolKey? id = some key) (more : Graph) : (g ++ more).symbolKey? id = some key := by
  unfold symbolKey? symbolById? at h ⊢
  obtain ⟨s, hs, rfl⟩ := Option.map_eq_some_iff.mp h
  show Option.map _ ((g.symbols ++ more.symbols).find? _) = _
  rw [List.find?_append, hs]
  rfl

theorem originById?_append {g : Graph} {id : OriginId} {o : Origin} (h : g.originById? id = some o)
    (more : Graph) : (g ++ more).originById? id = some o := by
  unfold originById? at h ⊢
  show (g.origins ++ more.origins).find? _ = _
  rw [List.find?_append, h]
  rfl

/-- A list that gains no axis keeps its extents. -/
theorem extentsOf_append {g more : Graph} {list? : Option ListId}
    (h : ∀ list, list? = some list → ∀ d ∈ more.dimensions, d.list ≠ list) :
    (g ++ more).extentsOf list? = g.extentsOf list? := by
  cases list? with
  | none => rfl
  | some list =>
    unfold extentsOf dimensionsOf
    show ((((g.dimensions ++ more.dimensions).filter _).mergeSort _).map _) = _
    have hnone : (more.dimensions.filter fun d => d.list = list) = [] := by
      rw [List.filter_eq_nil_iff]
      intro d hd
      simpa using h list rfl d hd
    rw [List.filter_append, hnone, List.append_nil]

/-- Rows read the same when more rows come, unless these are axes of their lists. -/
theorem ReadsIn.extend {g rows more : Graph} {l : Ledger} (h : g.ReadsIn rows l)
    (lists : ∀ f ∈ rows.fields, ∀ list, f.dimensions = some list →
      ∀ d ∈ more.dimensions, d.list ≠ list) :
    (g ++ more).ReadsIn rows l where
  origins := h.origins
  symbols := map_eq_of_some h.symbols fun s _ e he => by
    unfold readSymbol at he ⊢
    obtain ⟨o, ho, rfl⟩ := Option.map_eq_some_iff.mp he
    rw [originById?_append ho]
    rfl
  fields := map_eq_of_some h.fields fun f hf e he => by
    unfold readField at he ⊢
    obtain ⟨owner, howner, he⟩ := Option.bind_eq_some_iff.mp he
    obtain ⟨type, htype, he⟩ := Option.bind_eq_some_iff.mp he
    rw [symbolKey?_append howner, symbolKey?_append htype, extentsOf_append (lists f hf)]
    exact he
  enumerators := map_eq_of_some h.enumerators fun c _ e he => by
    unfold readEnumerator at he ⊢
    obtain ⟨owner, howner, rfl⟩ := Option.map_eq_some_iff.mp he
    rw [symbolKey?_append howner]
    rfl

end Graph

end LayoutGraph
