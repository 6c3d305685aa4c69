-- A store in memory tells a ledger. Its indexes and its tables agree, each
-- insert adds the entry that the ledger gains, and an insert of a key that
-- is there changes neither.
import LayoutGraph.Proofs.Ledger.Basic
import LayoutGraph.Proofs.Store.Memory

namespace LayoutGraph

/-! ## Indexed tables -/

/-- The index names the rows of the table by their keys, and ids count up to the table's length. -/
structure Indexed {κ ι ρ : Type} [DecidableEq κ] [DecidableEq ι] (index : Index κ ι)
    (rows : List ρ) (key : ρ → κ) (id : ρ → ι) (raw : ι → Int) : Prop where
  found : ∀ k i, index.find? k = some i → (rows.find? fun r => id r = i).map key = some k
  listed : ∀ r ∈ rows, index.find? (key r) = some (id r)
  counted : ∀ r ∈ rows, raw (id r) ≤ rows.length

namespace Indexed

variable {κ ι ρ : Type} [DecidableEq κ] [DecidableEq ι] {index : Index κ ι} {rows : List ρ}
  {key : ρ → κ} {id : ρ → ι} {raw : ι → Int}

theorem empty : Indexed ({} : Index κ ι) [] key id raw where
  found _ _ h := by cases h
  listed _ h := by cases h
  counted _ h := by cases h

theorem mem_of_found (h : Indexed index rows key id raw) {k : κ} {i : ι}
    (hk : index.find? k = some i) : ∃ r ∈ rows, key r = k ∧ id r = i := by
  obtain ⟨r, hr, hkey⟩ := Option.map_eq_some_iff.mp (h.found k i hk)
  exact ⟨r, List.mem_of_find?_eq_some hr, hkey, by simpa using List.find?_some hr⟩

theorem not_mem_of_absent (h : Indexed index rows key id raw) {k : κ}
    (absent : index.find? k = none) : ∀ r ∈ rows, key r ≠ k := by
  rintro r hr rfl
  rw [h.listed r hr] at absent
  cases absent

/-- A row of a new key goes behind the others, under the next id. -/
theorem snoc (h : Indexed index rows key id raw) (row : ρ) (absent : index.find? (key row) = none)
    (next : raw (id row) = Memory.nextId rows) :
    Indexed (index.insert (key row) (id row)) (rows ++ [row]) key id raw := by
  have hfresh : ∀ r ∈ rows, id r ≠ id row := by
    intro r hr heq
    have hcounted := h.counted r hr
    rw [heq, next, Memory.nextId] at hcounted
    omega
  constructor
  · intro k i hk
    rw [Index.find?_insert] at hk
    rw [List.find?_append]
    split at hk
    · rename_i heq
      cases hk
      have hnone : (rows.find? fun r => id r = id row) = none := by
        rw [List.find?_eq_none]
        intro r hr
        simpa using hfresh r hr
      rw [hnone, heq]
      simp
    · obtain ⟨r, hr, hkey⟩ := Option.map_eq_some_iff.mp (h.found k i hk)
      rw [hr, ← hkey]
      rfl
  · intro r hr
    rw [Index.find?_insert]
    rcases List.mem_append.mp hr with hr | hr
    · rw [if_neg (h.not_mem_of_absent absent r hr)]
      exact h.listed r hr
    · rw [List.mem_singleton.mp hr, if_pos rfl]
  · intro r hr
    rw [List.length_append, List.length_singleton]
    rcases List.mem_append.mp hr with hr | hr
    · have hcounted := h.counted r hr
      omega
    · rw [List.mem_singleton.mp hr, next, Memory.nextId]
      omega

end Indexed

/-! ## Entries of readings -/

section

variable {α κ ν : Type} [DecidableEq κ] {f : α → Option (κ × ν)} {rows : List α}
  {entries : List (κ × ν)} {key : κ}

theorem lookup_of_row (h : rows.map f = entries.map some) {x : α} (hx : x ∈ rows)
    (hkey : ∀ e, f x = some e → e.1 = key) : (entries.lookup key).isSome := by
  have hmem : f x ∈ entries.map some := h ▸ List.mem_map_of_mem hx
  obtain ⟨e, he, heq⟩ := List.mem_map.mp hmem
  rw [Table.lookup_isSome_iff_mem, ← hkey e heq.symm]
  exact List.mem_map_of_mem he

theorem lookup_of_no_row (h : rows.map f = entries.map some)
    (hkey : ∀ x ∈ rows, ∀ e, f x = some e → e.1 ≠ key) : entries.lookup key = none := by
  rw [Table.lookup_eq_none_iff_not_mem]
  intro hmem
  obtain ⟨e, he, rfl⟩ := List.mem_map.mp hmem
  have hrow : some e ∈ rows.map f := h ▸ List.mem_map_of_mem he
  obtain ⟨x, hx, heq⟩ := List.mem_map.mp hrow
  exact hkey x hx e heq rfl

end

namespace Graph

theorem ReadsIn.readOrigins {g rows : Graph} {l : Ledger} (h : g.ReadsIn rows l) :
    (rows.origins.map fun o => some (o.name, o.littleEndian)) = l.origins.map some := by
  rw [← h.origins, List.map_map]
  rfl

theorem readSymbol_key {g : Graph} {s : Symbol} {e : SymbolKey × String}
    (h : g.readSymbol s = some e) : e.1 = s.key := by
  obtain ⟨o, -, rfl⟩ := Option.map_eq_some_iff.mp h
  rfl

theorem readField_key {g : Graph} {f : Field} {e : MemberKey × FieldContent}
    (h : g.readField f = some e) :
    g.symbolKey? f.owner = some e.1.owner ∧ f.name = e.1.name := by
  obtain ⟨owner, howner, h⟩ := Option.bind_eq_some_iff.mp h
  obtain ⟨type, -, h⟩ := Option.bind_eq_some_iff.mp h
  cases h
  exact ⟨howner, rfl⟩

theorem readEnumerator_key {g : Graph} {c : Enumerator} {e : MemberKey × Int}
    (h : g.readEnumerator c = some e) :
    g.symbolKey? c.symbol = some e.1.owner ∧ c.name = e.1.name := by
  obtain ⟨owner, howner, rfl⟩ := Option.map_eq_some_iff.mp h
  exact ⟨howner, rfl⟩

end Graph

/-! ## Telling a ledger -/

namespace Memory

/-- The store without its row ids is the ledger, its indexes name its rows, and no list beyond the
counter is in use. -/
structure Tells (m : Memory) (l : Ledger) : Prop where
  reads : m.graph.Reads l
  origins : Indexed m.originIndex m.graph.origins Origin.name Origin.id OriginId.raw
  symbols : Indexed m.symbolIndex m.graph.symbols Symbol.key Symbol.id SymbolId.raw
  fields : Indexed m.fieldIndex m.graph.fields Field.key Field.id FieldId.raw
  enumerators :
    Indexed m.enumeratorIndex m.graph.enumerators Enumerator.key Enumerator.id EnumeratorId.raw
  dimensions : ∀ d ∈ m.graph.dimensions, d.list.raw ≤ m.lists.last
  axes : ∀ key id, m.dimensionIndex.find? key = some id → key.list.raw ≤ m.lists.last
  lists : ∀ f ∈ m.graph.fields, ∀ list, f.dimensions = some list → list.raw ≤ m.lists.last

variable {m : Memory} {l : Ledger}

theorem tells_empty : Tells {} {} where
  reads := ⟨rfl, rfl, rfl, rfl⟩
  origins := .empty
  symbols := .empty
  fields := .empty
  enumerators := .empty
  dimensions _ h := by cases h
  axes _ _ h := by cases h
  lists _ h := by cases h

namespace Tells

theorem symbolKey?_of_find (h : m.Tells l) {key : SymbolKey} {id : SymbolId}
    (hid : m.symbolIndex.find? key = some id) : m.graph.symbolKey? id = some key :=
  h.symbols.found key id hid

theorem find_of_symbolKey? (h : m.Tells l) {key : SymbolKey} {id : SymbolId}
    (hkey : m.graph.symbolKey? id = some key) : m.symbolIndex.find? key = some id := by
  obtain ⟨s, hs, rfl⟩ := Option.map_eq_some_iff.mp hkey
  have hid : s.id = id := by simpa using List.find?_some hs
  rw [← hid]
  exact h.symbols.listed s (List.mem_of_find?_eq_some hs)

theorem originById?_of_find (h : m.Tells l) {name : String} {id : OriginId}
    (hid : m.originIndex.find? name = some id) :
    ∃ o, m.graph.originById? id = some o ∧ o.name = name :=
  Option.map_eq_some_iff.mp (h.origins.found name id hid)

/-! ## Presence of keys -/

theorem origin_absent (h : m.Tells l) {name : String} (absent : m.originIndex.find? name = none) :
    l.origins.lookup name = none :=
  lookup_of_no_row h.reads.readOrigins fun o ho _ he heq => by
    cases he
    exact h.origins.not_mem_of_absent absent o ho heq

theorem origin_present (h : m.Tells l) {name : String} {id : OriginId}
    (present : m.originIndex.find? name = some id) : (l.origins.lookup name).isSome := by
  obtain ⟨o, ho, rfl, -⟩ := h.origins.mem_of_found present
  exact lookup_of_row h.reads.readOrigins ho fun e he => by cases he; rfl

theorem symbol_absent (h : m.Tells l) {key : SymbolKey} (absent : m.symbolIndex.find? key = none) :
    l.symbols.lookup key = none :=
  lookup_of_no_row h.reads.symbols fun s hs _ he heq =>
    h.symbols.not_mem_of_absent absent s hs ((Graph.readSymbol_key he).symm.trans heq)

theorem symbol_present (h : m.Tells l) {key : SymbolKey} {id : SymbolId}
    (present : m.symbolIndex.find? key = some id) : (l.symbols.lookup key).isSome := by
  obtain ⟨s, hs, rfl, -⟩ := h.symbols.mem_of_found present
  exact lookup_of_row h.reads.symbols hs fun e he => Graph.readSymbol_key he

theorem field_absent (h : m.Tells l) {key : MemberKey} {owner : SymbolId}
    (howner : m.symbolIndex.find? key.owner = some owner)
    (absent : m.fieldIndex.find? ⟨owner, key.name⟩ = none) : l.fields.lookup key = none := by
  refine lookup_of_no_row h.reads.fields fun f hf e he heq => ?_
  obtain ⟨hkey, hname⟩ := Graph.readField_key he
  subst heq
  have hfind := h.find_of_symbolKey? hkey
  rw [howner] at hfind
  cases hfind
  exact h.fields.not_mem_of_absent absent f hf (congrArg (FieldKey.mk f.owner) hname)

theorem field_present (h : m.Tells l) (key : MemberKey) {owner : SymbolId} {id : FieldId}
    (howner : m.symbolIndex.find? key.owner = some owner)
    (present : m.fieldIndex.find? ⟨owner, key.name⟩ = some id) :
    (l.fields.lookup key).isSome := by
  obtain ⟨f, hf, hfkey, -⟩ := h.fields.mem_of_found present
  obtain ⟨rfl, hfname⟩ := FieldKey.mk.inj hfkey
  refine lookup_of_row h.reads.fields hf fun e he => ?_
  obtain ⟨hkey, hname⟩ := Graph.readField_key he
  rw [h.symbolKey?_of_find howner] at hkey
  exact MemberKey.ext (Option.some.inj hkey).symm (hname.symm.trans hfname)

theorem enumerator_absent (h : m.Tells l) {key : MemberKey} {owner : SymbolId}
    (howner : m.symbolIndex.find? key.owner = some owner)
    (absent : m.enumeratorIndex.find? ⟨owner, key.name⟩ = none) :
    l.enumerators.lookup key = none := by
  refine lookup_of_no_row h.reads.enumerators fun c hc e he heq => ?_
  obtain ⟨hkey, hname⟩ := Graph.readEnumerator_key he
  subst heq
  have hfind := h.find_of_symbolKey? hkey
  rw [howner] at hfind
  cases hfind
  exact h.enumerators.not_mem_of_absent absent c hc (congrArg (EnumeratorKey.mk c.symbol) hname)

theorem enumerator_present (h : m.Tells l) {key : MemberKey} {owner : SymbolId} {id : EnumeratorId}
    (howner : m.symbolIndex.find? key.owner = some owner)
    (present : m.enumeratorIndex.find? ⟨owner, key.name⟩ = some id) :
    (l.enumerators.lookup key).isSome := by
  obtain ⟨c, hc, hckey, -⟩ := h.enumerators.mem_of_found present
  obtain ⟨rfl, hcname⟩ := EnumeratorKey.mk.inj hckey
  refine lookup_of_row h.reads.enumerators hc fun e he => ?_
  obtain ⟨hkey, hname⟩ := Graph.readEnumerator_key he
  rw [h.symbolKey?_of_find howner] at hkey
  exact MemberKey.ext (Option.some.inj hkey).symm (hname.symm.trans hcname)

/-! ## Inserts -/

/-- Rows may come behind those that are there, unless they are axes of a list in use. -/
theorem add_rows (h : m.Tells l) (more : Graph) (added : Ledger)
    (reads : (m.graph ++ more).ReadsIn more added)
    (axes : ∀ d ∈ more.dimensions, m.lists.last < d.list.raw) :
    (m.graph ++ more).Reads (l ++ added) := by
  refine Graph.ReadsIn.append (h.reads.extend fun f hf list hlist d hd heq => ?_) reads
  have hle := h.lists f hf list hlist
  have hlt := axes d hd
  rw [heq] at hlt
  omega

theorem insertOrigin (h : m.Tells l) (name : String) (littleEndian : Bool) :
    (m.insertOrigin name littleEndian).2.Tells
      { l with origins := Table.addNew l.origins (name, littleEndian) } := by
  unfold Memory.insertOrigin
  split
  · rename_i id hfind
    rw [Table.addNew_of_mem (h.origin_present hfind)]
    exact h
  · rename_i hfind
    rw [Table.addNew_of_new (h.origin_absent hfind)]
    let row : Origin := ⟨⟨nextId m.graph.origins⟩, name, littleEndian⟩
    have hreads := h.add_rows { origins := [row] } { origins := [(name, littleEndian)] }
      ⟨rfl, rfl, rfl, rfl⟩ (by simp)
    simp only [Ledger.append_def, Graph.append_def, List.append_nil] at hreads
    exact { h with reads := hreads, origins := h.origins.snoc row hfind rfl }

theorem insertSymbol (h : m.Tells l) {row : NewSymbol} {origin : String}
    (horigin : m.originIndex.find? origin = some row.origin) :
    (m.insertSymbol row).2.Tells { l with symbols := Table.addNew l.symbols (row.key, origin) } := by
  unfold Memory.insertSymbol
  split
  · rename_i id hfind
    rw [Table.addNew_of_mem (h.symbol_present hfind)]
    exact h
  · rename_i hfind
    rw [Table.addNew_of_new (h.symbol_absent hfind)]
    let new : Symbol := row.withId ⟨nextId m.graph.symbols⟩
    obtain ⟨o, ho, rfl⟩ := h.originById?_of_find horigin
    have hentry : (m.graph ++ { symbols := [new] }).readSymbol new = some (row.key, o.name) := by
      unfold Graph.readSymbol
      rw [show new.origin = row.origin from rfl, Graph.originById?_append ho]
      rfl
    have hreads := h.add_rows { symbols := [new] } { symbols := [(row.key, o.name)] }
      ⟨rfl, by simp [hentry], rfl, rfl⟩ (by simp)
    simp only [Ledger.append_def, Graph.append_def, List.append_nil] at hreads
    exact { h with reads := hreads, symbols := h.symbols.snoc new hfind rfl }

theorem insertEnumerator (h : m.Tells l) (key : MemberKey) {symbol : SymbolId}
    (hsymbol : m.symbolIndex.find? key.owner = some symbol) (value : Int) :
    (m.insertEnumerator symbol key.name value).2.Tells
      { l with enumerators := Table.addNew l.enumerators (key, value) } := by
  unfold Memory.insertEnumerator
  split
  · rename_i id hfind
    rw [Table.addNew_of_mem (h.enumerator_present hsymbol hfind)]
    exact h
  · rename_i hfind
    rw [Table.addNew_of_new (h.enumerator_absent hsymbol hfind)]
    let new : Enumerator := ⟨⟨nextId m.graph.enumerators⟩, symbol, key.name, value⟩
    have hentry : (m.graph ++ { enumerators := [new] }).readEnumerator new = some (key, value) := by
      unfold Graph.readEnumerator
      rw [show new.symbol = symbol from rfl,
        Graph.symbolKey?_append (h.symbolKey?_of_find hsymbol)]
      rfl
    have hreads := h.add_rows { enumerators := [new] } { enumerators := [(key, value)] }
      ⟨rfl, rfl, rfl, by simp [hentry]⟩ (by simp)
    simp only [Ledger.append_def, Graph.append_def, List.append_nil] at hreads
    exact { h with reads := hreads, enumerators := h.enumerators.snoc new hfind rfl }

/-- A list that nothing uses may be taken. -/
theorem take_list (h : m.Tells l) : Tells { m with lists := ⟨m.lists.last + 1⟩ } l where
  reads := h.reads
  origins := h.origins
  symbols := h.symbols
  fields := h.fields
  enumerators := h.enumerators
  dimensions d hd := Int.le_trans (h.dimensions d hd) (Int.le_add_one (Int.le_refl _))
  axes key id hid := Int.le_trans (h.axes key id hid) (Int.le_add_one (Int.le_refl _))
  lists f hf list hlist := Int.le_trans (h.lists f hf list hlist) (Int.le_add_one (Int.le_refl _))

end Tells

end Memory

end LayoutGraph
