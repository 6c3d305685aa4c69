-- Merging. The ledger after passes over several sources is the union of the
-- ledgers of each source alone. Where two sources have a key, the row is that
-- of the source that came first. A pass ends as it would end alone.
import LayoutGraph.Proofs.Ledger.Pass

namespace LayoutGraph

/-! ## Ledgers in a row -/

namespace Ledger

/-- The row of each key is that of the first part that has the key. -/
structure FirstOf (all : Ledger) (parts : List Ledger) : Prop where
  origins : ∀ key, all.origins.lookup key = parts.findSome? fun l => l.origins.lookup key
  symbols : ∀ key, all.symbols.lookup key = parts.findSome? fun l => l.symbols.lookup key
  fields : ∀ key, all.fields.lookup key = parts.findSome? fun l => l.fields.lookup key
  enumerators :
    ∀ key, all.enumerators.lookup key = parts.findSome? fun l => l.enumerators.lookup key

/-- The keys are those of the parts, in no order. -/
structure UnionOf (all : Ledger) (parts : List Ledger) : Prop where
  origins : ∀ key, key ∈ all.origins.map Prod.fst ↔ ∃ l ∈ parts, key ∈ l.origins.map Prod.fst
  symbols : ∀ key, key ∈ all.symbols.map Prod.fst ↔ ∃ l ∈ parts, key ∈ l.symbols.map Prod.fst
  fields : ∀ key, key ∈ all.fields.map Prod.fst ↔ ∃ l ∈ parts, key ∈ l.fields.map Prod.fst
  enumerators :
    ∀ key, key ∈ all.enumerators.map Prod.fst ↔ ∃ l ∈ parts, key ∈ l.enumerators.map Prod.fst

theorem FirstOf.union {all : Ledger} {parts : List Ledger} (h : all.FirstOf parts) :
    all.UnionOf parts where
  origins key := Table.mem_keys_of_first (h.origins key)
  symbols key := Table.mem_keys_of_first (h.symbols key)
  fields key := Table.mem_keys_of_first (h.fields key)
  enumerators key := Table.mem_keys_of_first (h.enumerators key)

/-- The order of the parts and their number do not count for the keys. -/
theorem UnionOf.congr {all : Ledger} {parts others : List Ledger} (h : all.UnionOf parts)
    (same : ∀ l, l ∈ others ↔ l ∈ parts) : all.UnionOf others where
  origins key := by simpa only [same] using h.origins key
  symbols key := by simpa only [same] using h.symbols key
  fields key := by simpa only [same] using h.fields key
  enumerators key := by simpa only [same] using h.enumerators key

/-- The entries of sources, in order. -/
def ofSources (sources : List Source) : Ledger where
  origins := sources.flatMap fun source => source.entries.origins
  symbols := sources.flatMap fun source => source.entries.symbols
  fields := sources.flatMap fun source => source.entries.fields
  enumerators := sources.flatMap fun source => source.entries.enumerators

theorem ofSources_cons (source : Source) (rest : List Source) :
    ofSources (source :: rest) = source.entries ++ ofSources rest := rfl

theorem lookup_merge_flatMap {κ ν : Type} [DecidableEq κ] (f : Source → List (κ × ν))
    (sources : List Source) (key : κ) :
    (Table.merge [] (sources.flatMap f)).lookup key =
      sources.findSome? fun source => (Table.merge [] (f source)).lookup key := by
  rw [Table.lookup_merge_nil, Table.lookup_flatMap]
  simp only [Table.lookup_merge_nil]

theorem firstOf_ofSources (sources : List Source) :
    (Ledger.merge {} (ofSources sources)).FirstOf (sources.map Source.ledger) where
  origins key := by
    rw [List.findSome?_map]
    exact lookup_merge_flatMap _ sources key
  symbols key := by
    rw [List.findSome?_map]
    exact lookup_merge_flatMap _ sources key
  fields key := by
    rw [List.findSome?_map]
    exact lookup_merge_flatMap _ sources key
  enumerators key := by
    rw [List.findSome?_map]
    exact lookup_merge_flatMap _ sources key

end Ledger

/-! ## Passes in a row -/

/-- The dimension lists that passes over the sources take, all together. -/
def listsOfAll : List Source → Nat
  | [] => 0
  | source :: rest => source.lists + listsOfAll rest

@[simp] theorem listsOfAll_cons (source : Source) (rest : List Source) :
    listsOfAll (source :: rest) = source.lists + listsOfAll rest := rfl

@[simp] theorem listsOfAll_append (a b : List Source) :
    listsOfAll (a ++ b) = listsOfAll a + listsOfAll b := by
  induction a with
  | nil => simp [listsOfAll]
  | cons source rest ih =>
    rw [List.cons_append, listsOfAll_cons, listsOfAll_cons, ih]
    omega

namespace Memory

/-- The store after passes over sources, the earliest first. A pass has nothing of the passes
before it but the store, so it does not matter which of them one program makes. -/
def parseAll (m : Memory) (sources : List Source) : Memory :=
  sources.foldl (fun m source => (Session.parse source m).2) m

theorem parseAll_append (m : Memory) (a b : List Source) :
    m.parseAll (a ++ b) = (m.parseAll a).parseAll b := List.foldl_append

/-- Each of the calls to parse returns: none ends the program for want of a list. -/
def Returns (m : Memory) : List Source → Prop
  | [] => True
  | source :: rest => Session.outcome source m ≠ none ∧ (Session.parse source m).2.Returns rest

/-- Calls that return had room for all their lists. -/
theorem Returns.room {sources : List Source} {m : Memory} (h : m.Returns sources)
    (hlast : m.lists.last ≤ ListCounter.greatest) :
    m.lists.last + listsOfAll sources ≤ ListCounter.greatest := by
  induction sources generalizing m with
  | nil => simpa [listsOfAll] using hlast
  | cons source rest ih =>
    obtain ⟨houtcome, h⟩ := h
    have hroom := room_of_outcome hlast houtcome
    obtain ⟨-, -, hlists⟩ := parse_memory source hroom
    have hrest := ih h (by rw [hlists]; exact hroom)
    rw [hlists] at hrest
    rw [listsOfAll_cons]
    push_cast
    omega

theorem parseAll_tells {sources : List Source} {m : Memory} {l : Ledger} (h : m.Tells l)
    (room : m.lists.last + listsOfAll sources ≤ ListCounter.greatest) :
    (m.parseAll sources).Tells (l.merge (Ledger.ofSources sources)) ∧
      (m.parseAll sources).lists.last = m.lists.last + listsOfAll sources := by
  induction sources generalizing m l with
  | nil => exact ⟨h, by simp [parseAll, listsOfAll]⟩
  | cons source rest ih =>
    rw [listsOfAll_cons] at room ⊢
    push_cast at room ⊢
    obtain ⟨-, htells, hlists⟩ := parse_memory (m := m) source (by omega)
    obtain ⟨hrest, hlast⟩ := ih (htells l h) (by rw [hlists]; omega)
    rw [Ledger.ofSources_cons, Ledger.merge_append]
    refine ⟨hrest, ?_⟩
    show ((Session.parse source m).2.parseAll rest).lists.last = _
    rw [hlast, hlists]
    omega

end Memory

/-- The counter has lists for each of the sources where it has lists for all of them. -/
theorem lists_le_of_mem {source : Source} {sources : List Source} (h : source ∈ sources) :
    source.lists ≤ listsOfAll sources := by
  obtain ⟨before, after, rfl⟩ := List.append_of_mem h
  simp only [listsOfAll_append, listsOfAll_cons]
  omega

theorem parse_alone {source : Source} (room : source.lists ≤ ListCounter.greatest) :
    Session.outcome source ({} : Memory) = some source.status ∧
      (Session.parse source ({} : Memory)).2.graph.Reads source.ledger := by
  obtain ⟨hstatus, htells, -⟩ := parse_memory (m := {}) source (by simpa using room)
  exact ⟨hstatus, (htells {} Memory.tells_empty).reads⟩

theorem parseAll_reads {sources : List Source} (room : listsOfAll sources ≤ ListCounter.greatest) :
    (({} : Memory).parseAll sources).graph.Reads (Ledger.merge {} (Ledger.ofSources sources)) :=
  (Memory.parseAll_tells Memory.tells_empty (by simpa using room)).1.reads

theorem room_of_returns {sources : List Source} (h : ({} : Memory).Returns sources) :
    listsOfAll sources ≤ ListCounter.greatest := by
  simpa using h.room (by decide)

/-- Whatever sources are parsed one after another, and however the calls return: each pass ends as
it would alone, and the store has the keys that the sources have alone, each with the row of the
first source that has it. Other orders and repetitions of the sources give the same keys. -/
theorem merging_is_a_union_and_the_first_source_wins (sources : List Source)
    (returns : ({} : Memory).Returns sources) :
    (∀ before source after, sources = before ++ source :: after →
      ∃ status, Session.outcome source (({} : Memory).parseAll before) = some status ∧
        Session.outcome source ({} : Memory) = some status) ∧
    ∃ (solo : Source → Ledger) (all : Ledger),
      (∀ source ∈ sources, (Session.parse source ({} : Memory)).2.graph.Reads (solo source)) ∧
      (({} : Memory).parseAll sources).graph.Reads all ∧ all.KeysOnce ∧
      all.UnionOf (sources.map solo) ∧ all.FirstOf (sources.map solo) ∧
      ∀ others, (∀ source, source ∈ others ↔ source ∈ sources) → ({} : Memory).Returns others →
        ∃ again, (({} : Memory).parseAll others).graph.Reads again ∧ again.KeysOnce ∧
          again.UnionOf (sources.map solo) := by
  have room := room_of_returns returns
  have alone : ∀ source ∈ sources, source.lists ≤ ListCounter.greatest := by
    intro source hsource
    have hle := lists_le_of_mem hsource
    omega
  refine ⟨?_, Source.ledger, Ledger.merge {} (Ledger.ofSources sources), ?_, parseAll_reads room,
    Ledger.keysOnce_empty.merge _, (Ledger.firstOf_ofSources sources).union,
    Ledger.firstOf_ofSources sources, ?_⟩
  · rintro before source after rfl
    simp only [listsOfAll_append, listsOfAll_cons] at room
    push_cast at room
    have hbefore : ({} : Memory).lists.last + listsOfAll before ≤ ListCounter.greatest := by
      show (0 : Int) + _ ≤ _
      omega
    obtain ⟨-, hlast⟩ := Memory.parseAll_tells Memory.tells_empty hbefore
    have hroom : (({} : Memory).parseAll before).lists.last + source.lists ≤
        ListCounter.greatest := by
      rw [hlast]
      show (0 : Int) + _ + _ ≤ _
      omega
    exact ⟨source.status, (parse_memory source hroom).1,
      (parse_alone (alone source (by simp))).1⟩
  · intro source hsource
    exact (parse_alone (alone source hsource)).2
  · intro others same hothers
    refine ⟨_, parseAll_reads (room_of_returns hothers), Ledger.keysOnce_empty.merge _, ?_⟩
    refine (Ledger.firstOf_ofSources others).union.congr fun l => ?_
    simp only [List.mem_map, same]

/-- A struct with one member, at an offset and of a type. -/
def point (origin : String) (offset : Nat) (type : EntryId) : Source where
  origin
  littleEndian := true
  topLevel := [⟨1⟩]
  find? id :=
    if id = ⟨1⟩ then some ⟨id, some "point", some 8, .compound .struct
      [⟨some "x", offset, type, none, none⟩] false⟩
    else if id = ⟨2⟩ then some ⟨id, some "int", some 4, .base⟩
    else none

/-- The member of the second point has no type, so its pass fails, after the first as alone. -/
theorem two_points_merge :
    let sources := [point "a.o" 0 ⟨2⟩, point "b.o" 4 ⟨9⟩]
    ({} : Memory).Returns sources ∧
    (∃ status, Session.outcome (point "b.o" 4 ⟨9⟩) (({} : Memory).parseAll [point "a.o" 0 ⟨2⟩]) =
        some status ∧ Session.outcome (point "b.o" 4 ⟨9⟩) ({} : Memory) = some status) ∧
    ∃ solo all, (({} : Memory).parseAll sources).graph.Reads all ∧ all.KeysOnce ∧
      all.FirstOf (sources.map solo) := by
  intro sources
  have returns : ({} : Memory).Returns sources := by
    refine ⟨?_, ?_, trivial⟩ <;> decide +kernel
  obtain ⟨hstatus, solo, all, -, hreads, honce, -, hfirst, -⟩ :=
    merging_is_a_union_and_the_first_source_wins sources returns
  exact ⟨returns, hstatus [point "a.o" 0 ⟨2⟩] _ [] rfl, solo, all, hreads, honce, hfirst⟩

end LayoutGraph
