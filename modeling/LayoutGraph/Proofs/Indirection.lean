-- What the pointer depth of a field counts: the pointers on the way from the
-- type of its member to the symbol that the field has as its type. The walk
-- down the type ends at an array behind a pointer, so the pointers behind such
-- an array are not counted.
import LayoutGraph.Proofs.Exactness
import LayoutGraph.Proofs.Survey.InTurn

namespace LayoutGraph

open Survey

variable {source : Source}

namespace Survey

/-! ## Pointers behind arrays -/

/-- There are pointers behind an array that is itself behind a pointer. -/
inductive HidesPointers (source : Source) (type : EntryId) : Prop
  | mk {array element : EntryId} {e : Entry} {own extents : List Nat} {pointers hidden : Nat}
    {last : Option Entry} : Leads source false type extents pointers (some array) →
    source.find? array = some e → e.kind = .array element own →
    Way source (some array) (hidden + 1) last → HidesPointers source type

/-- A shape ends neither at a qualifier nor at a pointer. -/
theorem Leads.goal_stops {crossed : Bool} {id goal : EntryId} {extents : List Nat} {pointers : Nat}
    (h : Leads source crossed id extents pointers (some goal)) {e : Entry}
    (hfind : source.find? goal = some e) :
    (∀ target, e.kind ≠ .qualified target) ∧ ∀ target, e.kind ≠ .pointer target := by
  generalize hgoal : some goal = target at h
  induction h with
  | stop hother hqualified hpointer =>
    cases hgoal
    cases hfind.symm.trans hother
    exact ⟨hqualified, hpointer⟩
  | qualified _ _ _ ih => exact ih hgoal
  | qualifiedVoid => cases hgoal
  | array _ _ _ ih => exact ih hgoal
  | pointer _ _ _ ih => exact ih hgoal
  | pointerVoid => cases hgoal

/-- Pointers are left behind the goal of a shape only where that is an array. -/
theorem Leads.rest_eq_zero_iff {type : EntryId} {extents : List Nat} {pointers rest : Nat}
    {goal : Option EntryId} {last : Option Entry}
    (h : Leads source false type extents pointers goal) (hgoal : Way source goal rest last) :
    rest = 0 ↔ ¬ HidesPointers source type := by
  constructor
  · rintro hrest ⟨hleads, -, -, hway⟩
    obtain ⟨-, -, rfl⟩ := leads_unique h hleads
    obtain ⟨hcount, -⟩ := way_unique hgoal hway
    omega
  · intro hides
    by_contra hrest
    obtain ⟨hidden, hhidden⟩ := Nat.exists_eq_succ_of_ne_zero hrest
    have hway := hgoal
    rw [hhidden] at hway
    cases hgoal with
    | void => exact hrest rfl
    | own => exact hrest rfl
    | wraps hfind hwraps =>
      obtain ⟨hqualified, hpointer⟩ := h.goal_stops hfind
      cases hwraps with
      | array hkind => exact hides (.mk h hfind hkind hway)
      | pointer hkind => exact hpointer _ hkind
      | qualified hkind => exact hqualified _ hkind

/-- The pointers that a row counts are some of those on the way to its type. -/
theorem RowOf.counts {m : Member} {key : MemberKey} {content : FieldContent}
    (h : RowOf source m key content) :
    ∃ total last, Way source (some m.type) total last ∧ EndsAt source last content.type ∧
      content.pointerDepth ≤ total ∧
      (content.pointerDepth = total ↔ ¬ HidesPointers source m.type) := by
  obtain ⟨-, -, -, hleads, rest, last, hway, hlast⟩ := h
  refine ⟨_, last, hleads.way hway, hlast, Nat.le_add_right _ _, ?_⟩
  rw [← hleads.rest_eq_zero_iff hway]
  dsimp only
  omega

end Survey

/-! ## The law -/

/-- After a parse that went well, each field is the row of a member. Its type is the symbol that the
member's type leads to, through qualifiers, arrays and pointers in any nesting, and its depth is the
number of pointers on that way, unless there are pointers behind an array that is behind a pointer:
the depth is less than their number exactly then. -/
theorem the_depth_counts_all_pointers_but_those_behind_a_hidden_array (source : Source)
    (coherent : source.Coherent) (ok : Session.outcome source ({} : Memory) = some .ok) :
    ∃ rows : Ledger, (Session.parse source ({} : Memory)).2.graph.Reads rows ∧
      ∀ key content, (key, content) ∈ rows.fields → (∃ m, RowOf source m key content) ∧
        ∀ m, RowOf source m key content →
          ∃ total last, Way source (some m.type) total last ∧ EndsAt source last content.type ∧
            content.pointerDepth ≤ total ∧
            (content.pointerDepth = total ↔ ¬ HidesPointers source m.type) := by
  obtain ⟨-, hreads⟩ := parse_empty ok
  refine ⟨source.ledger, hreads, fun key content hmem => ⟨?_, fun m hrow => hrow.counts⟩⟩
  obtain ⟨step, hstep, heq⟩ := mem_fields_entriesOf.mp (Table.mem_of_mem_merge_nil hmem)
  cases heq
  exact rowOf_of_mem_steps coherent hstep

/-- A struct with a pointer to a constant array of pointers to words, and an array of pointers. -/
def rack : Listing :=
  let (word, l) := Listing.add { origin := "rack.o" } (some "word") (some 4) .base
  let (slot, l) := l.add none (some 8) (.pointer (some word))
  let (slots, l) := l.add none none (.array slot [3])
  let (fixed, l) := l.add none none (.qualified (some slots))
  let (shelf, l) := l.add none (some 8) (.pointer (some fixed))
  (l.add (some "rack") (some 32) (.compound .struct
    [⟨some "shelf", 0, shelf, none, none⟩, ⟨some "spare", 8, slots, none, none⟩] false)).2

theorem rack_coherent : rack.toSource.Coherent :=
  (((((((Listing.defined_empty _ _).add _ _ _).add _ _ _).add _ _ _).add _ _ _).add _ _ _).add
    _ _ _).coherent

/-- The pointers of the spare slots are counted. -/
theorem the_spare_slots_count_their_pointers :
    Session.outcome rack.toSource ({} : Memory) = some .ok ∧
    ∃ rows : Ledger, (Session.parse rack.toSource ({} : Memory)).2.graph.Reads rows ∧
      rows.fields.lookup ⟨⟨"rack", 32⟩, "spare"⟩ =
        some ⟨8, ⟨"word", 4⟩, [3], true, none, none, 1⟩ ∧
      ∃ m, RowOf rack.toSource m ⟨⟨"rack", 32⟩, "spare"⟩
        ⟨8, ⟨"word", 4⟩, [3], true, none, none, 1⟩ := by
  have ok : Session.outcome rack.toSource ({} : Memory) = some .ok := by decide +kernel
  obtain ⟨rows, hreads, hrows⟩ :=
    the_depth_counts_all_pointers_but_those_behind_a_hidden_array rack.toSource rack_coherent ok
  have hledger : rows = rack.toSource.ledger := hreads.unique (parse_empty ok).2
  have hlookup : rows.fields.lookup ⟨⟨"rack", 32⟩, "spare"⟩ =
      some ⟨8, ⟨"word", 4⟩, [3], true, none, none, 1⟩ := by
    rw [hledger]
    decide +kernel
  obtain ⟨hmember, -⟩ := hrows _ _ (Table.mem_of_lookup hlookup)
  exact ⟨ok, rows, hreads, hlookup, hmember⟩

/-- The shelf leads through two pointers to its words, and its field counts one. -/
theorem the_shelf_does_not_count_the_pointers_of_its_slots :
    Session.outcome rack.toSource ({} : Memory) = some .ok ∧
    ¬ ∀ rows : Ledger, (Session.parse rack.toSource ({} : Memory)).2.graph.Reads rows →
      ∀ key content, (key, content) ∈ rows.fields → ∀ m, RowOf rack.toSource m key content →
        ∀ total last, Way rack.toSource (some m.type) total last →
          content.pointerDepth = total := by
  have ok : Session.outcome rack.toSource ({} : Memory) = some .ok := by decide +kernel
  refine ⟨ok, fun countsAll => ?_⟩
  have hlookup : rack.toSource.ledger.fields.lookup ⟨⟨"rack", 32⟩, "shelf"⟩ =
      some ⟨0, ⟨"word", 4⟩, [], true, none, none, 1⟩ := by decide +kernel
  have word : rack.toSource.find? ⟨1⟩ = some ⟨⟨1⟩, some "word", some 4, .base⟩ := rfl
  have slot : rack.toSource.find? ⟨2⟩ = some ⟨⟨2⟩, none, some 8, .pointer (some ⟨1⟩)⟩ := rfl
  have slots : rack.toSource.find? ⟨3⟩ = some ⟨⟨3⟩, none, none, .array ⟨2⟩ [3]⟩ := rfl
  have fixed : rack.toSource.find? ⟨4⟩ = some ⟨⟨4⟩, none, none, .qualified (some ⟨3⟩)⟩ := rfl
  have shelf : rack.toSource.find? ⟨5⟩ = some ⟨⟨5⟩, none, some 8, .pointer (some ⟨4⟩)⟩ := rfl
  have hslots : Way rack.toSource (some ⟨3⟩) 1 _ :=
    .wraps slots (.array rfl) (.wraps slot (.pointer rfl) (.own word trivial))
  have hshelf : Way rack.toSource (some ⟨5⟩) 2 _ :=
    .wraps shelf (.pointer rfl) (.wraps fixed (.qualified rfl) hslots)
  have hleads : Leads rack.toSource false ⟨5⟩ [] 1 (some ⟨3⟩) :=
    .pointer shelf rfl (.qualified fixed rfl (.stop slots nofun nofun nofun))
  have howns : Owns rack.toSource ⟨"rack", 32⟩ _ :=
    ⟨_, ⟨⟨6⟩, .listed (by decide), rfl⟩, .own ⟨rfl, rfl⟩, .own⟩
  have hrow : RowOf rack.toSource ⟨some "shelf", 0, ⟨5⟩, none, none⟩ ⟨⟨"rack", 32⟩, "shelf"⟩
      ⟨0, ⟨"word", 4⟩, [], true, none, none, 1⟩ :=
    .mk howns rfl List.mem_cons_self hleads ⟨1, _, hslots, .own rfl⟩
  cases countsAll _ (parse_empty ok).2 _ _ (Table.mem_of_lookup hlookup) _ hrow 2 _ hshelf

end LayoutGraph
