-- What a parse into an empty store leaves, where every compound and every
-- enumeration that can be reached has its name: the symbols, fields and
-- constants of the reachable entries, each once, and nothing else.
import LayoutGraph.Proofs.Ledger.Pass
import LayoutGraph.Proofs.Source.Coherent
import LayoutGraph.Proofs.Survey.Whole

namespace LayoutGraph

open Survey

variable {source : Source}

/-! ## The ledger of a source -/

/-- What a step needs to be there is a symbol of the source. -/
theorem symbolOf_of_justified {step : Step} (h : Justified source step) {key : SymbolKey}
    (hkey : key ∈ step.symbols) : SymbolOf source key := by
  cases step with
  | visit => cases hkey
  | symbol own =>
    rw [List.mem_singleton.mp hkey]
    exact h
  | field step =>
    obtain ⟨howner, htype⟩ := FieldOf.symbolOf h
    rcases List.mem_cons.mp hkey with rfl | hkey
    · exact howner
    · rw [List.mem_singleton.mp hkey]
      exact htype
  | enumerator owner c =>
    rw [List.mem_singleton.mp hkey]
    exact ConstantOf.symbolOf h

theorem mem_symbols_ledger (exact : Exact source source.steps) {key : SymbolKey} :
    key ∈ source.ledger.symbols.map Prod.fst ↔ SymbolOf source key := by
  refine Table.mem_keys_merge_nil.trans (mem_symbols_entriesOf.trans ⟨?_, ?_⟩)
  · rintro ⟨step, hstep, hkey⟩
    exact symbolOf_of_justified (exact.justified step hstep) hkey
  · rintro (⟨e, he, hkey⟩ | ⟨rfl, hvoid⟩)
    · obtain ⟨own, hown, hstep⟩ := exact.symbols e he (ownsSymbol_of_ownKey hkey)
      cases ownKey_unique hkey hown
      exact ⟨.symbol key, hstep, List.mem_singleton_self key⟩
    · exact ⟨.symbol voidKey, exact.void hvoid, List.mem_singleton_self voidKey⟩

theorem fieldOf_of_mem_ledger (exact : Exact source source.steps) {key : MemberKey}
    {content : FieldContent} (h : (key, content) ∈ source.ledger.fields) :
    FieldOf source key content := by
  obtain ⟨step, hstep, heq⟩ := mem_fields_entriesOf.mp (Table.mem_of_mem_merge_nil h)
  cases heq
  exact exact.justified _ hstep

theorem constantOf_of_mem_ledger (exact : Exact source source.steps) {key : MemberKey}
    {value : Int} (h : (key, value) ∈ source.ledger.enumerators) : ConstantOf source key value := by
  obtain ⟨owner, c, hstep, heq⟩ := mem_enumerators_entriesOf.mp (Table.mem_of_mem_merge_nil h)
  cases heq
  exact exact.justified _ hstep

theorem mem_fields_ledger (exact : Exact source source.steps) {key : MemberKey} :
    key ∈ source.ledger.fields.map Prod.fst ↔ HasMember source key := by
  constructor
  · intro h
    obtain ⟨⟨_, content⟩, hmem, rfl⟩ := List.mem_map.mp h
    exact (fieldOf_of_mem_ledger exact hmem).hasMember
  · intro h
    obtain ⟨step, hstep, howner, hname⟩ := exact.fields key h
    have hkey : key = ⟨step.owner, step.name⟩ := MemberKey.ext howner.symm hname.symm
    refine Table.mem_keys_merge_nil.mpr (List.mem_map.mpr
      ⟨_, mem_fields_entriesOf.mpr ⟨step, hstep, rfl⟩, ?_⟩)
    exact hkey.symm

theorem mem_enumerators_ledger (exact : Exact source source.steps) {key : MemberKey} :
    key ∈ source.ledger.enumerators.map Prod.fst ↔ ∃ value, ConstantOf source key value := by
  constructor
  · intro h
    obtain ⟨⟨_, value⟩, hmem, rfl⟩ := List.mem_map.mp h
    exact ⟨value, constantOf_of_mem_ledger exact hmem⟩
  · rintro ⟨value, h⟩
    obtain ⟨c, hstep, hname⟩ := exact.constants key value h
    have hkey : key = ⟨key.owner, c.name⟩ := MemberKey.ext rfl hname.symm
    refine Table.mem_keys_merge_nil.mpr (List.mem_map.mpr
      ⟨_, mem_enumerators_entriesOf.mpr ⟨key.owner, c, hstep, rfl⟩, ?_⟩)
    exact hkey.symm

theorem keysOnce_ledger (source : Source) : source.ledger.KeysOnce :=
  Ledger.keysOnce_empty.merge source.entries

/-! ## The laws -/

/-- After a parse that went well, the symbols are those of the reachable entries that have one, each
once, and that of `void` where it is met. -/
theorem the_symbols_are_those_of_the_reachable_entries (source : Source)
    (coherent : source.Coherent) (named : source.Named)
    (ok : Session.outcome source ({} : Memory) = some .ok) :
    let keys := (Session.parse source ({} : Memory)).2.graph.symbols.map Symbol.key
    keys.Nodup ∧
    (∀ e, source.Reaches e → OwnsSymbol e → ∃ key ∈ keys, OwnKey source e key) ∧
    ∀ key, key ∈ keys ↔
      (∃ e, source.Reaches e ∧ OwnKey source e key) ∨ key = voidKey ∧ source.MeetsVoid := by
  intro keys
  obtain ⟨hfailure, hreads⟩ := parse_empty ok
  have exact := exact_of_survey coherent named hfailure
  have hkeys : keys = source.ledger.symbols.map Prod.fst := hreads.symbolKeys
  rw [hkeys]
  refine ⟨(keysOnce_ledger source).symbols, fun e he howns => ?_,
    fun key => mem_symbols_ledger exact⟩
  obtain ⟨key, hkey, -⟩ := exact.symbols e he howns
  exact ⟨key, (mem_symbols_ledger exact).mpr (.inl ⟨e, he, hkey⟩), hkey⟩

/-- A list node: its link leads back to it, its data has no type, and its colors are an array of a
typedef. -/
def node : Listing :=
  let (self, l) := Listing.declare { origin := "node.o" }
  let (link, l) := l.add none (some 8) (.pointer (some self))
  let (data, l) := l.add none (some 8) (.pointer none)
  let (color, l) := l.add (some "color") (some 4) (.enumeration [⟨"red", 0⟩, ⟨"blue", 1⟩])
  let (paint, l) := l.add (some "paint") none (.typedef (some color))
  let (paints, l) := l.add none none (.array paint [2, 3])
  l.define self (some "node") none (.compound .struct
    [⟨some "next", 0, link, none, none⟩, ⟨some "data", 8, data, none, none⟩,
      ⟨some "paints", 16, paints, none, none⟩] false)

theorem node_coherent : node.toSource.Coherent :=
  (((((((Listing.defined_empty _ _).declare.add _ _ _).add _ _ _).add _ _ _).add _ _ _).add
    _ _ _).define _ _ _ _).coherent

theorem node_named : node.toSource.Named := Listing.named_toSource (by decide)

theorem the_node_has_its_symbols :
    let keys := (Session.parse node.toSource ({} : Memory)).2.graph.symbols.map Symbol.key
    Session.outcome node.toSource ({} : Memory) = some .ok ∧ keys.Nodup ∧
    ∀ key, key ∈ keys ↔
      (∃ e, node.toSource.Reaches e ∧ OwnKey node.toSource e key) ∨
        key = voidKey ∧ node.toSource.MeetsVoid := by
  intro keys
  have ok : Session.outcome node.toSource ({} : Memory) = some .ok := by decide +kernel
  obtain ⟨once, -, hkeys⟩ :=
    the_symbols_are_those_of_the_reachable_entries node.toSource node_coherent node_named ok
  exact ⟨ok, once, hkeys⟩

/-- After a parse that went well, the members of each reachable compound and typedef of a compound
have one field each, and every field says what such a member says; a type that leads to an entry
with a symbol of its own, such as the owner, is that symbol. The constants of enumerations and of
their typedefs have one row each likewise. -/
theorem every_member_has_its_row_and_every_row_its_member (source : Source)
    (coherent : source.Coherent) (named : source.Named)
    (ok : Session.outcome source ({} : Memory) = some .ok) :
    ∃ rows : Ledger, (Session.parse source ({} : Memory)).2.graph.Reads rows ∧ rows.KeysOnce ∧
      (∀ e, source.Reaches e → OwnsSymbol e → ∃ owner, OwnKey source e owner) ∧
      (∀ key, key ∈ rows.fields.map Prod.fst ↔ HasMember source key) ∧
      (∀ key content, (key, content) ∈ rows.fields → FieldOf source key content) ∧
      (∀ e owner id type, OwnKey source e owner → source.find? id = some e →
        (ComesTo source (some id) type ↔ type = owner)) ∧
      (∀ key, key ∈ rows.enumerators.map Prod.fst ↔ ∃ value, ConstantOf source key value) ∧
      ∀ key value, (key, value) ∈ rows.enumerators → ConstantOf source key value := by
  obtain ⟨hfailure, hreads⟩ := parse_empty ok
  have exact := exact_of_survey coherent named hfailure
  refine ⟨source.ledger, hreads, keysOnce_ledger source, fun e he howns => ?_,
    fun _ => mem_fields_ledger exact, fun _ _ => fieldOf_of_mem_ledger exact,
    fun _ _ _ _ hown hfind => comesTo_iff_own hfind hown,
    fun _ => mem_enumerators_ledger exact, fun _ _ => constantOf_of_mem_ledger exact⟩
  obtain ⟨owner, howner, -⟩ := exact.symbols e he howns
  exact ⟨owner, howner⟩

example : node.toSource.ledger.fields.lookup ⟨⟨"node", 40⟩, "paints"⟩ =
    some ⟨16, ⟨"paint", 4⟩, [2, 3], true, none, none, 0⟩ := by decide +kernel

theorem the_node_has_its_rows :
    Session.outcome node.toSource ({} : Memory) = some .ok ∧
    ∃ rows : Ledger, (Session.parse node.toSource ({} : Memory)).2.graph.Reads rows ∧
      (∀ key, key ∈ rows.fields.map Prod.fst ↔ HasMember node.toSource key) ∧
      ∀ key content, (key, content) ∈ rows.fields → FieldOf node.toSource key content := by
  have ok : Session.outcome node.toSource ({} : Memory) = some .ok := by decide +kernel
  obtain ⟨rows, hreads, -, -, hmembers, hfields, -⟩ :=
    every_member_has_its_row_and_every_row_its_member node.toSource node_coherent node_named ok
  exact ⟨ok, rows, hreads, hmembers, hfields⟩

end LayoutGraph
