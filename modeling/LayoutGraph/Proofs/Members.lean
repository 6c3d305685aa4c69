-- Which members of a compound have fields. A member without a name is called
-- by its place, and of members that are called alike only the first one has a
-- field. So all have theirs unless a member is named as another one without a
-- name is called.
import LayoutGraph.Proofs.Exactness
import LayoutGraph.Proofs.Growth
import LayoutGraph.Proofs.Survey.Stocked
import Mathlib.Data.List.Perm.Subperm

namespace LayoutGraph

open Survey

/-! ## Names of members -/

/-- What the members are called, in their order. -/
def memberNames (members : List Member) : List String :=
  members.zipIdx.map fun member => memberName member.1 member.2

/-- No two members that have names have the same one. -/
def NamesApart (members : List Member) : Prop :=
  members.Pairwise fun a b => a.name.getD "" ≠ "" → a.name.getD "" ≠ b.name.getD ""

/-- A member has the name that another one, which has none, is called by its place. -/
def NameTaken (members : List Member) : Prop :=
  ∃ m ∈ members, ∃ other ∈ members.zipIdx, other.1.name.getD "" = "" ∧
    m.name = some ("_anon_" ++ toString other.2)

instance (members : List Member) : Decidable (NamesApart members) :=
  inferInstanceAs (Decidable (members.Pairwise _))

instance (members : List Member) : Decidable (NameTaken members) :=
  inferInstanceAs (Decidable (∃ m ∈ members, _))

variable {members : List Member} {m n : Member} {i j : Nat}

theorem memberName_of_named (h : m.name.getD "" ≠ "") : memberName m i = m.name.getD "" := if_neg h

theorem memberName_of_unnamed (h : m.name.getD "" = "") : memberName m i = "_anon_" ++ toString i :=
  if_pos h

/-- Two places give two names. -/
theorem place_eq_of_called (h : "_anon_" ++ toString i = "_anon_" ++ toString j) : i = j := by
  rw [String.append_right_inj, Nat.toString_eq_repr, Nat.toString_eq_repr] at h
  have digits : Nat.toDigits 10 i = Nat.toDigits 10 j := by
    rw [← Nat.toList_repr, ← Nat.toList_repr, h]
  rw [← @Nat.ofDigitChars_ten_toDigits i, digits, Nat.ofDigitChars_ten_toDigits]

theorem called_ne_empty (place : Nat) : "_anon_" ++ toString place ≠ "" := by
  intro h
  simp at h

theorem place_eq_of_named (apart : NamesApart members) (hm : (m, i) ∈ members.zipIdx)
    (hn : (n, j) ∈ members.zipIdx) (named : m.name.getD "" ≠ "")
    (h : m.name.getD "" = n.name.getD "") : i = j := by
  obtain ⟨hi, hmi⟩ := List.getElem?_eq_some_iff.mp (List.mem_zipIdx_iff_getElem?.mp hm)
  obtain ⟨hj, hnj⟩ := List.getElem?_eq_some_iff.mp (List.mem_zipIdx_iff_getElem?.mp hn)
  dsimp only at hi hmi hj hnj
  have apart := List.pairwise_iff_getElem.mp apart
  rcases Nat.lt_trichotomy i j with hlt | heq | hlt
  · have hne := apart i j hi hj hlt
    rw [hmi, hnj] at hne
    exact absurd h (hne named)
  · exact heq
  · have hne := apart j i hj hi hlt
    rw [hmi, hnj] at hne
    exact absurd h.symm (hne (h ▸ named))

/-- Members that are called alike are one member, or the name of one is taken by the other. -/
theorem place_eq_or_taken (apart : NamesApart members) (hm : (m, i) ∈ members.zipIdx)
    (hn : (n, j) ∈ members.zipIdx) (h : memberName m i = memberName n j) :
    i = j ∨ NameTaken members := by
  have taken {a b : Member} {k : Nat} (ha : a ∈ members) (hb : (b, k) ∈ members.zipIdx)
      (named : a.name.getD "" ≠ "") (unnamed : b.name.getD "" = "")
      (heq : a.name.getD "" = "_anon_" ++ toString k) : NameTaken members := by
    refine ⟨a, ha, (b, k), hb, unnamed, ?_⟩
    cases hname : a.name with
    | none => simp [hname] at named
    | some name => simpa [hname] using heq
  by_cases hnamed : m.name.getD "" = ""
  · rw [memberName_of_unnamed hnamed] at h
    by_cases hother : n.name.getD "" = ""
    · rw [memberName_of_unnamed hother] at h
      exact .inl (place_eq_of_called h)
    · rw [memberName_of_named hother] at h
      exact .inr (taken (mem_of_mem_zipIdx hn) hm hother hnamed h.symm)
  · rw [memberName_of_named hnamed] at h
    by_cases hother : n.name.getD "" = ""
    · rw [memberName_of_unnamed hother] at h
      exact .inr (taken (mem_of_mem_zipIdx hm) hn hnamed hother h)
    · rw [memberName_of_named hother] at h
      exact .inl (place_eq_of_named apart hm hn hnamed h)

/-- The members are called differently unless a name is taken. -/
theorem memberNames_nodup_iff (apart : NamesApart members) :
    (memberNames members).Nodup ↔ ¬ NameTaken members := by
  constructor
  · rintro once ⟨m, hm, ⟨other, place⟩, hother, unnamed, hname⟩
    obtain ⟨i, hi⟩ := exists_mem_zipIdx hm
    have named : m.name.getD "" = "_anon_" ++ toString place := by rw [hname, Option.getD_some]
    have hsame : memberName m i = memberName other place := by
      rw [memberName_of_named (named ▸ called_ne_empty place), memberName_of_unnamed unnamed, named]
    have heq := List.inj_on_of_nodup_map once hi hother hsame
    cases heq
    exact called_ne_empty place (named.symm.trans unnamed)
  · intro free
    have places : members.zipIdx.Nodup := by
      refine List.Nodup.of_map Prod.snd ?_
      rw [List.zipIdx_map_snd]
      exact List.nodup_range'
    refine List.Nodup.map_on ?_ places
    rintro ⟨m, i⟩ hm ⟨n, j⟩ hn hsame
    cases (place_eq_or_taken apart hm hn hsame).resolve_right free
    rw [List.mem_zipIdx_iff_getElem?] at hm hn
    cases hm.symm.trans hn
    rfl

/-! ## Fields of members -/

/-- The field tells of the member: what it is called, where it stands and which bits it has. -/
structure Field.Tells (f : Field) (member : Member × Nat) : Prop where
  name : f.name = memberName member.1 member.2
  byteOffset : f.byteOffset = member.1.byteOffset
  bitSize : f.bitSize = member.1.bitSize
  bitOffset : f.bitOffset = member.1.bitOffset

/-- There is one field for each member. -/
structure OneFieldEach (fields : List Field) (members : List Member) : Prop where
  count : fields.length = members.length
  each : ∀ member ∈ members.zipIdx, ∃! f, f ∈ fields ∧ f.Tells member

/-- The fields have the names by which the members are called, each once, and tell of the first
member that is called so. -/
structure FirstOfEachName (fields : List Field) (members : List Member) : Prop where
  once : (fields.map Field.name).Nodup
  names : ∀ name, name ∈ fields.map Field.name ↔ name ∈ memberNames members
  first : ∀ f ∈ fields, ∃ earlier member later, members.zipIdx = earlier ++ member :: later ∧
    f.Tells member ∧ ∀ other ∈ earlier, memberName other.1 other.2 ≠ f.name

/-- Of each name there is one member as soon as there are as many fields as members. -/
theorem FirstOfEachName.oneFieldEach_iff {fields : List Field}
    (h : FirstOfEachName fields members) :
    OneFieldEach fields members ↔ (memberNames members).Nodup := by
  have hlength : (memberNames members).length = members.length := by simp [memberNames]
  constructor
  · intro each
    have hsub : List.Subperm (fields.map Field.name) (memberNames members) :=
      List.subperm_of_subset h.once fun name => (h.names name).mp
    have hcount : (memberNames members).length = (fields.map Field.name).length := by
      rw [hlength, List.length_map, each.count]
    have hperm : List.Perm (fields.map Field.name) (memberNames members) :=
      hsub.perm_of_length_le (Nat.le_of_eq hcount)
    exact hperm.nodup_iff.mp h.once
  · intro once
    have hperm : List.Perm (fields.map Field.name) (memberNames members) :=
      (List.perm_ext_iff_of_nodup h.once once).mpr h.names
    refine ⟨?_, fun member hmember => ?_⟩
    · rw [← hlength, ← hperm.length_eq, List.length_map]
    · have hname := (h.names _).mpr (List.mem_map_of_mem hmember)
      obtain ⟨f, hf, hcalled⟩ := List.mem_map.mp hname
      obtain ⟨earlier, other, later, hsplit, htells, -⟩ := h.first f hf
      have hother : other ∈ members.zipIdx := by
        rw [hsplit]
        exact List.mem_append_right _ List.mem_cons_self
      have hsame : other = member :=
        List.inj_on_of_nodup_map once hother hmember (htells.name.symm.trans hcalled)
      refine ⟨f, ⟨hf, hsame ▸ htells⟩, fun g hg => ?_⟩
      exact List.inj_on_of_nodup_map h.once hg.1 hf (hg.2.name.trans hcalled.symm)

/-! ## Fields of a compound -/

/-- No other entry that can be reached has the symbol of the entry. -/
def Source.Alone (source : Source) (e : Entry) : Prop :=
  ∀ key, OwnKey source e key → ∀ other, source.Reaches other → Bears source other key → other = e

variable {source : Source} {e : Entry} {key : SymbolKey}

/-- What is written under the symbol of such a compound comes of its own members, and of the first
one that is called so. -/
theorem first_member_of_entry (coherent : source.Coherent) (alone : source.Alone e)
    {kind : CompoundKind} {declaration : Bool} (hkind : e.kind = .compound kind members declaration)
    (hown : OwnKey source e key) {name : String} {content : FieldContent}
    (h : (⟨key, name⟩, content) ∈ source.ledger.fields) :
    ∃ earlier m place later, members.zipIdx = earlier ++ (m, place) :: later ∧
      name = memberName m place ∧ content.byteOffset = m.byteOffset ∧
      content.bitSize = m.bitSize ∧ content.bitOffset = m.bitOffset ∧
      ∀ other ∈ earlier, memberName other.1 other.2 ≠ name := by
  have hlookup : source.ledger.fields.lookup ⟨key, name⟩ = some content :=
    Table.lookup_of_mem (keysOnce_ledger source).fields h
  obtain ⟨before, step, after, hsplit, hkey, rfl, hfirst⟩ :=
    exists_first_field ((Table.lookup_merge_nil _ _).symm.trans hlookup)
  cases inTurn_steps coherent before _ after hsplit with
  | @field b kind' ms declaration' m place earlier later owner _ _ _ _ howns hb hmembers _ _
      hearlier =>
    cases hkey
    obtain ⟨entry, hreach, hbears, hlends⟩ := howns
    cases alone _ hown entry hreach hbears
    -- The compound lends its members to itself alone, so these are its own.
    cases hlends with
    | typedef htypedef => cases hkind.symm.trans htypedef
    | own =>
      cases hkind.symm.trans hb
      refine ⟨earlier, m, place, later, hmembers, rfl, rfl, rfl, rfl, fun other hother hsame => ?_⟩
      obtain ⟨s, hs, howner, hname⟩ := hearlier other hother
      refine hfirst s hs ?_
      rw [howner, hname, hsame]
      rfl

namespace Graph

variable {g : Graph} {s : SymbolId} {f : Field}

theorem mem_fieldsOf : f ∈ g.fieldsOf s ↔ f ∈ g.fields ∧ f.owner = s := by
  unfold fieldsOf
  rw [List.mem_mergeSort, List.mem_filter, decide_eq_true_eq]

theorem fieldsOf_names_once (h : g.KeysOnce) (s : SymbolId) :
    ((g.fieldsOf s).map Field.name).Nodup := by
  have rows : g.fields.Nodup := List.Nodup.of_map _ h.fields
  have owned : (g.fieldsOf s).Nodup :=
    (List.mergeSort_perm _ _).nodup_iff.mpr (rows.filter _)
  refine List.Nodup.map_on (fun a ha b hb hname => ?_) owned
  obtain ⟨ha, hownera⟩ := mem_fieldsOf.mp ha
  obtain ⟨hb, hownerb⟩ := mem_fieldsOf.mp hb
  refine List.inj_on_of_nodup_map h.fields ha hb ?_
  rw [Field.key, Field.key, hownera, hownerb, hname]

theorem readField_content {e : MemberKey × FieldContent} (h : g.readField f = some e) :
    e.2.byteOffset = f.byteOffset ∧ e.2.bitSize = f.bitSize ∧ e.2.bitOffset = f.bitOffset := by
  obtain ⟨owner, -, h⟩ := Option.bind_eq_some_iff.mp h
  obtain ⟨type, -, h⟩ := Option.bind_eq_some_iff.mp h
  cases h
  exact ⟨rfl, rfl, rfl⟩

end Graph

/-- Where the store tells the ledger, the fields of a symbol are the entries under its key. -/
theorem Memory.Tells.mem_fieldsOf_iff {m : Memory} {l : Ledger} (h : m.Tells l) {s : Symbol}
    (hs : s ∈ m.graph.symbols) {f : Field} : f ∈ m.graph.fieldsOf s.id ↔ f ∈ m.graph.fields ∧
      m.graph.symbolKey? f.owner = some s.key := by
  have hfind : m.symbolIndex.find? s.key = some s.id := h.symbols.listed s hs
  rw [Graph.mem_fieldsOf]
  refine and_congr_right fun _ => ⟨?_, fun hkey => ?_⟩
  · rintro howner
    rw [howner]
    exact h.symbolKey?_of_find hfind
  · exact Option.some.inj ((h.find_of_symbolKey? hkey).symm.trans hfind)

/-! ## The law -/

/-- The fields under the symbol of such a compound, in a store that tells the source's ledger. -/
theorem firstOfEachName_fieldsOf (coherent : source.Coherent) (alone : source.Alone e)
    {kind : CompoundKind} {declaration : Bool} (hkind : e.kind = .compound kind members declaration)
    {m : Memory} (htells : m.Tells source.ledger) (once : m.graph.KeysOnce) {s : Symbol}
    (hs : s ∈ m.graph.symbols) (hown : OwnKey source e s.key)
    (hrows : ∀ member ∈ members.zipIdx, HasRow source.steps s.key member) :
    FirstOfEachName (m.graph.fieldsOf s.id) members := by
  have read {f : Field} (hf : f ∈ m.graph.fieldsOf s.id) : ∃ content,
      m.graph.readField f = some (⟨s.key, f.name⟩, content) ∧
        (⟨s.key, f.name⟩, content) ∈ source.ledger.fields := by
    obtain ⟨hmem, howner⟩ := (htells.mem_fieldsOf_iff hs).mp hf
    have hread : m.graph.readField f ∈ source.ledger.fields.map some :=
      htells.reads.fields ▸ List.mem_map_of_mem hmem
    obtain ⟨⟨key, content⟩, hentry, heq⟩ := List.mem_map.mp hread
    obtain ⟨hkey, hname⟩ := Graph.readField_key heq.symm
    have hsame : key = ⟨s.key, f.name⟩ :=
      MemberKey.ext (Option.some.inj (hkey.symm.trans howner)) hname.symm
    subst hsame
    exact ⟨content, heq.symm, hentry⟩
  have first {f : Field} (hf : f ∈ m.graph.fieldsOf s.id) : ∃ earlier member later,
      members.zipIdx = earlier ++ member :: later ∧ f.Tells member ∧
        ∀ other ∈ earlier, memberName other.1 other.2 ≠ f.name := by
    obtain ⟨content, hread, hentry⟩ := read hf
    obtain ⟨hoffset, hsize, hbit⟩ := Graph.readField_content hread
    obtain ⟨earlier, member, place, later, hsplit, hname, hoffset', hsize', hbit', hfirst⟩ :=
      first_member_of_entry coherent alone hkind hown hentry
    exact ⟨earlier, (member, place), later, hsplit, ⟨hname, hoffset.symm.trans hoffset',
      hsize.symm.trans hsize', hbit.symm.trans hbit'⟩, hfirst⟩
  refine ⟨Graph.fieldsOf_names_once once s.id, fun name => ⟨fun hname => ?_, fun hname => ?_⟩,
    fun f hf => first hf⟩
  · obtain ⟨f, hf, rfl⟩ := List.mem_map.mp hname
    obtain ⟨earlier, member, later, hsplit, htells, -⟩ := first hf
    have hmember : member ∈ members.zipIdx := by simp [hsplit]
    exact List.mem_map.mpr ⟨member, hmember, htells.name.symm⟩
  · obtain ⟨member, hmember, rfl⟩ := List.mem_map.mp hname
    obtain ⟨step, hstep, howner, hcalled⟩ := hrows member hmember
    have hkey : (⟨s.key, memberName member.1 member.2⟩ : MemberKey) ∈
        source.ledger.fields.map Prod.fst := by
      refine Table.mem_keys_merge_nil.mpr (List.mem_map.mpr
        ⟨_, mem_fields_entriesOf.mpr ⟨step, hstep, rfl⟩, ?_⟩)
      rw [howner, hcalled]
    obtain ⟨entry, hentry, hsame⟩ := List.mem_map.mp hkey
    have hrow : some entry ∈ m.graph.fields.map m.graph.readField := by
      rw [htells.reads.fields]
      exact List.mem_map_of_mem hentry
    obtain ⟨f, hf, hread⟩ := List.mem_map.mp hrow
    obtain ⟨hfowner, hfname⟩ := Graph.readField_key hread
    rw [hsame] at hfowner hfname
    exact List.mem_map.mpr ⟨f, (htells.mem_fieldsOf_iff hs).mpr ⟨hf, hfowner⟩, hfname⟩

/-- After a parse that went well, a listed compound that has a name, and a symbol that no other entry
has, has the fields of its members under that symbol: for each name by which members are called one
field, of the first of them. So where the members that have names have different ones, each member
has exactly one field as long as no member has the name that a member without one is called by its
place. -/
theorem each_member_has_its_field_unless_its_name_is_taken (source : Source)
    (coherent : source.Coherent) {id : EntryId} {e : Entry} {kind : CompoundKind}
    {members : List Member} {declaration : Bool} (listed : id ∈ source.topLevel)
    (hfind : source.find? id = some e) (hkind : e.kind = .compound kind members declaration)
    (named : e.shownName ≠ "") (apart : NamesApart members) (alone : source.Alone e)
    (ok : Session.outcome source ({} : Memory) = some .ok) :
    let graph := (Session.parse source ({} : Memory)).2.graph
    ∃ s ∈ graph.symbols, OwnKey source e s.key ∧
      (∀ other ∈ graph.symbols, other.key = s.key → other = s) ∧
      FirstOfEachName (graph.fieldsOf s.id) members ∧
      (OneFieldEach (graph.fieldsOf s.id) members ↔ ¬ NameTaken members) := by
  intro graph
  obtain ⟨hfailure, htells⟩ := parse_empty_tells ok
  have once : graph.KeysOnce := (Memory.steady_reached.parse source .empty).sound.keysOnce
  have hmembers : e.HasMembers members :=
    ⟨by simp [Entry.awaitsName, hkind, Entry.anonymous, named], kind, declaration, hkind⟩
  obtain ⟨key, hown, hsymbol, hrows⟩ :=
    stocked_of_survey coherent hfailure listed hfind hmembers
  have hkey : key ∈ graph.symbols.map Symbol.key := by
    rw [htells.reads.symbolKeys]
    exact Table.mem_keys_merge_nil.mpr
      (mem_symbols_entriesOf.mpr ⟨.symbol key, hsymbol, List.mem_singleton_self key⟩)
  obtain ⟨s, hs, rfl⟩ := List.mem_map.mp hkey
  have hfields : FirstOfEachName (graph.fieldsOf s.id) members :=
    firstOfEachName_fieldsOf coherent alone hkind htells once hs hown hrows
  refine ⟨s, hs, hown, fun other hother hsame => ?_, hfields, ?_⟩
  · exact List.inj_on_of_nodup_map once.symbols hother hs hsame
  · exact hfields.oneFieldEach_iff.trans (memberNames_nodup_iff apart)

/-- A record of words, with the members. -/
def record (members : List Member) : Listing :=
  let (_, l) := Listing.add { origin := "record.o" } (some "word") (some 4) .base
  (l.add (some "record") (some 12) (.compound .struct members false)).2

/-- The entry of a record. -/
def recordEntry (members : List Member) : Entry :=
  ⟨⟨2⟩, some "record", some 12, .compound .struct members false⟩

theorem record_coherent (members : List Member) : (record members).toSource.Coherent :=
  (((Listing.defined_empty _ _).add _ _ _).add _ _ _).coherent

theorem record_alone (members : List Member) :
    (record members).toSource.Alone (recordEntry members) := by
  rintro key ⟨hname, -⟩ other ⟨id, -, hfind⟩ hbears
  have hmem : (id, other) ∈ (record members).entries.pairs := Table.mem_of_lookup hfind
  have hpairs : (record members).entries.pairs =
      [(⟨2⟩, recordEntry members), (⟨1⟩, ⟨⟨1⟩, some "word", some 4, .base⟩)] := rfl
  rw [hpairs] at hmem
  rcases List.mem_cons.mp hmem with hentry | hentry
  · exact congrArg Prod.snd hentry
  · cases List.mem_singleton.mp hentry
    cases hbears with
    | own hown =>
      cases hown
      have hname : "word" = "record" := hname
      exact absurd hname (by decide)
    | named _ hnames =>
      obtain ⟨-, -, hawaits⟩ := hnames
      cases hawaits
    | naming hnames =>
      obtain ⟨htypedef, -, -⟩ := hnames
      cases htypedef

/-- Two of the members have no name, and one has the name of a place whose member has its own. -/
def spread : List Member :=
  [⟨some "head", 0, ⟨1⟩, none, none⟩, ⟨none, 4, ⟨1⟩, some 3, some 0⟩,
    ⟨none, 4, ⟨1⟩, some 5, some 3⟩, ⟨some "_anon_0", 8, ⟨1⟩, none, none⟩]

theorem the_spread_members_have_a_field_each :
    let graph := (Session.parse (record spread).toSource ({} : Memory)).2.graph
    NamesApart spread ∧ ¬ NameTaken spread ∧ (record spread).toSource.Alone (recordEntry spread) ∧
    Session.outcome (record spread).toSource ({} : Memory) = some .ok ∧
    ∃ s ∈ graph.symbols, OwnKey (record spread).toSource (recordEntry spread) s.key ∧
      OneFieldEach (graph.fieldsOf s.id) spread := by
  intro graph
  have apart : NamesApart spread := by decide
  have free : ¬ NameTaken spread := by decide
  have ok : Session.outcome (record spread).toSource ({} : Memory) = some .ok := by decide +kernel
  obtain ⟨s, hs, hown, -, -, heach⟩ :=
    each_member_has_its_field_unless_its_name_is_taken (record spread).toSource
      (record_coherent spread) (by decide : (⟨2⟩ : EntryId) ∈ _) rfl
      (rfl : (recordEntry spread).kind = _) (by decide) apart (record_alone spread) ok
  exact ⟨apart, free, record_alone spread, ok, s, hs, hown, heach.mpr free⟩

/-- The first member has the name that the second one is called by its place. -/
def overlap : List Member :=
  [⟨some "_anon_1", 0, ⟨1⟩, none, none⟩, ⟨none, 4, ⟨1⟩, none, none⟩]

theorem the_clashing_member_has_no_field :
    let source := (record overlap).toSource
    let graph := (Session.parse source ({} : Memory)).2.graph
    source.Coherent ∧ ⟨2⟩ ∈ source.topLevel ∧ source.find? ⟨2⟩ = some (recordEntry overlap) ∧
    NamesApart overlap ∧ source.Alone (recordEntry overlap) ∧
    Session.outcome source ({} : Memory) = some .ok ∧
    ∃ s ∈ graph.symbols, OwnKey source (recordEntry overlap) s.key ∧
      (graph.fieldsOf s.id).map Field.name = ["_anon_1"] ∧
      ¬ OneFieldEach (graph.fieldsOf s.id) overlap := by
  intro source graph
  let s : Symbol := ⟨⟨2⟩, ⟨1⟩, "record", 12⟩
  have hs : s ∈ graph.symbols := by decide +kernel
  have hnames : (graph.fieldsOf s.id).map Field.name = ["_anon_1"] := by decide +kernel
  refine ⟨record_coherent overlap, by decide, rfl, by decide, record_alone overlap,
    by decide +kernel, s, hs, ⟨rfl, by decide +kernel⟩, hnames, fun each => ?_⟩
  have hcount := congrArg List.length hnames
  rw [List.length_map, each.count] at hcount
  cases hcount

end LayoutGraph
