-- Typedefs and what they stand for. A typedef of a compound or of an
-- enumeration has the rows of that: the fields of the same members, and where
-- two members have one name, that of the same one of them. A typedef of a
-- typedef has no rows at all.
import LayoutGraph.Proofs.Exactness
import LayoutGraph.Proofs.Survey.InTurn

namespace LayoutGraph

open Survey

/-! ## Keys that tell entries apart -/

/-- A compound, an enumeration or a typedef. -/
def Entry.composite (e : Entry) : Bool :=
  match e.kind with
  | .compound .. | .enumeration _ | .typedef _ => true
  | _ => false

namespace Survey

/-- No two reachable compounds, enumerations or typedefs have one key. -/
def KeysApart (source : Source) : Prop :=
  ∀ a b key, source.Reaches a → source.Reaches b → a.composite = true → b.composite = true →
    OwnKey source a key → OwnKey source b key → a = b

variable {source : Source}

theorem name_of_ownKey {e : Entry} {key : SymbolKey} (h : OwnKey source e key)
    (he : e.composite = true) : key.name = e.shownName := by
  unfold OwnKey at h
  unfold Entry.composite at he
  split at h <;> simp_all

theorem ownsSymbol_of_composite {e : Entry} (h : e.composite = true) : OwnsSymbol e := by
  unfold Entry.composite at h
  unfold OwnsSymbol
  split at h <;> simp_all

/-- Entries with different names have different keys. -/
theorem keysApart_toSource {l : Listing} (h : ∀ a ∈ l.entries.pairs, ∀ b ∈ l.entries.pairs,
    a.2.composite = true → b.2.composite = true → a.2.shownName = b.2.shownName → a.2 = b.2) :
    KeysApart l.toSource := by
  rintro a b key ⟨i, -, ha⟩ ⟨j, -, hb⟩ hcomposite hcomposite' hkey hkey'
  refine h (i, a) (Table.mem_of_lookup ha) (j, b) (Table.mem_of_lookup hb) hcomposite hcomposite' ?_
  exact (name_of_ownKey hkey hcomposite).symm.trans (name_of_ownKey hkey' hcomposite')

/-- What lends its members or constants to an entry is the entry, or the entry is a typedef. -/
theorem Lends.composite {e b : Entry} (h : Lends source e b) (hb : b.composite = true) :
    e.composite = true := by
  cases h with
  | own => exact hb
  | typedef hkind => simp [Entry.composite, hkind]

/-- But for a typedef itself, one entry lends its members and constants. -/
theorem Lends.unique {e b c : Entry} (hb : Lends source e b) (hc : Lends source e c)
    (notB : ∀ target, b.kind ≠ .typedef target) (notC : ∀ target, c.kind ≠ .typedef target) :
    b = c := by
  cases hb with
  | own =>
    cases hc with
    | own => rfl
    | typedef hkind => exact absurd hkind (notB _)
  | typedef hkind hstrips =>
    cases hc with
    | own => exact absurd hkind (notC _)
    | typedef hkind' hstrips' =>
      cases hkind.symm.trans hkind'
      exact Option.some.inj (strips_unique hstrips hstrips')

/-- What holds of no typedef holds of a lender where it holds of the one that is no typedef. -/
theorem exists_lends_iff {e u : Entry} {P : Entry → Prop} (hu : Lends source e u)
    (notU : ∀ target, u.kind ≠ .typedef target)
    (notP : ∀ b, P b → ∀ target, b.kind ≠ .typedef target) :
    (∃ b, Lends source e b ∧ P b) ↔ P u := by
  constructor
  · rintro ⟨b, hb, h⟩
    cases hb.unique hu (notP b h) notU
    exact h
  · exact fun h => ⟨u, hu, h⟩

/-- Where a typedef stands for a typedef, both ends of the loan are typedefs. -/
theorem Lends.typedef_of_typedef {t u b : Entry} {target : EntryId} (h : Lends source t b)
    (ht : t.kind = .typedef (some target)) (hstrips : Strips source target (some u))
    (hu : ∃ target, u.kind = .typedef target) : ∃ target, b.kind = .typedef target := by
  cases h with
  | own => exact ⟨_, ht⟩
  | typedef hkind hother =>
    cases ht.symm.trans hkind
    cases strips_unique hstrips hother
    exact hu

/-! ## The first member of a name -/

/-- What the first member of the name says, where the entry is a compound. -/
inductive FirstRow (source : Source) (b : Entry) (name : String) : FieldContent → Prop
  | mk {kind : CompoundKind} {members : List Member} {declaration : Bool} {m : Member}
    {place : Nat} {type : SymbolKey} {extents : List Nat} {pointers : Nat}
    {goal : Option EntryId} : b.kind = .compound kind members declaration →
    (members.zipIdx.find? fun member => memberName member.1 member.2 = name) = some (m, place) →
    Leads source false m.type extents pointers goal → LeadsTo source goal type →
    FirstRow source b name
      ⟨m.byteOffset, type, extents, source.littleEndian, m.bitSize, m.bitOffset, pointers⟩

/-- The value of the first constant of the name, where the entry is an enumeration. -/
inductive FirstConstant (b : Entry) (name : String) : Int → Prop
  | mk {constants : List Constant} {c : Constant} : b.kind = .enumeration constants →
    (constants.find? fun c => c.name = name) = some c → FirstConstant b name c.value

theorem FirstRow.not_typedef {b : Entry} {name : String} {content : FieldContent}
    (h : FirstRow source b name content) : ∀ target, b.kind ≠ .typedef target := by
  obtain ⟨hb, -, -, -⟩ := h
  simp [hb]

theorem FirstConstant.not_typedef {b : Entry} {name : String} {value : Int}
    (h : FirstConstant b name value) : ∀ target, b.kind ≠ .typedef target := by
  obtain ⟨hb, -⟩ := h
  simp [hb]

theorem firstRow_unique (named : source.Named) {b : Entry} {name : String} {x y : FieldContent}
    (hb : source.Reaches b) (hx : FirstRow source b name x) (hy : FirstRow source b name y) :
    x = y := by
  obtain ⟨hkind, hfirst, hleads, htype⟩ := hx
  obtain ⟨hkind', hfirst', hleads', htype'⟩ := hy
  cases hkind.symm.trans hkind'
  cases hfirst.symm.trans hfirst'
  obtain ⟨rfl, rfl, rfl⟩ := leads_unique hleads hleads'
  have hm := mem_of_mem_zipIdx (List.mem_of_find?_eq_some hfirst)
  have hreachable := hb.reference ((mem_references_of_compound hkind).mpr ⟨_, hm, rfl⟩)
  cases leadsTo_unique named (hleads.reachable hreachable).1 htype htype'
  rfl

theorem firstConstant_unique {b : Entry} {name : String} {x y : Int} (hx : FirstConstant b name x)
    (hy : FirstConstant b name y) : x = y := by
  obtain ⟨hkind, hfirst⟩ := hx
  obtain ⟨hkind', hfirst'⟩ := hy
  cases hkind.symm.trans hkind'
  cases hfirst.symm.trans hfirst'
  rfl

/-! ## Rows of an owner -/

section

variable {e b : Entry} {owner : SymbolKey} {name : String}

theorem FirstRow.hasMember {content : FieldContent} (h : FirstRow source b name content)
    (he : source.Reaches e) (howner : OwnKey source e owner) (hlends : Lends source e b) :
    HasMember source ⟨owner, name⟩ := by
  cases h with
  | @mk kind members declaration m place _ _ _ _ hb hfirst =>
    have hname : memberName m place = name := by simpa using List.find?_some hfirst
    exact hname ▸ .mk he howner hlends hb (List.mem_of_find?_eq_some hfirst)

theorem FirstConstant.constantOf {value : Int} (h : FirstConstant b name value)
    (he : source.Reaches e) (howner : OwnKey source e owner) (hlends : Lends source e b) :
    ConstantOf source ⟨owner, name⟩ value := by
  cases h with
  | @mk constants c hb hfirst =>
    have hname : c.name = name := by simpa using List.find?_some hfirst
    exact hname ▸ .mk he howner hlends hb (List.mem_of_find?_eq_some hfirst)

variable (coherent : source.Coherent) (named : source.Named) (apart : KeysApart source)
  (ok : source.failure? = none) (he : source.Reaches e) (howner : OwnKey source e owner)
  (hcomposite : e.composite = true)

include named apart he howner hcomposite in
/-- Where keys tell entries apart, who has the symbol of an entry is the entry. -/
theorem Owns.lends (h : Owns source owner b) (hb : b.composite = true) : Lends source e b := by
  obtain ⟨other, hother, hbears, hlends⟩ := h
  have heq : e = other := apart e other owner he hother hcomposite (hlends.composite hb) howner
    (hbears.ownKey named hother)
  exact heq ▸ hlends

include coherent named apart ok he howner hcomposite

/-- The field of a name is that of the first member of the name. -/
theorem lookup_fields_ledger (name : String) (content : FieldContent) :
    source.ledger.fields.lookup ⟨owner, name⟩ = some content ↔
      ∃ b, Lends source e b ∧ FirstRow source b name content := by
  have exact := exact_of_survey coherent named ok
  have sound : ∀ content, source.ledger.fields.lookup ⟨owner, name⟩ = some content →
      ∃ b, Lends source e b ∧ FirstRow source b name content := by
    intro content h
    obtain ⟨before, step, after, hsteps, hkey, rfl, hbefore⟩ :=
      exists_first_field ((Table.lookup_merge_nil _ _).symm.trans h)
    cases inTurn_steps coherent before _ after hsteps with
    | @field b kind members declaration m place earlier later owner' type extents pointers goal
        howns hb hmembers hleads htype hearlier =>
      obtain ⟨rfl, rfl⟩ : owner = owner' ∧ name = memberName m place := MemberKey.mk.inj hkey
      -- The members in front have their rows before, and no row before has the name.
      have hfirst : (members.zipIdx.find? fun member =>
          memberName member.1 member.2 = memberName m place) = some (m, place) := by
        refine List.find?_eq_some_iff_append.mpr ⟨by simp, earlier, later, hmembers, ?_⟩
        intro member hmember
        obtain ⟨s, hs, hsOwner, hsName⟩ := hearlier member hmember
        have hne := hbefore s hs
        rw [hsOwner, hsName] at hne
        simpa using fun heq => hne (congrArg (MemberKey.mk owner) heq)
      exact ⟨b, howns.lends named apart he howner hcomposite (by simp [Entry.composite, hb]),
        .mk hb hfirst hleads htype⟩
  refine Table.lookup_eq_some_iff sound ?_ ?_ content
  · rintro content ⟨b, hlends, hrow⟩
    exact (mem_fields_ledger exact).mpr (hrow.hasMember he howner hlends)
  · rintro x y ⟨b, hb, hx⟩ ⟨c, hc, hy⟩
    cases hb.unique hc hx.not_typedef hy.not_typedef
    exact firstRow_unique named (reaches_of_lends hb he) hx hy

/-- The constant of a name is the first constant of the name. -/
theorem lookup_enumerators_ledger (name : String) (value : Int) :
    source.ledger.enumerators.lookup ⟨owner, name⟩ = some value ↔
      ∃ b, Lends source e b ∧ FirstConstant b name value := by
  have exact := exact_of_survey coherent named ok
  have sound : ∀ value, source.ledger.enumerators.lookup ⟨owner, name⟩ = some value →
      ∃ b, Lends source e b ∧ FirstConstant b name value := by
    intro value h
    obtain ⟨before, owner', c, after, hsteps, hkey, rfl, hbefore⟩ :=
      exists_first_enumerator ((Table.lookup_merge_nil _ _).symm.trans h)
    cases inTurn_steps coherent before _ after hsteps with
    | @enumerator b constants earlier later _ _ howns hb hconstants hearlier =>
      obtain ⟨rfl, rfl⟩ := MemberKey.mk.inj hkey
      have hfirst : (constants.find? fun d => d.name = c.name) = some c := by
        refine List.find?_eq_some_iff_append.mpr ⟨by simp, earlier, later, hconstants, ?_⟩
        intro d hd
        have hne := hbefore owner d (hearlier d hd)
        simpa using fun heq => hne (congrArg (MemberKey.mk owner) heq)
      exact ⟨b, howns.lends named apart he howner hcomposite (by simp [Entry.composite, hb]),
        .mk hb hfirst⟩
  refine Table.lookup_eq_some_iff sound ?_ ?_ value
  · rintro value ⟨b, hlends, hrow⟩
    exact (mem_enumerators_ledger exact).mpr ⟨value, hrow.constantOf he howner hlends⟩
  · rintro x y ⟨b, hb, hx⟩ ⟨c, hc, hy⟩
    cases hb.unique hc hx.not_typedef hy.not_typedef
    exact firstConstant_unique hx hy

end

end Survey

/-! ## The law -/

namespace Ledger

/-- Two symbols have the same fields and the same constants. -/
def SameRows (rows : Ledger) (a b : SymbolKey) : Prop :=
  ∀ name, rows.fields.lookup ⟨a, name⟩ = rows.fields.lookup ⟨b, name⟩ ∧
    rows.enumerators.lookup ⟨a, name⟩ = rows.enumerators.lookup ⟨b, name⟩

/-- A symbol has neither fields nor constants. -/
def Bare (rows : Ledger) (a : SymbolKey) : Prop :=
  ∀ name, rows.fields.lookup ⟨a, name⟩ = none ∧ rows.enumerators.lookup ⟨a, name⟩ = none

end Ledger

/-- After a parse that went well, where keys tell compounds, enumerations and typedefs apart and each
has its name: the symbol of a typedef has the same fields and constants as that of the compound or
enumeration behind its qualifiers. Where that is a typedef, it has none, whatever the other has. -/
theorem a_typedef_has_the_rows_behind_it_unless_that_is_a_typedef (source : Source)
    (coherent : source.Coherent) (named : source.Named) (apart : KeysApart source)
    (ok : Session.outcome source ({} : Memory) = some .ok) :
    ∃ rows : Ledger, (Session.parse source ({} : Memory)).2.graph.Reads rows ∧ rows.KeysOnce ∧
      ∀ t target u, source.Reaches t → t.kind = .typedef (some target) →
        Strips source target (some u) → u.composite = true →
        ∃ outer inner, OwnKey source t outer ∧ OwnKey source u inner ∧
          outer ∈ rows.symbols.map Prod.fst ∧ inner ∈ rows.symbols.map Prod.fst ∧
          ((∀ target, u.kind ≠ .typedef target) → rows.SameRows outer inner) ∧
          ((∃ target, u.kind = .typedef target) → rows.Bare outer) := by
  obtain ⟨hfailure, hreads⟩ := parse_empty ok
  have exact := exact_of_survey coherent named hfailure
  have symbol : ∀ e, source.Reaches e → e.composite = true →
      ∃ key, OwnKey source e key ∧ key ∈ source.ledger.symbols.map Prod.fst := by
    intro e he hcomposite
    obtain ⟨key, hkey, -⟩ := exact.symbols e he (ownsSymbol_of_composite hcomposite)
    exact ⟨key, hkey, (mem_symbols_ledger exact).mpr (.inl ⟨e, he, hkey⟩)⟩
  refine ⟨source.ledger, hreads, keysOnce_ledger source, fun t target u ht hkind hstrips hu => ?_⟩
  have hlends : Lends source t u := .typedef hkind hstrips
  have htComposite : t.composite = true := by simp [Entry.composite, hkind]
  have hreach := reaches_of_lends hlends ht
  obtain ⟨outer, houter, houter'⟩ := symbol t ht htComposite
  obtain ⟨inner, hinner, hinner'⟩ := symbol u hreach hu
  have fields := lookup_fields_ledger coherent named apart hfailure ht houter htComposite
  have constants := lookup_enumerators_ledger coherent named apart hfailure ht houter htComposite
  have ownFields := lookup_fields_ledger coherent named apart hfailure hreach hinner hu
  have ownConstants := lookup_enumerators_ledger coherent named apart hfailure hreach hinner hu
  refine ⟨outer, inner, houter, hinner, houter', hinner', fun notU name => ⟨?_, ?_⟩,
    fun isTypedef name => ⟨?_, ?_⟩⟩
  · refine Option.ext fun content => ?_
    rw [fields, ownFields, exists_lends_iff hlends notU fun _ h => h.not_typedef,
      exists_lends_iff .own notU fun _ h => h.not_typedef]
  · refine Option.ext fun value => ?_
    rw [constants, ownConstants, exists_lends_iff hlends notU fun _ h => h.not_typedef,
      exists_lends_iff .own notU fun _ h => h.not_typedef]
  · refine Option.eq_none_iff_forall_ne_some.mpr fun content h => ?_
    obtain ⟨b, hb, hrow⟩ := (fields name content).mp h
    obtain ⟨target, hb⟩ := hb.typedef_of_typedef hkind hstrips isTypedef
    exact hrow.not_typedef target hb
  · refine Option.eq_none_iff_forall_ne_some.mpr fun value h => ?_
    obtain ⟨b, hb, hrow⟩ := (constants name value).mp h
    obtain ⟨target, hb⟩ := hb.typedef_of_typedef hkind hstrips isTypedef
    exact hrow.not_typedef target hb

/-- A list node, a typedef of the constant node which is met inside of it, and a typedef of that. -/
def chain : Listing :=
  let (node, l) := Listing.declare { origin := "chain.o" }
  let (fixed, l) := l.add none none (.qualified (some node))
  let (named, l) := l.add (some "Node") none (.typedef (some fixed))
  let (link, l) := l.add none (some 8) (.pointer (some named))
  let l := l.define node (some "node") (some 16) (.compound .struct
    [⟨some "next", 0, link, none, none⟩, ⟨some "last", 8, link, none, none⟩] false)
  (l.add (some "Chain") none (.typedef (some named))).2

theorem chain_coherent : chain.toSource.Coherent :=
  ((((((Listing.defined_empty _ _).declare.add _ _ _).add _ _ _).add _ _ _).define _ _ _ _).add
    _ _ _).coherent

theorem chain_named : chain.toSource.Named := Listing.named_toSource (by decide)

theorem chain_apart : KeysApart chain.toSource := keysApart_toSource (by decide)

/-- The typedef of the constant node. -/
def nodeAlias : Entry := ⟨⟨3⟩, some "Node", none, .typedef (some ⟨2⟩)⟩

theorem chain_reaches_nodeAlias : chain.toSource.Reaches nodeAlias :=
  ⟨⟨3⟩, .listed (by decide), rfl⟩

theorem the_alias_of_a_node_has_its_links :
    Session.outcome chain.toSource ({} : Memory) = some .ok ∧
    ∃ rows : Ledger, (Session.parse chain.toSource ({} : Memory)).2.graph.Reads rows ∧
      rows.SameRows ⟨"Node", 16⟩ ⟨"node", 16⟩ ∧
      rows.fields.lookup ⟨⟨"Node", 16⟩, "last"⟩ =
        some ⟨8, ⟨"Node", 16⟩, [], true, none, none, 1⟩ := by
  have ok : Session.outcome chain.toSource ({} : Memory) = some .ok := by decide +kernel
  obtain ⟨rows, hreads, -, hrows⟩ :=
    a_typedef_has_the_rows_behind_it_unless_that_is_a_typedef chain.toSource chain_coherent
      chain_named chain_apart ok
  obtain ⟨outer, inner, houter, hinner, -, -, hsame, -⟩ := hrows nodeAlias ⟨2⟩ _
    chain_reaches_nodeAlias rfl (.skip rfl rfl (.stop rfl nofun)) rfl
  cases ownKey_unique houter (show OwnKey _ _ ⟨"Node", 16⟩ from ⟨rfl, rfl⟩)
  cases ownKey_unique hinner (show OwnKey _ _ ⟨"node", 16⟩ from ⟨rfl, rfl⟩)
  refine ⟨ok, rows, hreads, hsame nofun, ?_⟩
  rw [hreads.unique (parse_empty ok).2]
  decide +kernel

/-- The typedef of the typedef has the size of a node and none of its links. -/
theorem the_alias_of_an_alias_has_no_links :
    Session.outcome chain.toSource ({} : Memory) = some .ok ∧ chain.toSource.Named ∧
    KeysApart chain.toSource ∧
    ¬ ∀ rows : Ledger, (Session.parse chain.toSource ({} : Memory)).2.graph.Reads rows →
      ∀ t target u, chain.toSource.Reaches t → t.kind = .typedef (some target) →
        Strips chain.toSource target (some u) → u.composite = true →
        ∀ outer inner, OwnKey chain.toSource t outer → OwnKey chain.toSource u inner →
          rows.SameRows outer inner := by
  have ok : Session.outcome chain.toSource ({} : Memory) = some .ok := by decide +kernel
  refine ⟨ok, chain_named, chain_apart, fun carriesAll => ?_⟩
  have hnode : chain.toSource.find? ⟨3⟩ = some nodeAlias := rfl
  have hsame := carriesAll _ (parse_empty ok).2 ⟨⟨5⟩, some "Chain", none, .typedef (some ⟨3⟩)⟩ ⟨3⟩
    nodeAlias ⟨⟨5⟩, .listed (by decide), rfl⟩ rfl (.stop hnode nofun) rfl ⟨"Chain", 16⟩ ⟨"Node", 16⟩
    ⟨rfl, rfl⟩ ⟨rfl, rfl⟩ "next"
  exact absurd hsame.1 (by decide +kernel)

end LayoutGraph
