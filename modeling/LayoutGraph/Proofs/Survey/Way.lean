-- Where a type leads in the end: through qualifiers, arrays and pointers,
-- nested in any way, to an entry with a symbol of its own or to `void`. An
-- entry has the symbol of its name, or of the name that a typedef gave it.
import LayoutGraph.Proofs.Survey.Content
import LayoutGraph.Proofs.Survey.Walks

namespace LayoutGraph

/-- The entry under another name. -/
def Entry.under (e : Entry) (name : String) : Entry := { e with name := some name }

/-- The pointers that an entry adds to the way through it. -/
def Entry.hops (e : Entry) : Nat :=
  match e.kind with
  | .pointer _ => 1
  | _ => 0

namespace Survey

variable {source : Source}

/-! ## Ways -/

/-- The type leads through entries that stand for others to one with a symbol of its own, or to
`void`. All pointers on the way are counted, wherever the arrays are. -/
inductive Way (source : Source) : Option EntryId → (pointers : Nat) → Option Entry → Prop
  | void : Way source none 0 none
  | own {id : EntryId} {e : Entry} : source.find? id = some e → OwnsSymbol e →
    Way source (some id) 0 (some e)
  | wraps {id : EntryId} {e : Entry} {target : Option EntryId} {pointers : Nat}
    {last : Option Entry} : source.find? id = some e → Wraps e target →
    Way source target pointers last → Way source (some id) (pointers + e.hops) last

theorem wraps_unique {e : Entry} {a b : Option EntryId} (ha : Wraps e a) (hb : Wraps e b) :
    a = b := by
  have hlist : a.toList = b.toList := ha.references.symm.trans hb.references
  simpa using congrArg List.head? hlist

theorem way_unique {type : Option EntryId} {m n : Nat} {a b : Option Entry}
    (ha : Way source type m a) (hb : Way source type n b) : m = n ∧ a = b := by
  induction ha generalizing n with
  | void =>
    cases hb
    exact ⟨rfl, rfl⟩
  | own hfind howns =>
    cases hb with
    | own hother => exact ⟨rfl, hfind.symm.trans hother⟩
    | wraps hother hwraps =>
      cases hfind.symm.trans hother
      exact absurd howns hwraps.not_ownsSymbol
  | wraps hfind hwraps _ ih =>
    cases hb with
    | own hother howns =>
      cases hfind.symm.trans hother
      exact absurd howns hwraps.not_ownsSymbol
    | wraps hother hwraps' hway =>
      cases hfind.symm.trans hother
      cases wraps_unique hwraps hwraps'
      obtain ⟨rfl, rfl⟩ := ih hway
      exact ⟨rfl, rfl⟩

/-- What a reachable type leads to can be reached. -/
theorem Way.reaches {type : Option EntryId} {pointers : Nat} {last : Option Entry}
    (h : Way source type pointers last) (htype : ∀ id, type = some id → source.Reachable id)
    {e : Entry} (he : last = some e) : source.Reaches e := by
  induction h with
  | void => cases he
  | own hfind =>
    cases he
    exact ⟨_, htype _ rfl, hfind⟩
  | wraps hfind hwraps _ ih =>
    refine ih (fun target htarget => ?_) he
    subst htarget
    exact (htype _ rfl).step hfind (by simp [hwraps.references])

/-- A shape is the first part of a way: its pointers come before those from its goal on. -/
theorem Leads.way {crossed : Bool} {id : EntryId} {extents : List Nat} {pointers rest : Nat}
    {goal : Option EntryId} {last : Option Entry}
    (h : Leads source crossed id extents pointers goal) (hgoal : Way source goal rest last) :
    Way source (some id) (pointers + rest) last := by
  induction h with
  | stop => simpa using hgoal
  | qualified hfind hkind _ ih =>
    simpa [Entry.hops, hkind] using Way.wraps hfind (.qualified hkind) (ih hgoal)
  | qualifiedVoid hfind hkind =>
    simpa [Entry.hops, hkind] using Way.wraps hfind (.qualified hkind) hgoal
  | array hfind hkind _ ih =>
    simpa [Entry.hops, hkind] using Way.wraps hfind (.array hkind) (ih hgoal)
  | pointer hfind hkind _ ih =>
    have hway := Way.wraps hfind (.pointer hkind) (ih hgoal)
    rwa [show Entry.hops _ = 1 by simp [Entry.hops, hkind], Nat.add_right_comm] at hway
  | pointerVoid hfind hkind =>
    have hway := Way.wraps hfind (.pointer hkind) hgoal
    rwa [show Entry.hops _ = 1 by simp [Entry.hops, hkind], Nat.add_comm] at hway

theorem leads_unique {crossed : Bool} {id : EntryId} {a b : List Nat} {m n : Nat}
    {g h : Option EntryId} (ha : Leads source crossed id a m g)
    (hb : Leads source crossed id b n h) : a = b ∧ m = n ∧ g = h := by
  -- The entry decides the rule, so two derivations that start at one entry go on alike.
  induction ha generalizing b n h with
  | stop => cases hb <;> simp_all
  | qualified hfind hkind _ ih =>
    cases hb with
    | qualified hother hkind' hnext =>
      cases hfind.symm.trans hother
      cases hkind.symm.trans hkind'
      exact ih hnext
    | _ => simp_all
  | qualifiedVoid => cases hb <;> simp_all
  | array hfind hkind _ ih =>
    cases hb with
    | array hother hkind' hnext =>
      cases hfind.symm.trans hother
      cases hkind.symm.trans hkind'
      obtain ⟨rfl, rfl, rfl⟩ := ih hnext
      exact ⟨rfl, rfl, rfl⟩
    | _ => simp_all
  | pointer hfind hkind _ ih =>
    cases hb with
    | pointer hother hkind' hnext =>
      cases hfind.symm.trans hother
      cases hkind.symm.trans hkind'
      obtain ⟨rfl, rfl, rfl⟩ := ih hnext
      exact ⟨rfl, rfl, rfl⟩
    | _ => simp_all
  | pointerVoid => cases hb <;> simp_all

/-! ## Symbols at the end of a way -/

/-- The typedef can give its name to the entry behind it, which has none. -/
inductive Names (source : Source) (t bare : Entry) : Prop
  | mk {target : EntryId} : t.kind = .typedef (some target) → Strips source target (some bare) →
    bare.awaitsName = true → Names source t bare

/-- The entry has the symbol: under its own name, under that of a typedef which names it, or, where
it is that typedef, the symbol of what it names. -/
inductive Bears (source : Source) : Entry → SymbolKey → Prop
  | own {e : Entry} {key : SymbolKey} : OwnKey source e key → Bears source e key
  | named {t bare : Entry} {key : SymbolKey} : source.Reaches t → Names source t bare →
    OwnKey source (bare.under t.shownName) key → Bears source bare key
  | naming {t bare : Entry} {key : SymbolKey} : Names source t bare →
    OwnKey source (bare.under t.shownName) key → Bears source t key

/-- The symbol at the end of a way. -/
def EndsAt (source : Source) : Option Entry → SymbolKey → Prop
  | some e, key => Bears source e key
  | none, key => key = voidKey

/-- The type leads to an entry that has the symbol, or to `void`. -/
def LeadsTo (source : Source) (type : Option EntryId) (key : SymbolKey) : Prop :=
  ∃ pointers last, Way source type pointers last ∧ EndsAt source last key

variable {id : EntryId} {e : Entry} {key : SymbolKey}

theorem leadsTo_void : LeadsTo source none voidKey := ⟨0, none, .void, rfl⟩

theorem leadsTo_own (hfind : source.find? id = some e) (howns : OwnsSymbol e)
    (h : Bears source e key) : LeadsTo source (some id) key := ⟨0, some e, .own hfind howns, h⟩

theorem leadsTo_wraps {target : Option EntryId} (hfind : source.find? id = some e)
    (hwraps : Wraps e target) (h : LeadsTo source target key) : LeadsTo source (some id) key := by
  obtain ⟨pointers, last, hway, hlast⟩ := h
  exact ⟨_, last, .wraps hfind hwraps hway, hlast⟩

/-- Two ids of one entry lead to the same symbols. -/
theorem LeadsTo.congr {other : EntryId} (h : LeadsTo source (some id) key)
    (hid : source.find? id = some e) (hother : source.find? other = some e) :
    LeadsTo source (some other) key := by
  obtain ⟨pointers, last, hway, hlast⟩ := h
  cases hway with
  | own hfind howns =>
    cases hid.symm.trans hfind
    exact leadsTo_own hother howns hlast
  | wraps hfind hwraps hnext =>
    cases hid.symm.trans hfind
    exact leadsTo_wraps hother hwraps ⟨_, last, hnext, hlast⟩

/-- Where no entry waits for a name, each has the symbol of its own name. -/
theorem Bears.ownKey (h : Bears source e key) (named : source.Named) (he : source.Reaches e) :
    OwnKey source e key := by
  cases h with
  | own hown => exact hown
  | named _ hnames =>
    obtain ⟨-, -, hawaits⟩ := hnames
    rw [named e he] at hawaits
    cases hawaits
  | naming hnames =>
    obtain ⟨hkind, hstrips, hawaits⟩ := hnames
    obtain ⟨id, hid, hfind⟩ := he
    have hbare := reaches_of_strips hstrips
      (hid.step hfind (mem_references_of_typedef hkind)) rfl
    rw [named _ hbare] at hawaits
    cases hawaits

/-- Where no entry waits for a name, a reachable type leads to one symbol. -/
theorem leadsTo_unique (named : source.Named) {type : Option EntryId} {a b : SymbolKey}
    (htype : ∀ id, type = some id → source.Reachable id) (ha : LeadsTo source type a)
    (hb : LeadsTo source type b) : a = b := by
  obtain ⟨m, last, hway, ha⟩ := ha
  obtain ⟨n, other, hway', hb⟩ := hb
  obtain ⟨-, rfl⟩ := way_unique hway hway'
  cases last with
  | none => exact Eq.trans ha (Eq.symm hb)
  | some e =>
    have he := hway.reaches htype rfl
    exact ownKey_unique (Bears.ownKey ha named he) (Bears.ownKey hb named he)

end Survey

end LayoutGraph
