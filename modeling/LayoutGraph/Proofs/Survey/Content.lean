-- What a source says: the symbols, fields and constants of its reachable
-- entries, told from the entries and not from a walk. A row that is written
-- has to be one of these.
import LayoutGraph.Proofs.Ledger.Basic
import LayoutGraph.Proofs.Survey.Reference

namespace LayoutGraph.Survey

variable {source : Source}

/-! ## Entries -/

/-- A base type, a compound, an enumeration or a typedef; the others have no symbol of their own. -/
def OwnsSymbol (e : Entry) : Prop :=
  match e.kind with
  | .base | .compound .. | .enumeration _ | .typedef _ => True
  | .array .. | .pointer _ | .qualified _ => False

theorem ownsSymbol_of_ownKey {e : Entry} {key : SymbolKey} (h : OwnKey source e key) :
    OwnsSymbol e := by
  unfold OwnKey at h
  unfold OwnsSymbol
  split at h <;> simp_all

/-- An entry without a symbol of its own stands for its element or target, if it has one. -/
inductive Wraps (e : Entry) : Option EntryId → Prop
  | array {element : EntryId} {extents : List Nat} : e.kind = .array element extents →
    Wraps e (some element)
  | pointer {target : Option EntryId} : e.kind = .pointer target → Wraps e target
  | qualified {target : Option EntryId} : e.kind = .qualified target → Wraps e target

theorem Wraps.not_ownsSymbol {e : Entry} {target : Option EntryId} (h : Wraps e target) :
    ¬ OwnsSymbol e := by
  cases h <;> simp [OwnsSymbol, *]

theorem Wraps.references {e : Entry} {target : Option EntryId} (h : Wraps e target) :
    e.references = target.toList := by
  cases h <;> simp [Entry.references, *]

/-- An entry has the members and constants of `b`: its own, or what is behind it as a typedef. -/
inductive Lends (source : Source) : Entry → Entry → Prop
  | own {e : Entry} : Lends source e e
  | typedef {e b : Entry} {target : EntryId} : e.kind = .typedef (some target) →
    Strips source target (some b) → Lends source e b

/-- The symbol that the goal of a shape comes to. -/
def ComesTo (source : Source) : Option EntryId → SymbolKey → Prop
  | some goal, key => Resolves source goal key
  | none, key => key = voidKey

theorem strips_unique {id : EntryId} {a b : Option Entry} (ha : Strips source id a)
    (hb : Strips source id b) : a = b := by
  induction ha with
  | stop hfind hstop =>
    cases hb with
    | stop hother => rw [← hfind, ← hother]
    | skip hother hkind =>
      cases hfind.symm.trans hother
      exact absurd hkind (hstop _)
    | void hother hkind =>
      cases hfind.symm.trans hother
      exact absurd hkind (hstop _)
  | skip hfind hkind _ ih =>
    cases hb with
    | stop hother hstop =>
      cases hfind.symm.trans hother
      exact absurd hkind (hstop _)
    | skip hother hkind' hnext =>
      cases hfind.symm.trans hother
      cases hkind.symm.trans hkind'
      exact ih hnext
    | void hother hkind' =>
      cases hfind.symm.trans hother
      cases hkind.symm.trans hkind'
  | void hfind hkind =>
    cases hb with
    | stop hother hstop =>
      cases hfind.symm.trans hother
      exact absurd hkind (hstop _)
    | skip hother hkind' hnext =>
      cases hfind.symm.trans hother
      cases hkind.symm.trans hkind'
    | void => rfl

/-! ## Rows -/

/-- A reachable entry has the symbol, or `void` is met and this is its symbol. -/
def SymbolOf (source : Source) (key : SymbolKey) : Prop :=
  (∃ e, source.Reaches e ∧ OwnKey source e key) ∨ key = voidKey ∧ source.MeetsVoid

/-- A reachable compound, or a typedef of a compound, has the field in one of its members. -/
inductive FieldOf (source : Source) : MemberKey → FieldContent → Prop
  | mk {e b : Entry} {kind : CompoundKind} {members : List Member} {declaration : Bool}
    {m : Member} {place : Nat} {owner type : SymbolKey} {extents : List Nat} {pointers : Nat}
    {goal : Option EntryId} : source.Reaches e → OwnKey source e owner → Lends source e b →
    b.kind = .compound kind members declaration → (m, place) ∈ members.zipIdx →
    Leads source false m.type extents pointers goal → ComesTo source goal type →
    FieldOf source ⟨owner, memberName m place⟩
      ⟨m.byteOffset, type, extents, source.littleEndian, m.bitSize, m.bitOffset, pointers⟩

/-- A reachable enumeration, or a typedef of an enumeration, has the constant. -/
inductive ConstantOf (source : Source) : MemberKey → Int → Prop
  | mk {e b : Entry} {constants : List Constant} {c : Constant} {owner : SymbolKey} :
    source.Reaches e → OwnKey source e owner → Lends source e b →
    b.kind = .enumeration constants → c ∈ constants → ConstantOf source ⟨owner, c.name⟩ c.value

/-- A reachable compound, or a typedef of a compound, has a member of the name. -/
inductive HasMember (source : Source) : MemberKey → Prop
  | mk {e b : Entry} {kind : CompoundKind} {members : List Member} {declaration : Bool}
    {m : Member} {place : Nat} {owner : SymbolKey} : source.Reaches e → OwnKey source e owner →
    Lends source e b → b.kind = .compound kind members declaration →
    (m, place) ∈ members.zipIdx → HasMember source ⟨owner, memberName m place⟩

/-! ## Ways through a source -/

theorem mem_references_of_typedef {e : Entry} {target : EntryId}
    (h : e.kind = .typedef (some target)) : target ∈ e.references := by
  simp [Entry.references, h]

theorem mem_references_of_qualified {e : Entry} {target : EntryId}
    (h : e.kind = .qualified (some target)) : target ∈ e.references := by
  simp [Entry.references, h]

theorem mem_references_of_pointer {e : Entry} {target : EntryId}
    (h : e.kind = .pointer (some target)) : target ∈ e.references := by
  simp [Entry.references, h]

theorem mem_references_of_array {e : Entry} {element : EntryId} {extents : List Nat}
    (h : e.kind = .array element extents) : element ∈ e.references := by
  simp [Entry.references, h]

theorem mem_references_of_compound {e : Entry} {kind : CompoundKind} {members : List Member}
    {declaration : Bool} {target : EntryId} (h : e.kind = .compound kind members declaration) :
    target ∈ e.references ↔ ∃ m ∈ members, m.type = target := by
  simp [Entry.references, h]

theorem mem_of_mem_zipIdx {α : Type} {l : List α} {a : α} {place : Nat}
    (h : (a, place) ∈ l.zipIdx) : a ∈ l :=
  List.mem_of_getElem? (List.mem_zipIdx_iff_getElem?.mp h)

theorem exists_mem_zipIdx {α : Type} {l : List α} {a : α} (h : a ∈ l) :
    ∃ place, (a, place) ∈ l.zipIdx := by
  obtain ⟨place, hplace⟩ := List.getElem?_of_mem h
  exact ⟨place, List.mem_zipIdx_iff_getElem?.mpr hplace⟩

/-- What is behind the qualifiers of a reachable entry can be reached. -/
theorem reaches_of_strips {id : EntryId} {behind : Option Entry} (h : Strips source id behind)
    (hid : source.Reachable id) {b : Entry} (hb : behind = some b) : source.Reaches b := by
  induction h with
  | stop hfind =>
    cases hb
    exact ⟨_, hid, hfind⟩
  | skip hfind hkind _ ih => exact ih (hid.step hfind (mem_references_of_qualified hkind)) hb
  | void => cases hb

theorem reaches_of_lends {e b : Entry} (h : Lends source e b) (he : source.Reaches e) :
    source.Reaches b := by
  cases h with
  | own => exact he
  | typedef hkind hstrips =>
    obtain ⟨id, hid, hfind⟩ := he
    exact reaches_of_strips hstrips (hid.step hfind (mem_references_of_typedef hkind)) rfl

theorem Leads.reachable {crossed : Bool} {id : EntryId} {extents : List Nat} {pointers : Nat}
    {goal : Option EntryId} (h : Leads source crossed id extents pointers goal)
    (hid : source.Reachable id) :
    (∀ target, goal = some target → source.Reachable target) ∧
      (goal = none → source.MeetsVoid) := by
  induction h with
  | stop hfind =>
    refine ⟨fun target htarget => ?_, nofun⟩
    cases htarget
    exact hid
  | qualified hfind hkind _ ih => exact ih (hid.step hfind (mem_references_of_qualified hkind))
  | qualifiedVoid hfind hkind => exact ⟨nofun, fun _ => ⟨_, ⟨_, hid, hfind⟩, .inr hkind⟩⟩
  | array hfind hkind _ ih => exact ih (hid.step hfind (mem_references_of_array hkind))
  | pointer hfind hkind _ ih => exact ih (hid.step hfind (mem_references_of_pointer hkind))
  | pointerVoid hfind hkind => exact ⟨nofun, fun _ => ⟨_, ⟨_, hid, hfind⟩, .inl hkind⟩⟩

/-- What a reachable entry comes to is a symbol of the source. -/
theorem Resolves.symbolOf {id : EntryId} {key : SymbolKey} (h : Resolves source id key)
    (hid : source.Reachable id) : SymbolOf source key := by
  induction h with
  | own hfind hkey => exact .inl ⟨_, ⟨_, hid, hfind⟩, hkey⟩
  | array hfind hkind _ ih => exact ih (hid.step hfind (mem_references_of_array hkind))
  | pointer hfind hkind _ ih => exact ih (hid.step hfind (mem_references_of_pointer hkind))
  | pointerVoid hfind hkind => exact .inr ⟨rfl, _, ⟨_, hid, hfind⟩, .inl hkind⟩
  | qualified hfind hkind _ ih => exact ih (hid.step hfind (mem_references_of_qualified hkind))
  | qualifiedVoid hfind hkind => exact .inr ⟨rfl, _, ⟨_, hid, hfind⟩, .inr hkind⟩

/-- Owner and type of a field are symbols of the source. -/
theorem FieldOf.symbolOf {key : MemberKey} {content : FieldContent}
    (h : FieldOf source key content) :
    SymbolOf source key.owner ∧ SymbolOf source content.type := by
  obtain ⟨he, hkey, hlends, hb, hm, hleads, htype⟩ := h
  refine ⟨.inl ⟨_, he, hkey⟩, ?_⟩
  obtain ⟨id, hid, hfind⟩ := reaches_of_lends hlends he
  obtain ⟨hgoal, hvoid⟩ := hleads.reachable
    (hid.step hfind ((mem_references_of_compound hb).mpr ⟨_, mem_of_mem_zipIdx hm, rfl⟩))
  rename_i goal
  cases goal with
  | some goal => exact Resolves.symbolOf htype (hgoal goal rfl)
  | none => exact .inr ⟨htype, hvoid rfl⟩

theorem FieldOf.hasMember {key : MemberKey} {content : FieldContent}
    (h : FieldOf source key content) : HasMember source key := by
  obtain ⟨he, hkey, hlends, hb, hm, -⟩ := h
  exact .mk he hkey hlends hb hm

theorem ConstantOf.symbolOf {key : MemberKey} {value : Int} (h : ConstantOf source key value) :
    SymbolOf source key.owner := by
  obtain ⟨he, hkey, -⟩ := h
  exact .inl ⟨_, he, hkey⟩

/-- A goal with a symbol of its own comes to that and to nothing else. -/
theorem comesTo_iff_own {id : EntryId} {e : Entry} {own type : SymbolKey}
    (hfind : source.find? id = some e) (hown : OwnKey source e own) :
    ComesTo source (some id) type ↔ type = own := by
  constructor
  · intro h
    have howns := ownsSymbol_of_ownKey hown
    cases h with
    | own hother hkey =>
      cases hfind.symm.trans hother
      exact ownKey_unique hkey hown
    | array hother hkind =>
      cases hfind.symm.trans hother
      exact absurd howns (Wraps.array hkind).not_ownsSymbol
    | pointer hother hkind =>
      cases hfind.symm.trans hother
      exact absurd howns (Wraps.pointer hkind).not_ownsSymbol
    | pointerVoid hother hkind =>
      cases hfind.symm.trans hother
      exact absurd howns (Wraps.pointer hkind).not_ownsSymbol
    | qualified hother hkind =>
      cases hfind.symm.trans hother
      exact absurd howns (Wraps.qualified hkind).not_ownsSymbol
    | qualifiedVoid hother hkind =>
      cases hfind.symm.trans hother
      exact absurd howns (Wraps.qualified hkind).not_ownsSymbol
  · rintro rfl
    exact .own hfind hown

end LayoutGraph.Survey
