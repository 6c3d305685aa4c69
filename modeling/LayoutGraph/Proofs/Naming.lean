-- How entries without names come by them. A struct, union or enumeration that
-- waits for a name is not walked on its own, and its first typedef names it.
-- An entry that qualifies it is walked on its own wherever it is listed, so it
-- has to be listed behind a typedef that names what it qualifies.
import LayoutGraph.Proofs.Ledger.Pass
import LayoutGraph.Proofs.Source.Coherent
import LayoutGraph.Proofs.Survey.Way
import LayoutGraph.Proofs.Survey.Whole

namespace LayoutGraph

open Survey

namespace Survey

variable {source : Source}

/-! ## How names are given -/

/-- The typedefs that can be reached have names. -/
def TypedefsNamed (source : Source) : Prop :=
  ∀ t target, source.Reaches t → t.kind = .typedef target → t.shownName ≠ ""

/-- Behind the qualifiers around the id, no entry waits for a name. -/
def NoneWaits (source : Source) (id : EntryId) : Prop :=
  ∀ bare, Strips source id (some bare) → bare.awaitsName = false

/-- Members, arrays and pointers that can be reached lead to no entry that waits for a name, unless
by a typedef. -/
def NamedByTypedefs (source : Source) : Prop :=
  ∀ e, source.Reaches e → (∀ target, e.kind ≠ .typedef target) →
    (∀ target, e.kind ≠ .qualified target) → ∀ target ∈ e.references, NoneWaits source target

/-- What is listed around an entry that waits for a name is listed behind a typedef of that. -/
def ListedBehindTypedefs (source : Source) : Prop :=
  ∀ before id after, source.topLevel = before ++ id :: after →
    ∀ e target bare, source.find? id = some e → e.kind = .qualified target →
      Strips source id (some bare) → bare.awaitsName = true →
      ∃ other ∈ before, ∃ t, source.find? other = some t ∧ Names source t bare

/-! ## The invariant -/

theorem voidKey_named : voidKey.name ≠ "" := by decide

/-- All symbols have names, those that are bound and those that are written, and where a typedef is
bound that can name an entry, so is the entry. -/
structure Titled (source : Source) (p : Progress) : Prop where
  bound : ∀ id key, p.symbol? id = some key → key.name ≠ ""
  written : ∀ s ∈ p.steps, ∀ key ∈ s.symbols, key.name ≠ ""
  named : ∀ id t bare, (p.symbol? id).isSome → source.find? id = some t → Names source t bare →
    (p.symbol? bare.id).isSome

variable {p q : Progress}

theorem titled_empty (source : Source) : Titled source {} where
  bound _ _ h := by cases h
  written _ h := by simp at h
  named _ _ _ h := by cases h

namespace Titled

theorem push (h : Titled source p) {s : Step} (hs : ∀ key ∈ s.symbols, key.name ≠ "") :
    Titled source (p.push s) where
  bound := h.bound
  written t ht := by
    rcases Array.mem_push.mp ht with ht | rfl
    · exact h.written t ht
    · exact hs
  named := h.named

theorem visit (h : Titled source p) (id : EntryId) (e : Entry) : Titled source (p.visit id e) :=
  h.push nofun

theorem pushSymbol (h : Titled source p) {key : SymbolKey} (hkey : key.name ≠ "") :
    Titled source (p.push (.symbol key)) :=
  h.push fun other hother => by rwa [List.mem_singleton.mp hother]

theorem pushField (h : Titled source p) {m : Member} {place : Nat} {owner type : SymbolKey}
    {extents : List Nat} {pointers : Nat} (howner : owner.name ≠ "") (htype : type.name ≠ "") :
    Titled source (p.push (.field (memberStep owner m place type extents pointers))) := by
  refine h.push fun key hkey => ?_
  rcases List.mem_cons.mp hkey with rfl | hkey
  · exact howner
  · rw [List.mem_singleton.mp hkey]
    exact htype

theorem pushConstants (h : Titled source p) {key : SymbolKey} (hkey : key.name ≠ "")
    (constants : List Constant) : Titled source (p.pushConstants key constants) := by
  unfold Progress.pushConstants
  induction constants generalizing p with
  | nil => exact h
  | cons c rest ih =>
    refine ih (h.push fun other hother => ?_)
    rw [List.mem_singleton.mp hother]
    exact hkey

theorem withVoid (h : Titled source p) : Titled source p.withVoid := by
  unfold Progress.withVoid
  split
  · exact h
  · have hpush := h.pushSymbol voidKey_named
    exact ⟨hpush.bound, hpush.written, hpush.named⟩

/-- A symbol with a name may be bound, to a typedef once what that names is bound. -/
theorem bind (h : Titled source p) {id : EntryId} {b : Binding} (hname : b.symbol.name ≠ "")
    (hnamed : ∀ t bare, source.find? id = some t → Names source t bare →
      (p.symbol? bare.id).isSome) : Titled source (p.bind id b) where
  bound other key hother := by
    rw [Progress.symbol?_bind] at hother
    split at hother
    · cases hother
      exact hname
    · exact h.bound other key hother
  written := h.written
  named other t bare hother hfind hnames := by
    refine (Extends.bind p id b).bound _ ?_
    rw [Progress.symbol?_bind] at hother
    split at hother
    · rename_i heq
      exact hnamed t bare (heq ▸ hfind) hnames
    · exact h.named other t bare hother hfind hnames

theorem enter (h : Titled source p) (id : EntryId) {e : Entry} {key : SymbolKey}
    (hname : key.name ≠ "") (hnamed : ∀ t bare, source.find? e.id = some t → Names source t bare →
      (p.symbol? bare.id).isSome) : Titled source (p.enter id e key) :=
  ((h.visit id e).pushSymbol hname).bind hname hnamed

end Titled

/-! ## Tasks -/

/-- What a task may count on. -/
def Task.Fit (source : Source) (p : Progress) : Task → Prop
  | .entry id name? => (∀ e, source.find? id = some e → source.Reaches e) ∧
      (∀ name, name? = some name → name ≠ "") ∧
      (name? = none → ∀ bare, Strips source id (some bare) → bare.awaitsName = true →
        (p.symbol? bare.id).isSome)
  | .members owner rest => owner.name ≠ "" ∧ ∀ member ∈ rest,
      source.Reachable member.1.type ∧ NoneWaits source member.1.type
  | .content owner behind => owner.name ≠ "" ∧ ∀ b, behind = some b → source.Reaches b

/-- What a task brings about: an entry that waits for a name is bound, and so is one that the entry
names as a typedef. -/
def Task.Named (source : Source) (key : SymbolKey) (q : Progress) : Task → Prop
  | .entry id _ => key.name ≠ "" ∧
      (∀ bare, source.find? id = some bare → bare.id = id → bare.awaitsName = true →
        (q.symbol? id).isSome) ∧
      ∀ t bare, source.find? id = some t → Names source t bare → (q.symbol? bare.id).isSome
  | .members .. | .content .. => True

/-! ## Walks -/

theorem not_awaits_of_wraps {e : Entry} {target : Option EntryId} (h : Wraps e target) :
    e.awaitsName = false := by
  cases h <;> simp [Entry.awaitsName, *]

theorem not_typedef_of_awaits {e : Entry} (h : e.awaitsName = true) :
    ∀ target, e.kind ≠ .typedef target := by
  intro target hkind
  simp [Entry.awaitsName, hkind] at h

/-- Where no typedef comes in, the way to the goal of a shape meets no entry that waits. -/
theorem Leads.noneWaits (byTypedefs : NamedByTypedefs source) {crossed : Bool} {id : EntryId}
    {extents : List Nat} {pointers : Nat} {goal : Option EntryId}
    (h : Leads source crossed id extents pointers goal) (hid : source.Reachable id)
    (hnone : NoneWaits source id) : ∀ target, goal = some target → NoneWaits source target := by
  induction h with
  | stop =>
    rintro target ⟨⟩
    exact hnone
  | qualified hfind hkind _ ih =>
    exact ih (hid.step hfind (mem_references_of_qualified hkind))
      fun bare hbare => hnone bare (.skip hfind hkind hbare)
  | array hfind hkind _ ih =>
    have htarget := mem_references_of_array hkind
    exact ih (hid.step hfind htarget)
      (byTypedefs _ ⟨_, hid, hfind⟩ (by simp [hkind]) (by simp [hkind]) _ htarget)
  | pointer hfind hkind _ ih =>
    have htarget := mem_references_of_pointer hkind
    exact ih (hid.step hfind htarget)
      (byTypedefs _ ⟨_, hid, hfind⟩ (by simp [hkind]) (by simp [hkind]) _ htarget)
  | qualifiedVoid => exact nofun
  | pointerVoid => exact nofun

/-- An entry that is no typedef names nothing. -/
theorem Names.absurd_of {id : EntryId} {e t bare : Entry} {P : Prop} (h : Names source t bare)
    (ht : source.find? id = some t) (he : source.find? id = some e)
    (hkind : ∀ target, e.kind ≠ .typedef target) : P := by
  obtain ⟨htypedef, -, -⟩ := h
  cases he.symm.trans ht
  exact absurd htypedef (hkind _)

/-- What a typedef leaves to be walked as it is has its name already. -/
theorem bound_of_not_naming {t bare : Entry} {target : EntryId} {behind : Option Entry}
    (hkind : t.kind = .typedef (some target)) (hstrips : Strips source target behind)
    (hnaming : behind.filter (unnamed p) = none) (h : Names source t bare) :
    (p.symbol? bare.id).isSome := by
  obtain ⟨hkind', hstrips', hawaits⟩ := h
  cases hkind.symm.trans hkind'
  cases strips_unique hstrips hstrips'
  simpa [unnamed, hawaits, Option.isSome_iff_ne_none] using hnaming

/-- An entry under its given name, or under its own where it waits for none, has a name. -/
theorem Task.Fit.name {id : EntryId} {name? : Option String} {e : Entry}
    (h : (Task.entry id name?).Fit source p) (fresh : Fresh source p id e)
    (hkind : e.awaitsName = e.anonymous) : name?.getD e.shownName ≠ "" := by
  obtain ⟨-, given, waits⟩ := h
  cases name? with
  | some name => exact given name rfl
  | none =>
    intro hempty
    have hempty : e.shownName = "" := hempty
    have hawaits : e.awaitsName = true := by simp [hkind, Entry.anonymous, hempty]
    have hstrips : Strips source id (some e) := by
      refine .stop fresh.found fun target hqualified => ?_
      simp [Entry.awaitsName, hqualified] at hawaits
    have hbound := waits rfl e hstrips hawaits
    have helsewhere := fresh.elsewhere
    unfold boundElsewhere? at helsewhere
    split at helsewhere
    · rename_i hsame
      rw [hsame, fresh.absent] at hbound
      cases hbound
    · rw [helsewhere] at hbound
      cases hbound

/-- A walk ends well where it binds the entry to a symbol with a name. -/
theorem Titled.completes {id under : EntryId} {name? : Option String} {e : Entry} {key : SymbolKey}
    (hq : Titled source q) (hid : source.find? id = some e) (hunder : source.find? under = some e)
    (hwhich : under = id ∨ under = e.id) (hname : key.name ≠ "")
    (hnamed : ∀ bare, Names source e bare → (q.symbol? bare.id).isSome) :
    Titled source (q.bind under ⟨key, true⟩) ∧
      (Task.entry id name?).Named source key (q.bind under ⟨key, true⟩) := by
  have bound : ((q.bind under ⟨key, true⟩).symbol? under).isSome := by
    rw [Progress.symbol?_bind, if_pos rfl]
    rfl
  refine ⟨hq.bind hname fun t bare ht hnames => ?_, hname, fun bare hbare hself _ => ?_,
    fun t bare ht hnames => ?_⟩
  · cases hunder.symm.trans ht
    exact hnamed bare hnames
  · cases hid.symm.trans hbare
    rcases hwhich with rfl | rfl
    · exact bound
    · exact hself ▸ bound
  · cases hid.symm.trans ht
    exact (Extends.bind q _ _).bound _ (hnamed bare hnames)

/-- An entry that stands for another one brings about no more than to have a symbol. -/
theorem Task.named_of_wraps {id : EntryId} {name? : Option String} {e : Entry} {key : SymbolKey}
    {target : Option EntryId} (hid : source.find? id = some e) (hwraps : Wraps e target)
    (hname : key.name ≠ "") : (Task.entry id name?).Named source key q := by
  refine ⟨hname, fun bare hbare _ hawaits => ?_, fun t bare ht hnames => ?_⟩
  · cases hid.symm.trans hbare
    rw [not_awaits_of_wraps hwraps] at hawaits
    cases hawaits
  · refine hnames.absurd_of ht hid fun other hkind => ?_
    cases hwraps <;> simp_all

/-- Where no entry waits, the walk is given no name and needs none. -/
theorem fit_of_noneWaits {id : EntryId} (hid : source.Reachable id) (hnone : NoneWaits source id) :
    (Task.entry id none).Fit source p := by
  refine ⟨fun _ hfind => ⟨id, hid, hfind⟩, nofun, fun _ bare hstrips hawaits => ?_⟩
  rw [hnone bare hstrips] at hawaits
  cases hawaits

/-- The types of members lead to no entry that waits. -/
theorem NamedByTypedefs.fit (h : NamedByTypedefs source) {b : Entry} {kind : CompoundKind}
    {members : List Member} {declaration : Bool} {owner : SymbolKey} (hb : source.Reaches b)
    (hkind : b.kind = .compound kind members declaration) (howner : owner.name ≠ "") :
    (Task.members owner members.zipIdx).Fit source p := by
  refine ⟨howner, fun member hmember => ?_⟩
  have htarget := (mem_references_of_compound hkind).mpr ⟨_, mem_of_mem_zipIdx hmember, rfl⟩
  exact ⟨hb.reference htarget, h b hb (by simp [hkind]) (by simp [hkind]) _ htarget⟩

/-- A walk gives all its symbols names. -/
theorem Walks.titled (coherent : source.Coherent) (typedefs : TypedefsNamed source)
    (byTypedefs : NamedByTypedefs source) {task : Task} {key : SymbolKey}
    (h : Walks source task p key q) :
    task.Fit source p → Titled source p → Titled source q ∧ task.Named source key q := by
  induction h with
  | @bound id name? p key hbound =>
    intro _ hp
    have hsome : (p.symbol? id).isSome := by simp [hbound]
    exact ⟨hp, hp.bound _ _ hbound, fun _ _ _ _ => hsome,
      fun t bare ht hnames => hp.named id t bare hsome ht hnames⟩
  | @elsewhere id name? e p key hfind hbound =>
    intro _ hp
    have hsome : (p.symbol? e.id).isSome := by simp [hbound]
    refine ⟨hp, hp.bound _ _ hbound, fun bare hbare hself _ => ?_, fun t bare ht hnames => ?_⟩
    · cases hfind.symm.trans hbare
      exact hself ▸ hsome
    · cases hfind.symm.trans ht
      exact hp.named e.id e bare hsome (coherent _ _ hfind) hnames
  | @base id name? e p key fresh hkind hkey =>
    intro _ hp
    have hname : key.name ≠ "" := by
      rw [hkey]
      cases hanonymous : e.anonymous with
      | true => simp [voidName]
      | false => simpa [Entry.anonymous] using hanonymous
    exact ((hp.visit id e).pushSymbol hname).completes fresh.found fresh.found (.inl rfl) hname
      fun bare hnames => hnames.absurd_of fresh.found fresh.found (by simp [hkind])
  | @compound id name? e p q key kind members declaration fresh hkind hname hsize hwalks ih =>
    intro fit hp
    have hself := coherent _ _ fresh.found
    have hkey : key.name ≠ "" := hname ▸ fit.name fresh (by simp [Entry.awaitsName, hkind])
    have nothing {p : Progress} : ∀ bare, Names source e bare → (p.symbol? bare.id).isSome :=
      fun bare hnames => hnames.absurd_of hself hself (by simp [hkind])
    have hreach := fit.1 e fresh.found
    have henter := hp.enter id hkey fun t bare ht => by
      cases hself.symm.trans ht
      exact nothing bare
    obtain ⟨hq, -⟩ := ih (byTypedefs.fit hreach hkind hkey) henter
    exact hq.completes fresh.found hself (.inr rfl) hkey nothing
  | @enumeration id name? e p key constants fresh hkind hkey =>
    intro fit hp
    have hname : key.name ≠ "" := hkey ▸ fit.name fresh (by simp [Entry.awaitsName, hkind])
    exact (((hp.visit id e).pushSymbol hname).pushConstants hname constants).completes fresh.found
      (coherent _ _ fresh.found) (.inr rfl) hname fun bare hnames =>
        hnames.absurd_of fresh.found fresh.found (by simp [hkind])
  | @array id element name? e p q key extents fresh hkind hwalks ih =>
    intro fit hp
    have hreach := fit.1 e fresh.found
    have htarget := mem_references_of_array hkind
    obtain ⟨hq, hname, -, -⟩ := ih (fit_of_noneWaits (hreach.reference htarget)
      (byTypedefs e hreach (by simp [hkind]) (by simp [hkind]) _ htarget)) (hp.visit id e)
    exact hq.completes fresh.found fresh.found (.inl rfl) hname fun bare hnames =>
      hnames.absurd_of fresh.found fresh.found (by simp [hkind])
  | @pointer id target name? e p q key fresh hkind hwalks ih =>
    intro fit hp
    have hreach := fit.1 e fresh.found
    have htarget := mem_references_of_pointer hkind
    obtain ⟨hq, hname, -, -⟩ := ih (fit_of_noneWaits (hreach.reference htarget)
      (byTypedefs e hreach (by simp [hkind]) (by simp [hkind]) _ htarget)) (hp.visit id e)
    exact hq.completes fresh.found fresh.found (.inl rfl) hname fun bare hnames =>
      hnames.absurd_of fresh.found fresh.found (by simp [hkind])
  | @pointerVoid id name? e p fresh hkind =>
    intro _ hp
    exact (hp.visit id e).withVoid.completes fresh.found fresh.found (.inl rfl) voidKey_named
      fun bare hnames => hnames.absurd_of fresh.found fresh.found (by simp [hkind])
  | @qualified id target name? e p q key fresh hkind hwalks ih =>
    intro fit hp
    have hreach := fit.1 e fresh.found
    have htarget := hreach.reference (mem_references_of_qualified hkind)
    obtain ⟨hq, hname, -, -⟩ := ih ⟨fun _ hfind => ⟨target, htarget, hfind⟩, fit.2.1,
      fun hnone bare hstrips => fit.2.2 hnone bare (.skip fresh.found hkind hstrips)⟩
      (hp.visit id e)
    exact ⟨hq, Task.named_of_wraps fresh.found (.qualified hkind) hname⟩
  | @qualifiedVoid id name? e p fresh hkind =>
    intro _ hp
    exact ⟨(hp.visit id e).withVoid,
      Task.named_of_wraps fresh.found (.qualified hkind) voidKey_named⟩
  | @naming id target name? e bare p q key fresh hkind hstrips hunnamed hwalks ih =>
    intro fit hp
    have hreach := fit.1 e fresh.found
    have hbare := reaches_of_strips hstrips
      (hreach.reference (mem_references_of_typedef hkind)) rfl
    have hself : source.find? bare.id = some bare := by
      obtain ⟨found, -, hfound⟩ := hbare
      exact coherent _ _ hfound
    have hawaits : bare.awaitsName = true := by
      simp only [unnamed, Bool.and_eq_true] at hunnamed
      exact hunnamed.1
    have given : (Task.entry bare.id (some e.shownName)).Fit source (p.visit id e) := by
      refine ⟨fun other hother => ?_, fun name hname => ?_, fun hnone => by cases hnone⟩
      · cases hself.symm.trans hother
        exact hbare
      · cases hname
        exact typedefs e _ hreach hkind
    obtain ⟨hq, hname, hbound, -⟩ := ih given (hp.visit id e)
    refine hq.completes fresh.found (coherent _ _ fresh.found) (.inr rfl) hname
      fun other hnames => ?_
    obtain ⟨hkind', hstrips', -⟩ := hnames
    cases hkind.symm.trans hkind'
    cases strips_unique hstrips hstrips'
    exact hbound bare hself rfl hawaits
  | @typedef id target name? e behind p m q key type fresh hkind hstrips hnaming hname hsize htarget
      hwalks ihtarget ih =>
    intro fit hp
    have hreach := fit.1 e fresh.found
    have hself := coherent _ _ fresh.found
    have hkey : key.name ≠ "" := hname ▸ typedefs e _ hreach hkind
    have hreachable := hreach.reference (mem_references_of_typedef hkind)
    have bound : ∀ bare, Names source e bare → (p.symbol? bare.id).isSome :=
      fun bare => bound_of_not_naming hkind hstrips hnaming
    have henter := hp.enter id hkey fun t bare ht => by
      cases hself.symm.trans ht
      exact bound bare
    have hextends := Extends.enter p id e key
    have given : (Task.entry target none).Fit source (p.enter id e key) := by
      refine ⟨fun _ hfind => ⟨target, hreachable, hfind⟩, fun _ hname => ?_,
        fun _ bare hbare hawaits => hextends.bound _ (bound bare (.mk hkind hbare hawaits))⟩
      cases hname
    obtain ⟨hm, -⟩ := ihtarget given henter
    obtain ⟨hq, -⟩ := ih ⟨hkey, fun b hb => reaches_of_strips hstrips hreachable hb⟩ hm
    exact hq.completes fresh.found hself (.inr rfl) hkey fun bare hnames =>
      (hextends.trans (htarget.extends.trans hwalks.extends)).bound _ (bound bare hnames)
  | @typedefVoid id name? e p key fresh hkind hname hsize =>
    intro fit hp
    have hself := coherent _ _ fresh.found
    have hkey : key.name ≠ "" := hname ▸ typedefs e _ (fit.1 e fresh.found) hkind
    have nothing : ∀ bare, ¬ Names source e bare := by
      rintro bare ⟨hother, -, -⟩
      cases hkind.symm.trans hother
    have henter := hp.enter id hkey fun t bare ht hnames => by
      cases hself.symm.trans ht
      exact absurd hnames (nothing bare)
    exact henter.completes fresh.found hself (.inr rfl) hkey fun bare hnames =>
      absurd hnames (nothing bare)
  | done => exact fun _ hp => ⟨hp, trivial⟩
  | @member owner type m place rest extents pointers goal p q r hleads hgoal hrest ihgoal ihrest =>
    rintro ⟨howner, hall⟩ hp
    obtain ⟨hm, hnone⟩ := hall (m, place) List.mem_cons_self
    obtain ⟨hreachable, -⟩ := hleads.reachable hm
    obtain ⟨hq, htype, -, -⟩ := ihgoal (fit_of_noneWaits (hreachable goal rfl)
      (hleads.noneWaits byTypedefs hm hnone goal rfl)) hp
    exact ihrest ⟨howner, fun member h => hall member (List.mem_cons_of_mem _ h)⟩
      (hq.pushField howner htype)
  | @memberVoid owner m place rest extents pointers p r hleads hrest ihrest =>
    rintro ⟨howner, hall⟩ hp
    exact ihrest ⟨howner, fun member h => hall member (List.mem_cons_of_mem _ h)⟩
      (hp.withVoid.pushField howner voidKey_named)
  | @lentMembers owner b kind members declaration p q hb hwalks ih =>
    rintro ⟨howner, hreach⟩ hp
    exact ⟨(ih (byTypedefs.fit (hreach b rfl) hb howner) hp).1, trivial⟩
  | @lentConstants owner b constants p hb =>
    rintro ⟨howner, -⟩ hp
    exact ⟨hp.pushConstants howner constants, trivial⟩
  | nothing => exact fun _ hp => ⟨hp, trivial⟩

/-! ## Surveys -/

/-- What is listed and walked on its own meets entries that wait for a name only behind typedefs
that were walked before. -/
theorem ListedBehindTypedefs.fit (h : ListedBehindTypedefs source) {before after : List EntryId}
    {id : EntryId} {e : Entry} (hsplit : source.topLevel = before ++ id :: after)
    (hfind : source.find? id = some e) (hnot : e.awaitsName = false)
    (earlier : ∀ other ∈ before, ∀ t bare, source.find? other = some t → Names source t bare →
      (p.symbol? bare.id).isSome) : (Task.entry id none).Fit source p := by
  have hid : source.Reachable id := .listed (by simp [hsplit])
  refine ⟨fun _ he => ⟨id, hid, he⟩, nofun, fun _ bare hstrips hawaits => ?_⟩
  cases hstrips with
  | stop hother =>
    cases hfind.symm.trans hother
    rw [hnot] at hawaits
    cases hawaits
  | skip hother hkind hnext =>
    obtain ⟨other, hmem, t, ht, hnames⟩ :=
      h before id after hsplit _ _ bare hother hkind (.skip hother hkind hnext) hawaits
    exact earlier other hmem t bare ht hnames

theorem surveyFrom_titled (coherent : source.Coherent) (typedefs : TypedefsNamed source)
    (byTypedefs : NamedByTypedefs source) (listed : ListedBehindTypedefs source)
    {before ids : List EntryId} (hsplit : source.topLevel = before ++ ids) {start : Progress}
    (hstart : Titled source { start with steps := #[] })
    (earlier : ∀ other ∈ before, ∀ t bare, source.find? other = some t → Names source t bare →
      (start.symbol? bare.id).isSome)
    (hok : failureOf (surveyFrom source ids start).resolutions = none) :
    ∀ s ∈ stepsOf (surveyFrom source ids start).resolutions, ∀ key ∈ s.symbols,
      key.name ≠ "" := by
  induction ids generalizing start before with
  | nil => exact nofun
  | cons id rest ih =>
    have hsplit' : source.topLevel = (before ++ [id]) ++ rest := by simpa using hsplit
    obtain ⟨e, hfind, ⟨hawaits, htop⟩ | ⟨hnot, key, q, hwalks, htop⟩⟩ :=
      resolveTop_cases start fun _ => resolveTop_unfailing hok
    all_goals
      unfold surveyFrom at hok ⊢
      rw [htop] at hok ⊢
    · refine ih hsplit' hstart (fun other hother t bare ht hnames => ?_) hok
      rcases List.mem_append.mp hother with hother | hother
      · exact earlier other hother t bare ht hnames
      · -- An entry that waits for a name is no typedef, so it names nothing.
        rw [List.mem_singleton.mp hother] at ht
        exact hnames.absurd_of ht hfind (not_typedef_of_awaits hawaits)
    · have fit : (Task.entry id none).Fit source { start with steps := #[] } :=
        listed.fit hsplit hfind hnot earlier
      obtain ⟨hq, -, -, hnamed⟩ := hwalks.titled coherent typedefs byTypedefs fit hstart
      have hrestart : Titled source { q with steps := #[] } := ⟨hq.bound, by simp, hq.named⟩
      have hrest := ih hsplit' hrestart (fun other hother t bare ht hnames => ?_)
        (failureOf_eq_none.mpr fun r hr =>
          failureOf_eq_none.mp hok r (List.mem_cons_of_mem _ hr))
      · intro s hs
        rcases List.mem_append.mp hs with hs | hs
        · exact hq.written s (Array.mem_toList_iff.mp hs)
        · exact hrest s hs
      · rcases List.mem_append.mp hother with hother | hother
        · exact hwalks.extends.bound _ (earlier other hother t bare ht hnames)
        · rw [List.mem_singleton.mp hother] at ht
          exact hnamed t bare ht hnames

end Survey

/-! ## The law -/

/-- After a parse that went well, every symbol has a name, if typedefs have names, members, arrays
and pointers refer to entries that wait for a name only by typedefs, and a qualifier of such an
entry is listed behind a typedef of it. The order of the other entries does not count, nor does it
count where the entries that wait are listed. -/
theorem typedefs_name_all_that_waits_for_a_name (source : Source) (coherent : source.Coherent)
    (typedefs : TypedefsNamed source) (byTypedefs : NamedByTypedefs source)
    (listed : ListedBehindTypedefs source)
    (ok : Session.outcome source ({} : Memory) = some .ok) :
    ∀ s ∈ (Session.parse source ({} : Memory)).2.graph.symbols, s.name ≠ "" := by
  obtain ⟨hfailure, hreads⟩ := parse_empty ok
  intro s hs
  have hkey : s.key ∈ source.ledger.symbols.map Prod.fst :=
    hreads.symbolKeys ▸ List.mem_map_of_mem hs
  obtain ⟨step, hstep, hsymbol⟩ := mem_symbols_entriesOf.mp (Table.mem_keys_merge_nil.mp hkey)
  have hnames := surveyFrom_titled coherent typedefs byTypedefs listed
    (List.nil_append source.topLevel).symm (titled_empty source) (by simp) hfailure
  exact hnames step hstep s.key hsymbol

/-- A struct without a name, its constant form, and a typedef of that; they are listed in order. -/
def tag (order : List EntryId) : Source where
  origin := "tag.o"
  littleEndian := true
  topLevel := order
  find? id :=
    if id = ⟨1⟩ then some ⟨id, some "int", some 4, .base⟩
    else if id = ⟨2⟩ then some ⟨id, none, some 4, .compound .struct
      [⟨some "value", 0, ⟨1⟩, none, none⟩] false⟩
    else if id = ⟨3⟩ then some ⟨id, none, none, .qualified (some ⟨2⟩)⟩
    else if id = ⟨4⟩ then some ⟨id, some "Tag", none, .typedef (some ⟨3⟩)⟩
    else none

section

variable {order : List EntryId}

/-- The struct without a name. -/
def bareTag : Entry :=
  ⟨⟨2⟩, none, some 4, .compound .struct [⟨some "value", 0, ⟨1⟩, none, none⟩] false⟩

/-- The typedef of the constant struct. -/
def namedTag : Entry := ⟨⟨4⟩, some "Tag", none, .typedef (some ⟨3⟩)⟩

theorem tag_find {id : EntryId} {e : Entry} (h : (tag order).find? id = some e) :
    e.id = id ∧ (e = ⟨⟨1⟩, some "int", some 4, .base⟩ ∨ e = bareTag ∨
      e = ⟨⟨3⟩, none, none, .qualified (some ⟨2⟩)⟩ ∨ e = namedTag) := by
  simp only [tag] at h
  split at h
  · cases h
    simp_all
  · split at h
    · cases h
      simp_all [bareTag]
    · split at h
      · cases h
        simp_all
      · split at h
        · cases h
          simp_all [namedTag]
        · cases h

theorem tag_coherent : (tag order).Coherent := Source.coherent_of_own fun _ _ h => (tag_find h).1

theorem tag_typedefs : TypedefsNamed (tag order) := by
  rintro t target ⟨id, -, hfind⟩ hkind
  rcases (tag_find hfind).2 with rfl | rfl | rfl | rfl
  · cases hkind
  · cases hkind
  · cases hkind
  · decide

theorem tag_byTypedefs : NamedByTypedefs (tag order) := by
  rintro e ⟨id, -, hfind⟩ notTypedef notQualified target htarget bare hstrips
  have hint : target = ⟨1⟩ := by
    rcases (tag_find hfind).2 with rfl | rfl | rfl | rfl
    · cases htarget
    · exact List.mem_singleton.mp htarget
    · exact absurd rfl (notQualified _)
    · exact absurd rfl (notTypedef _)
  subst hint
  have hbase : (tag order).find? ⟨1⟩ = some ⟨⟨1⟩, some "int", some 4, .base⟩ := rfl
  cases strips_unique hstrips (.stop hbase nofun)
  rfl

theorem namedTag_names : Names (tag order) namedTag bareTag :=
  .mk rfl (.skip rfl rfl (.stop rfl nofun)) rfl

end

theorem the_tag_is_named_by_its_typedef :
    let source := tag [⟨1⟩, ⟨2⟩, ⟨4⟩, ⟨3⟩]
    Session.outcome source ({} : Memory) = some .ok ∧
    ∀ s ∈ (Session.parse source ({} : Memory)).2.graph.symbols, s.name ≠ "" := by
  intro source
  have ok : Session.outcome source ({} : Memory) = some .ok := by decide +kernel
  refine ⟨ok, typedefs_name_all_that_waits_for_a_name source tag_coherent tag_typedefs
    tag_byTypedefs ?_ ok⟩
  intro before id after hsplit e target bare hfind hkind hstrips hawaits
  -- The constant form is the only qualifier, and the typedef is listed right before it.
  obtain ⟨hid, rfl | rfl | rfl | rfl⟩ := tag_find hfind
  · cases hkind
  · cases hkind
  · subst hid
    have htag : Strips source ⟨3⟩ (some bareTag) := .skip rfl rfl (.stop rfl nofun)
    cases strips_unique hstrips htag
    refine ⟨⟨4⟩, ?_, namedTag, rfl, namedTag_names⟩
    have hsplit : [⟨1⟩, ⟨2⟩, ⟨4⟩] ++ [⟨3⟩] = before ++ ⟨3⟩ :: after := hsplit
    rcases after.eq_nil_or_concat with rfl | ⟨rest, last, rfl⟩
    · rw [← (List.append_inj' hsplit rfl).1]
      decide
    · rw [List.concat_eq_append, ← List.cons_append, ← List.append_assoc] at hsplit
      have hmem : (⟨3⟩ : EntryId) ∈ before ++ ⟨3⟩ :: rest := by simp
      rw [← (List.append_inj' hsplit rfl).1] at hmem
      exact absurd hmem (by decide)
  · cases hkind

/-- The constant form of the struct is listed in front of the typedef, and it is walked on its own:
the struct gets a symbol without a name. -/
theorem a_constant_tag_listed_first_has_no_name :
    let source := tag [⟨1⟩, ⟨2⟩, ⟨3⟩, ⟨4⟩]
    Session.outcome source ({} : Memory) = some .ok ∧ TypedefsNamed source ∧
    NamedByTypedefs source ∧
    (∀ bare, source.Reaches bare → bare.awaitsName = true →
      ∃ id ∈ source.topLevel, ∃ t, source.find? id = some t ∧ Names source t bare) ∧
    ¬ ∀ s ∈ (Session.parse source ({} : Memory)).2.graph.symbols, s.name ≠ "" := by
  intro source
  refine ⟨by decide +kernel, tag_typedefs, tag_byTypedefs, ?_, by decide +kernel⟩
  rintro bare ⟨id, -, hfind⟩ hawaits
  refine ⟨⟨4⟩, by decide, namedTag, rfl, ?_⟩
  rcases (tag_find hfind).2 with rfl | rfl | rfl | rfl
  · cases hawaits
  · exact namedTag_names
  · cases hawaits
  · cases hawaits

end LayoutGraph
