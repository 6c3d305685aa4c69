-- A walk is faithful to its source. Every step that it writes is called for
-- by the entries, every binding is what its entry comes to, and an entry
-- that is bound as complete has all its rows written and everything it
-- refers to handled. A pending entry counts as handled: that is what lets a
-- walk end on a cycle.
import LayoutGraph.Proofs.Survey.Content
import LayoutGraph.Proofs.Survey.Walks

namespace LayoutGraph.Survey

variable {source : Source} {before : List Step} {p q : Progress}

/-! ## Steps and entries -/

/-- The step is among those written before the walk or by the walk. -/
def Wrote (before : List Step) (p : Progress) (s : Step) : Prop := s ∈ before ∨ s ∈ p.steps

/-- What a step writes is a row of the source. -/
def Justified (source : Source) : Step → Prop
  | .visit _ _ => True
  | .symbol key => SymbolOf source key
  | .field s => FieldOf source ⟨s.owner, s.name⟩ (s.content source.littleEndian)
  | .enumerator key c => ConstantOf source ⟨key, c.name⟩ c.value

/-- A field was written for the member. -/
def HasField (before : List Step) (p : Progress) (owner : SymbolKey) (m : Member) (place : Nat) :
    Prop :=
  ∃ step : FieldStep, Wrote before p (.field step) ∧ step.owner = owner ∧
    step.name = memberName m place

/-- The members and constants of an entry are written under a symbol. -/
structure Filled (before : List Step) (p : Progress) (owner : SymbolKey) (b : Entry) : Prop where
  fields : ∀ kind members declaration, b.kind = .compound kind members declaration →
    ∀ m place, (m, place) ∈ members.zipIdx → HasField before p owner m place
  constants : ∀ constants, b.kind = .enumeration constants →
    ∀ c ∈ constants, Wrote before p (.enumerator owner c)

/-- A walk has come by the id: it is bound, or its entry stands for another one that the walk has
come by. -/
inductive Handled (source : Source) (p : Progress) : EntryId → Prop
  | bound {id : EntryId} : (p.symbol? id).isSome → Handled source p id
  | elsewhere {id : EntryId} {e : Entry} : source.find? id = some e → (p.symbol? e.id).isSome →
    Handled source p id
  | wraps {id : EntryId} {e : Entry} {target : Option EntryId} : source.find? id = some e →
    Wraps e target → (∀ t, target = some t → Handled source p t) →
    (target = none → p.voidWritten = true) → Handled source p id

/-- A walk has come by the target, or written the symbol of `void` where there is none. -/
def Arrived (source : Source) (p : Progress) : Option EntryId → Prop
  | some target => Handled source p target
  | none => p.voidWritten = true

theorem handled_of_wraps {id : EntryId} {e : Entry} {target : Option EntryId}
    (hfind : source.find? id = some e) (hwraps : Wraps e target) (h : Arrived source p target) :
    Handled source p id := by
  refine .wraps hfind hwraps (fun t ht => ?_) fun hnone => ?_
  · subst ht
    exact h
  · subst hnone
    exact h

/-- All that an entry calls for is done. -/
structure Settled (source : Source) (before : List Step) (p : Progress) (e : Entry) : Prop where
  symbol : OwnsSymbol e → ∃ key, OwnKey source e key ∧ Wrote before p (.symbol key)
  references : ∀ target ∈ e.references, Handled source p target
  void : Wraps e none → p.voidWritten = true
  content : ∀ key, OwnKey source e key → ∀ b, Lends source e b → Filled before p key b

/-! ## What later states keep -/

/-- From one state to another, with what was written before each, nothing is undone. -/
structure Later (before : List Step) (p : Progress) (after : List Step) (q : Progress) : Prop where
  wrote : ∀ s, Wrote before p s → Wrote after q s
  bound : ∀ id, (p.symbol? id).isSome → (q.symbol? id).isSome
  void : p.voidWritten = true → q.voidWritten = true

theorem Extends.wrote (h : Extends p q) {s : Step} (hs : Wrote before p s) : Wrote before q s :=
  hs.imp id (h.steps s)

theorem Extends.later (h : Extends p q) : Later before p before q :=
  ⟨fun _ => h.wrote, h.bound, h.void⟩

variable {after : List Step}

theorem HasField.mono (later : Later before p after q) {owner : SymbolKey} {m : Member}
    {place : Nat} (h : HasField before p owner m place) : HasField after q owner m place := by
  obtain ⟨step, hwrote, hstep⟩ := h
  exact ⟨step, later.wrote _ hwrote, hstep⟩

theorem Filled.mono (later : Later before p after q) {owner : SymbolKey} {b : Entry}
    (h : Filled before p owner b) : Filled after q owner b where
  fields kind members declaration hb m place hm :=
    (h.fields kind members declaration hb m place hm).mono later
  constants constants hb c hc := later.wrote _ (h.constants constants hb c hc)

theorem Handled.mono (bound : ∀ id, (p.symbol? id).isSome → (q.symbol? id).isSome)
    (void : p.voidWritten = true → q.voidWritten = true) {id : EntryId}
    (h : Handled source p id) : Handled source q id := by
  induction h with
  | bound hbound => exact .bound (bound _ hbound)
  | elsewhere hfind hbound => exact .elsewhere hfind (bound _ hbound)
  | wraps hfind hwraps _ hvoid ih => exact .wraps hfind hwraps ih fun h => void (hvoid h)

theorem Extends.handled (h : Extends p q) {id : EntryId} (hid : Handled source p id) :
    Handled source q id := hid.mono h.bound h.void

theorem Settled.mono (later : Later before p after q) {e : Entry} (h : Settled source before p e) :
    Settled source after q e where
  symbol howns := by
    obtain ⟨key, hkey, hwrote⟩ := h.symbol howns
    exact ⟨key, hkey, later.wrote _ hwrote⟩
  references target htarget := (h.references target htarget).mono later.bound later.void
  void hwraps := later.void (h.void hwraps)
  content key hkey b hb := (h.content key hkey b hb).mono later

/-! ## The invariant -/

structure Faithful (source : Source) (before : List Step) (p : Progress) : Prop where
  resolves : ∀ id key, p.symbol? id = some key → Resolves source id key
  justified : ∀ s, Wrote before p s → Justified source s
  void : p.voidWritten = true → Wrote before p (.symbol voidKey)
  settled : ∀ id key, p.bindings.lookup id = some ⟨key, true⟩ →
    ∀ e, source.find? id = some e → Settled source before p e

theorem wrote_push {s t : Step} : Wrote before (p.push s) t ↔ Wrote before p t ∨ t = s := by
  unfold Wrote Progress.push
  rw [Array.mem_push, or_assoc]

/-- The steps of one listed entry stand before those of the next. -/
theorem wrote_restart {s : Step} :
    Wrote (before ++ p.steps.toList) { p with steps := #[] } s ↔ Wrote before p s := by
  simp [Wrote]

theorem wrote_of_no_steps (h : p.steps = #[]) {s : Step} : Wrote before p s ↔ s ∈ before := by
  simp [Wrote, h]

theorem later_restart (before : List Step) (p : Progress) :
    Later before p (before ++ p.steps.toList) { p with steps := #[] } :=
  ⟨fun _ => wrote_restart.mpr, fun _ h => h, fun h => h⟩

namespace Faithful

theorem push (h : Faithful source before p) {s : Step} (hs : Justified source s) :
    Faithful source before (p.push s) where
  resolves := h.resolves
  justified t ht := by
    rcases wrote_push.mp ht with ht | rfl
    · exact h.justified t ht
    · exact hs
  void hv := (Extends.push p s).wrote (h.void hv)
  settled id key hid e he := (h.settled id key hid e he).mono (Extends.push p s).later

theorem visit (h : Faithful source before p) (id : EntryId) (e : Entry) :
    Faithful source before (p.visit id e) := h.push trivial

theorem pushConstants (h : Faithful source before p) {key : SymbolKey} {constants : List Constant}
    (hall : ∀ c ∈ constants, Justified source (.enumerator key c)) :
    Faithful source before (p.pushConstants key constants) := by
  unfold Progress.pushConstants
  induction constants generalizing p with
  | nil => exact h
  | cons c rest ih =>
    exact ih (h.push (hall c List.mem_cons_self)) fun d hd => hall d (List.mem_cons_of_mem c hd)

theorem withVoid (h : Faithful source before p) (hvoid : source.MeetsVoid) :
    Faithful source before p.withVoid := by
  have later := Extends.withVoid p
  unfold Progress.withVoid at later ⊢
  split
  · exact h
  · rename_i hnot
    rw [if_neg hnot] at later
    have hpush := h.push (s := .symbol voidKey) (.inr ⟨rfl, hvoid⟩)
    exact {
      resolves := h.resolves
      justified := hpush.justified
      void := fun _ => wrote_push.mpr (.inr rfl)
      settled := fun id key hid e he => (h.settled id key hid e he).mono later.later }

/-- An entry may be bound to what it comes to; as complete, if it is settled. -/
theorem bind (h : Faithful source before p) {id : EntryId} {b : Binding}
    (hresolves : Resolves source id b.symbol)
    (hsettled : b.complete = true → ∀ e, source.find? id = some e → Settled source before p e) :
    Faithful source before (p.bind id b) where
  resolves other key hother := by
    rw [Progress.symbol?_bind] at hother
    split at hother
    · rename_i heq
      cases hother
      rwa [heq]
    · exact h.resolves other key hother
  justified := h.justified
  void := h.void
  settled other key hother e he := by
    rw [Progress.lookup_bind] at hother
    split at hother
    · rename_i heq
      cases hother
      exact (hsettled rfl e (heq ▸ he)).mono (Extends.bind p id _).later
    · exact (h.settled other key hother e he).mono (Extends.bind p id b).later

theorem enter (h : Faithful source before p) (id : EntryId) {e : Entry} {key : SymbolKey}
    (he : source.Reaches e) (hfind : source.find? e.id = some e) (hkey : OwnKey source e key) :
    Faithful source before (p.enter id e key) := by
  have hsymbol : Justified source (.symbol key) := .inl ⟨e, he, hkey⟩
  exact ((h.visit id e).push hsymbol).bind (.own hfind hkey) nofun

end Faithful

/-! ## Tasks -/

/-- What a task may count on. -/
def Task.Ready (source : Source) : Task → Prop
  | .entry id name? => name? = none ∧ source.Reachable id
  | .members owner rest => ∃ e b kind members declaration, source.Reaches e ∧
    OwnKey source e owner ∧ Lends source e b ∧ b.kind = .compound kind members declaration ∧
    rest ⊆ members.zipIdx
  | .content owner behind => ∃ e, source.Reaches e ∧ OwnKey source e owner ∧
    ∀ b, behind = some b → Lends source e b

/-- What a task brings about. -/
def Task.Done (source : Source) (before : List Step) (key : SymbolKey) (q : Progress) : Task → Prop
  | .entry id _ => Resolves source id key ∧ Handled source q id
  | .members owner rest => ∀ m place, (m, place) ∈ rest →
    HasField before q owner m place ∧ Handled source q m.type
  | .content owner behind => ∀ b, behind = some b → Filled before q owner b

/-! ## Settled entries -/

theorem settled_of_wraps {e : Entry} {target : Option EntryId} (hwraps : Wraps e target)
    (h : Arrived source p target) : Settled source before p e where
  symbol howns := absurd howns hwraps.not_ownsSymbol
  references t ht := by
    rw [hwraps.references, Option.mem_toList] at ht
    subst ht
    exact h
  void hnone := by
    have hlist : target.toList = none.toList := hwraps.references.symm.trans hnone.references
    have htarget : target = none := by simpa using hlist
    subst htarget
    exact h
  content _ hkey := absurd (ownsSymbol_of_ownKey hkey) hwraps.not_ownsSymbol

theorem settled_of_owner {e : Entry} {key : SymbolKey} (hkey : OwnKey source e key)
    (hwrote : Wrote before p (.symbol key))
    (references : ∀ target ∈ e.references, Handled source p target)
    (content : ∀ b, Lends source e b → Filled before p key b) : Settled source before p e where
  symbol _ := ⟨key, hkey, hwrote⟩
  references
  void hnone := absurd (ownsSymbol_of_ownKey hkey) hnone.not_ownsSymbol
  content _ hother b hb := ownKey_unique hkey hother ▸ content b hb

/-- An entry without members and constants has none to be written. -/
theorem filled_of_plain {owner : SymbolKey} {b : Entry}
    (hcompound : ∀ kind members declaration, b.kind ≠ .compound kind members declaration)
    (henumeration : ∀ constants, b.kind ≠ .enumeration constants) : Filled before p owner b where
  fields kind members declaration hb := absurd hb (hcompound kind members declaration)
  constants constants hb := absurd hb (henumeration constants)

theorem filled_of_compound {owner : SymbolKey} {b : Entry} {kind : CompoundKind}
    {members : List Member} {declaration : Bool} (hb : b.kind = .compound kind members declaration)
    (h : ∀ m place, (m, place) ∈ members.zipIdx → HasField before p owner m place) :
    Filled before p owner b where
  fields _ _ _ hother := by
    cases hb.symm.trans hother
    exact h
  constants _ hother := by cases hb.symm.trans hother

theorem wrote_pushConstants {key : SymbolKey} {constants : List Constant} {c : Constant}
    (h : c ∈ constants) : Wrote before (p.pushConstants key constants) (.enumerator key c) := by
  unfold Progress.pushConstants
  induction constants generalizing p with
  | nil => cases h
  | cons first rest ih =>
    rcases List.mem_cons.mp h with rfl | h
    · exact (Extends.pushConstants (p.push _) key rest).wrote (wrote_push.mpr (.inr rfl))
    · exact ih h

theorem filled_of_enumeration {key : SymbolKey} {b : Entry} {constants : List Constant}
    (hb : b.kind = .enumeration constants) :
    Filled before (p.pushConstants key constants) key b where
  fields _ _ _ hother := by cases hb.symm.trans hother
  constants _ hother := by
    cases hb.symm.trans hother
    exact fun c => wrote_pushConstants

theorem voidWritten_withVoid (p : Progress) : p.withVoid.voidWritten = true := by
  unfold Progress.withVoid
  split
  · assumption
  · rfl

/-- An id is handled where the goal of its shape is. -/
theorem handled_of_leads {crossed : Bool} {id : EntryId} {extents : List Nat} {pointers : Nat}
    {goal : Option EntryId} (h : Leads source crossed id extents pointers goal)
    (hgoal : Arrived source p goal) : Handled source p id := by
  induction h with
  | stop => exact hgoal
  | qualified hfind hkind _ ih => exact handled_of_wraps hfind (.qualified hkind) (ih hgoal)
  | qualifiedVoid hfind hkind => exact handled_of_wraps hfind (.qualified hkind) hgoal
  | array hfind hkind _ ih => exact handled_of_wraps hfind (.array hkind) (ih hgoal)
  | pointer hfind hkind _ ih => exact handled_of_wraps hfind (.pointer hkind) (ih hgoal)
  | pointerVoid hfind hkind => exact handled_of_wraps hfind (.pointer hkind) hgoal

/-! ## Walks -/

/-- Only a typedef takes members and constants from another entry. -/
theorem filled_of_own {e : Entry} {key : SymbolKey} (hkind : ∀ target, e.kind ≠ .typedef target)
    (h : Filled before p key e) : ∀ b, Lends source e b → Filled before p key b := by
  intro b hb
  cases hb with
  | own => exact h
  | typedef htypedef => exact absurd htypedef (hkind _)

/-- A walk ends well where it binds a settled entry, under the id that it asked for or the entry's
own. -/
theorem completes {id under : EntryId} {e : Entry} {key : SymbolKey} (hq : Faithful source before q)
    (hid : source.find? id = some e) (hunder : source.find? under = some e)
    (hwhich : under = id ∨ under = e.id)
    (hresolves : Resolves source id key) (hsettled : Settled source before q e) :
    Faithful source before (q.bind under ⟨key, true⟩) ∧ Resolves source id key ∧
      Handled source (q.bind under ⟨key, true⟩) id := by
  refine ⟨hq.bind (hresolves.congr hid hunder) fun _ e' he' => ?_, hresolves, ?_⟩
  · cases hunder.symm.trans he'
    exact hsettled
  · have hbound : ((q.bind under ⟨key, true⟩).symbol? under).isSome := by
      rw [Progress.symbol?_bind, if_pos rfl]
      rfl
    rcases hwhich with rfl | rfl
    · exact .bound hbound
    · exact .elsewhere hid hbound

section

variable {owner type : SymbolKey} {m : Member} {place : Nat} {rest : List (Member × Nat)}

theorem Task.Ready.reachable (h : (Task.members owner rest).Ready source)
    (hm : (m, place) ∈ rest) : source.Reachable m.type := by
  obtain ⟨e, b, kind, members, declaration, hreach, -, hlends, hb, hsub⟩ := h
  obtain ⟨id, hid, hfind⟩ := reaches_of_lends hlends hreach
  exact hid.step hfind
    ((mem_references_of_compound hb).mpr ⟨m, mem_of_mem_zipIdx (hsub hm), rfl⟩)

/-- The first of the members is done once its type is; the others come after it. -/
theorem Task.Ready.member {r : Progress} {extents : List Nat} {pointers : Nat}
    {goal : Option EntryId} (ready : (Task.members owner ((m, place) :: rest)).Ready source)
    (hleads : Leads source false m.type extents pointers goal) (htype : ComesTo source goal type)
    (hq : Faithful source before q) (hhandled : Handled source q m.type)
    (hrest : Walks source (.members owner rest)
      (q.push (.field (memberStep owner m place type extents pointers))) owner r)
    (later : (Task.members owner rest).Ready source →
      Faithful source before (q.push (.field (memberStep owner m place type extents pointers))) →
      Faithful source before r ∧ (Task.members owner rest).Done source before owner r) :
    Faithful source before r ∧
      (Task.members owner ((m, place) :: rest)).Done source before owner r := by
  obtain ⟨e, b, kind, members, declaration, hreach, hown, hlends, hb, hsub⟩ := ready
  let step := memberStep owner m place type extents pointers
  have hfield : Justified source (.field step) :=
    (.mk hreach hown hlends hb (hsub List.mem_cons_self) hleads htype : FieldOf source _ _)
  obtain ⟨hr, hdone⟩ := later ⟨e, b, kind, members, declaration, hreach, hown, hlends, hb,
    fun x hx => hsub (List.mem_cons_of_mem _ hx)⟩ (hq.push hfield)
  refine ⟨hr, fun m' place' hmem => ?_⟩
  rcases List.mem_cons.mp hmem with heq | hmem
  · cases heq
    have hwrote : Wrote before (q.push (.field step)) (.field step) := wrote_push.mpr (.inr rfl)
    refine ⟨⟨step, hrest.extends.wrote hwrote, rfl, rfl⟩, ?_⟩
    exact ((Extends.push q _).trans hrest.extends).handled hhandled
  · exact hdone m' place' hmem

end

/-- In a source whose entries have their names, a walk is faithful and does its task. -/
theorem Walks.faithful (coherent : source.Coherent) (named : source.Named) {task : Task}
    {key : SymbolKey} (h : Walks source task p key q) :
    task.Ready source → Faithful source before p →
      Faithful source before q ∧ task.Done source before key q := by
  -- The invariant goes through the walks that a rule makes on the way; what the rule itself adds
  -- to the state is a push or a binding.
  induction h with
  | bound hbound =>
    intro ready hp
    exact ⟨hp, hp.resolves _ _ hbound, .bound (by simp [hbound])⟩
  | elsewhere hfind hbound =>
    intro ready hp
    exact ⟨hp, (hp.resolves _ _ hbound).congr (coherent _ _ hfind) hfind,
      .elsewhere hfind (by simp [hbound])⟩
  | @base id name? e p key fresh hkind hkey =>
    rintro ⟨rfl, hid⟩ hp
    have hown : OwnKey source e key := by simpa [OwnKey, hkind] using hkey
    have hsymbol : Justified source (.symbol key) := .inl ⟨e, ⟨id, hid, fresh.found⟩, hown⟩
    refine completes ((hp.visit id e).push hsymbol) fresh.found fresh.found (.inl rfl)
      (.own fresh.found hown) ?_
    refine settled_of_owner hown (wrote_push.mpr (.inr rfl)) (by simp [Entry.references, hkind]) ?_
    exact filled_of_own (by simp [hkind]) (filled_of_plain (by simp [hkind]) (by simp [hkind]))
  | @compound id name? e p q key kind members declaration fresh hkind hname hsize hwalks ih =>
    rintro ⟨rfl, hid⟩ hp
    have hown : OwnKey source e key := by simpa [OwnKey, hkind] using And.intro hname hsize
    have hreach : source.Reaches e := ⟨id, hid, fresh.found⟩
    have hself := coherent _ _ fresh.found
    obtain ⟨hq, hdone⟩ := ih ⟨e, e, kind, members, declaration, hreach, hown, .own, hkind,
      List.Subset.refl _⟩ (hp.enter id hreach hself hown)
    have hwrote : Wrote before (p.enter id e key) (.symbol key) := wrote_push.mpr (.inr rfl)
    refine completes hq fresh.found hself (.inr rfl) (.own fresh.found hown) ?_
    refine settled_of_owner hown (hwalks.extends.wrote hwrote) (fun target htarget => ?_) ?_
    · obtain ⟨m, hm, rfl⟩ := (mem_references_of_compound hkind).mp htarget
      obtain ⟨place, hplace⟩ := exists_mem_zipIdx hm
      exact (hdone m place hplace).2
    · exact filled_of_own (by simp [hkind])
        (filled_of_compound hkind fun m place hm => (hdone m place hm).1)
  | @enumeration id name? e p key constants fresh hkind hkey =>
    rintro ⟨rfl, hid⟩ hp
    have hown : OwnKey source e key := by simpa [OwnKey, hkind] using hkey
    have hreach : source.Reaches e := ⟨id, hid, fresh.found⟩
    have hsymbol : Justified source (.symbol key) := .inl ⟨e, hreach, hown⟩
    have hq := ((hp.visit id e).push hsymbol).pushConstants fun c hc =>
      (.mk hreach hown .own hkind hc : ConstantOf source ⟨key, c.name⟩ c.value)
    refine completes hq fresh.found (coherent _ _ fresh.found) (.inr rfl)
      (.own fresh.found hown) ?_
    have hwrote : Wrote before ((p.visit id e).push (.symbol key)) (.symbol key) :=
      wrote_push.mpr (.inr rfl)
    refine settled_of_owner hown ((Extends.pushConstants _ _ _).wrote hwrote)
      (by simp [Entry.references, hkind]) ?_
    exact filled_of_own (by simp [hkind]) (filled_of_enumeration hkind)
  | @array id element name? e p q key extents fresh hkind hwalks ih =>
    rintro ⟨rfl, hid⟩ hp
    obtain ⟨hq, hresolves, hhandled⟩ :=
      ih ⟨rfl, hid.step fresh.found (mem_references_of_array hkind)⟩ (hp.visit id e)
    refine completes hq fresh.found fresh.found (.inl rfl) (.array fresh.found hkind hresolves) ?_
    exact settled_of_wraps (.array hkind) hhandled
  | @pointer id target name? e p q key fresh hkind hwalks ih =>
    rintro ⟨rfl, hid⟩ hp
    obtain ⟨hq, hresolves, hhandled⟩ :=
      ih ⟨rfl, hid.step fresh.found (mem_references_of_pointer hkind)⟩ (hp.visit id e)
    refine completes hq fresh.found fresh.found (.inl rfl) (.pointer fresh.found hkind hresolves) ?_
    exact settled_of_wraps (.pointer hkind) hhandled
  | @pointerVoid id name? e p fresh hkind =>
    rintro ⟨rfl, hid⟩ hp
    have hq := (hp.visit id e).withVoid ⟨e, ⟨id, hid, fresh.found⟩, .inl hkind⟩
    refine completes hq fresh.found fresh.found (.inl rfl) (.pointerVoid fresh.found hkind) ?_
    exact settled_of_wraps (.pointer hkind) (voidWritten_withVoid _)
  | @qualified id target name? e p q key fresh hkind hwalks ih =>
    rintro ⟨rfl, hid⟩ hp
    obtain ⟨hq, hresolves, hhandled⟩ :=
      ih ⟨rfl, hid.step fresh.found (mem_references_of_qualified hkind)⟩ (hp.visit id e)
    refine ⟨hq, .qualified fresh.found hkind hresolves, ?_⟩
    exact handled_of_wraps fresh.found (.qualified hkind) hhandled
  | @qualifiedVoid id name? e p fresh hkind =>
    rintro ⟨rfl, hid⟩ hp
    have hq := (hp.visit id e).withVoid ⟨e, ⟨id, hid, fresh.found⟩, .inr hkind⟩
    refine ⟨hq, .qualifiedVoid fresh.found hkind, ?_⟩
    exact handled_of_wraps fresh.found (.qualified hkind) (voidWritten_withVoid _)
  | @naming id target name? e bare p q key fresh hkind hstrips hunnamed =>
    -- What is behind the typedef is reachable, so it has a name and waits for none.
    rintro ⟨rfl, hid⟩ hp
    have hbare := reaches_of_strips hstrips
      (hid.step fresh.found (mem_references_of_typedef hkind)) rfl
    simp [unnamed, named bare hbare] at hunnamed
  | @typedef id target name? e behind p m q key type fresh hkind hstrips hnaming hname hsize htarget
      hwalks ihtarget ih =>
    rintro ⟨rfl, hid⟩ hp
    have hown : OwnKey source e key := by simpa [OwnKey, hkind] using And.intro hname hsize
    have hreach : source.Reaches e := ⟨id, hid, fresh.found⟩
    have hself := coherent _ _ fresh.found
    obtain ⟨hm, -, hhandled⟩ := ihtarget
      ⟨rfl, hid.step fresh.found (mem_references_of_typedef hkind)⟩ (hp.enter id hreach hself hown)
    obtain ⟨hq, hfilled⟩ := ih ⟨e, hreach, hown, fun b hb => .typedef hkind (hb ▸ hstrips)⟩ hm
    have hwrote : Wrote before (p.enter id e key) (.symbol key) := wrote_push.mpr (.inr rfl)
    refine completes hq fresh.found hself (.inr rfl) (.own fresh.found hown) ?_
    refine settled_of_owner hown ((htarget.extends.trans hwalks.extends).wrote hwrote)
      (fun t ht => ?_) (fun b hb => ?_)
    · simp only [Entry.references, hkind, Option.mem_toList, Option.some.injEq] at ht
      exact ht ▸ hwalks.extends.handled hhandled
    · cases hb with
      | own => exact filled_of_plain (by simp [hkind]) (by simp [hkind])
      | typedef hother hstrips' =>
        cases hkind.symm.trans hother
        exact hfilled b (strips_unique hstrips hstrips')
  | @typedefVoid id name? e p key fresh hkind hname hsize =>
    rintro ⟨rfl, hid⟩ hp
    have hown : OwnKey source e key := by simpa [OwnKey, hkind] using And.intro hname hsize
    have hself := coherent _ _ fresh.found
    have hq := hp.enter id ⟨id, hid, fresh.found⟩ hself hown
    refine completes hq fresh.found hself (.inr rfl) (.own fresh.found hown) ?_
    have hwrote : Wrote before (p.enter id e key) (.symbol key) := wrote_push.mpr (.inr rfl)
    refine settled_of_owner hown hwrote (by simp [Entry.references, hkind]) fun b hb => ?_
    cases hb with
    | own => exact filled_of_plain (by simp [hkind]) (by simp [hkind])
    | typedef hother => cases hkind.symm.trans hother
  | done => exact fun _ hp => ⟨hp, fun _ _ h => by cases h⟩
  | @member owner type m place rest extents pointers goal p q r hleads hgoal hrest ihgoal ihrest =>
    intro ready hp
    obtain ⟨htype, -⟩ := hleads.reachable (ready.reachable List.mem_cons_self)
    obtain ⟨hq, hresolves, hhandled⟩ := ihgoal ⟨rfl, htype goal rfl⟩ hp
    exact ready.member hleads hresolves hq (handled_of_leads hleads hhandled) hrest ihrest
  | @memberVoid owner m place rest extents pointers p r hleads hrest ihrest =>
    intro ready hp
    obtain ⟨-, hvoid⟩ := hleads.reachable (ready.reachable List.mem_cons_self)
    exact ready.member hleads rfl (hp.withVoid (hvoid rfl))
      (handled_of_leads hleads (voidWritten_withVoid p)) hrest ihrest
  | @lentMembers owner b kind members declaration p q hb hwalks ih =>
    rintro ⟨e, hreach, hown, hlends⟩ hp
    obtain ⟨hq, hdone⟩ := ih ⟨e, b, kind, members, declaration, hreach, hown, hlends b rfl, hb,
      List.Subset.refl _⟩ hp
    refine ⟨hq, fun b' hb' => ?_⟩
    cases hb'
    exact filled_of_compound hb fun m place hm => (hdone m place hm).1
  | @lentConstants owner b constants p hb =>
    rintro ⟨e, hreach, hown, hlends⟩ hp
    refine ⟨hp.pushConstants fun c hc =>
      (.mk hreach hown (hlends b rfl) hb hc : ConstantOf source ⟨owner, c.name⟩ c.value), ?_⟩
    rintro b' hb'
    cases hb'
    exact filled_of_enumeration hb
  | nothing hcompound henumeration =>
    exact fun _ hp => ⟨hp, fun b hb => filled_of_plain (hcompound b hb) (henumeration b hb)⟩

end LayoutGraph.Survey
