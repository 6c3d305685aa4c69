-- What a survey writes it writes in turn, wherever it stops. A field comes of
-- a member of a compound, behind the fields of the members in front of that
-- one, and a constant likewise. This holds for entries that wait for a name
-- too, which have the symbol of the typedef that names them.
import LayoutGraph.Proofs.Survey.Way
import LayoutGraph.Proofs.Survey.Yield

namespace LayoutGraph.Survey

open Chain

variable {source : Source} {p q : Progress}

/-! ## Steps in turn -/

/-- A reachable entry has the symbol, and the members and constants of `b`. -/
def Owns (source : Source) (owner : SymbolKey) (b : Entry) : Prop :=
  ∃ e, source.Reaches e ∧ Bears source e owner ∧ Lends source e b

/-- A field was written for the member. -/
def HasRow (steps : List Step) (owner : SymbolKey) (member : Member × Nat) : Prop :=
  ∃ s : FieldStep, .field s ∈ steps ∧ s.owner = owner ∧ s.name = memberName member.1 member.2

/-- The source calls for the step, once the steps before it are written. -/
inductive Called (source : Source) (before : List Step) : Step → Prop
  | visit (id : EntryId) (name : String) : Called source before (.visit id name)
  | symbol (key : SymbolKey) : Called source before (.symbol key)
  | field {b : Entry} {kind : CompoundKind} {members : List Member} {declaration : Bool}
    {m : Member} {place : Nat} {earlier later : List (Member × Nat)} {owner type : SymbolKey}
    {extents : List Nat} {pointers : Nat} {goal : Option EntryId} :
    Owns source owner b → b.kind = .compound kind members declaration →
    members.zipIdx = earlier ++ (m, place) :: later →
    Leads source false m.type extents pointers goal → LeadsTo source goal type →
    (∀ member ∈ earlier, HasRow before owner member) →
    Called source before (.field (memberStep owner m place type extents pointers))
  | enumerator {b : Entry} {constants earlier later : List Constant} {c : Constant}
    {owner : SymbolKey} : Owns source owner b → b.kind = .enumeration constants →
    constants = earlier ++ c :: later → (∀ d ∈ earlier, .enumerator owner d ∈ before) →
    Called source before (.enumerator owner c)

/-- Each step is called for when it comes. -/
def InTurn (source : Source) (steps : List Step) : Prop :=
  ∀ before step after, steps = before ++ step :: after → Called source before step

theorem inTurn_nil : InTurn source [] := fun before _ _ h => by cases before <;> cases h

theorem HasRow.mono {steps more : List Step} {owner : SymbolKey} {member : Member × Nat}
    (h : HasRow steps owner member) (hsub : steps ⊆ more) : HasRow more owner member := by
  obtain ⟨s, hs, hrow⟩ := h
  exact ⟨s, hsub hs, hrow⟩

theorem Called.mono {before more : List Step} {step : Step} (h : Called source before step)
    (hsub : before ⊆ more) : Called source more step := by
  cases h with
  | visit => exact .visit _ _
  | symbol => exact .symbol _
  | field howns hb hmembers hleads htype hearlier =>
    exact .field howns hb hmembers hleads htype fun member hm => (hearlier member hm).mono hsub
  | enumerator howns hb hconstants hearlier =>
    exact .enumerator howns hb hconstants fun d hd => hsub (hearlier d hd)

theorem InTurn.snoc {steps : List Step} (h : InTurn source steps) {step : Step}
    (hstep : Called source steps step) : InTurn source (steps ++ [step]) := by
  intro before other after heq
  rcases after.eq_nil_or_concat with rfl | ⟨rest, last, rfl⟩
  · obtain ⟨rfl, hlast⟩ := List.append_inj' heq rfl
    cases hlast
    exact hstep
  · rw [List.concat_eq_append, ← List.cons_append, ← List.append_assoc] at heq
    obtain ⟨hinit, -⟩ := List.append_inj' heq rfl
    exact h before other rest hinit

/-- Steps that are in turn on their own are so behind others. -/
theorem InTurn.append {steps more : List Step} (h : InTurn source steps)
    (hmore : InTurn source more) : InTurn source (steps ++ more) := by
  intro before step after heq
  rcases List.append_eq_append_iff.mp heq with ⟨front, rfl, hback⟩ | ⟨back, hfront, hback⟩
  · exact (hmore front step after hback).mono (List.subset_append_right _ _)
  · cases back with
    | nil =>
      rw [List.append_nil] at hfront
      subst hfront
      exact (hmore [] step after (by simpa using hback.symm)).mono (List.nil_subset _)
    | cons first back =>
      cases hback
      exact h before step back hfront

/-! ## The invariant -/

/-- What is bound leads to its symbol, and the steps so far are in turn. -/
structure Informed (source : Source) (p : Progress) : Prop where
  bound : ∀ id key, p.symbol? id = some key → LeadsTo source (some id) key
  steps : InTurn source p.steps.toList

namespace Informed

theorem push (h : Informed source p) {s : Step} (hs : Called source p.steps.toList s) :
    Informed source (p.push s) where
  bound := h.bound
  steps := by
    rw [Progress.push, Array.toList_push]
    exact h.steps.snoc hs

theorem visit (h : Informed source p) (id : EntryId) (e : Entry) :
    Informed source (p.visit id e) := h.push (.visit _ _)

theorem bind (h : Informed source p) {id : EntryId} {b : Binding}
    (hid : LeadsTo source (some id) b.symbol) : Informed source (p.bind id b) where
  bound other key hother := by
    rw [Progress.symbol?_bind] at hother
    split at hother
    · rename_i heq
      cases hother
      rwa [heq]
    · exact h.bound other key hother
  steps := h.steps

theorem enter (h : Informed source p) (id : EntryId) {e : Entry} {key : SymbolKey}
    (hid : LeadsTo source (some e.id) key) : Informed source (p.enter id e key) :=
  ((h.visit id e).push (.symbol key)).bind hid

theorem withVoid (h : Informed source p) : Informed source p.withVoid := by
  unfold Progress.withVoid
  split
  · exact h
  · have hpush := h.push (.symbol voidKey)
    exact ⟨hpush.bound, hpush.steps⟩

/-- The constants of an enumeration come one after another. -/
theorem pushConstants (h : Informed source p) {b : Entry} {constants : List Constant}
    {owner : SymbolKey} (howns : Owns source owner b) (hb : b.kind = .enumeration constants) :
    Informed source (p.pushConstants owner constants) := by
  unfold Progress.pushConstants
  suffices ∀ earlier rest (p : Progress), constants = earlier ++ rest → Informed source p →
      (∀ d ∈ earlier, .enumerator owner d ∈ p.steps.toList) →
      Informed source (rest.foldl (fun p c => p.push (.enumerator owner c)) p) from
    this [] constants p rfl h nofun
  intro earlier rest p hsplit hp hearlier
  induction rest generalizing p earlier with
  | nil => exact hp
  | cons c rest ih =>
    refine ih (earlier ++ [c]) _ (by simp [hsplit]) (hp.push (.enumerator howns hb hsplit hearlier))
      fun d hd => ?_
    rcases List.mem_append.mp hd with hd | hd
    · have hd := Array.mem_toList_iff.mp (hearlier d hd)
      exact Array.mem_toList_iff.mpr (Array.mem_push_of_mem _ hd)
    · rw [List.mem_singleton.mp hd]
      simp [Progress.push]

end Informed

/-! ## Walks -/

/-- A name is given to an entry that waits for one, by a typedef that found it unbound. -/
def Given (source : Source) (p : Progress) (id : EntryId) (name? : Option String) : Prop :=
  ∀ name, name? = some name → ∃ e t, source.find? id = some e ∧ e.id = id ∧ p.symbol? id = none ∧
    source.Reaches t ∧ Names source t e ∧ name = t.shownName

theorem given_none (source : Source) (p : Progress) (id : EntryId) : Given source p id none := nofun

/-- Only entries that wait for a name are given one. -/
theorem Given.eq_none {id : EntryId} {name? : Option String} {e : Entry}
    (h : Given source p id name?) (hfind : source.find? id = some e)
    (hnot : e.awaitsName = false) : name? = none := by
  cases name? with
  | none => rfl
  | some name =>
    obtain ⟨bare, t, hbare, -, -, -, hnames, -⟩ := h name rfl
    cases hfind.symm.trans hbare
    obtain ⟨-, -, hawaits⟩ := hnames
    rw [hnot] at hawaits
    cases hawaits

/-- The symbol under the given name, or else under the entry's own. -/
theorem Given.bears {id : EntryId} {name? : Option String} {e : Entry} {key : SymbolKey}
    (h : Given source p id name?) (hfind : source.find? id = some e)
    (hkey : OwnKey source (e.under (name?.getD e.shownName)) key) : Bears source e key := by
  cases name? with
  | none => exact .own hkey
  | some name =>
    obtain ⟨bare, t, hbare, -, -, ht, hnames, rfl⟩ := h name rfl
    cases hfind.symm.trans hbare
    exact .named ht hnames hkey

/-- The symbol goes by the name that was given. -/
def GoesBy (source : Source) (id : EntryId) (name? : Option String) (key : SymbolKey) : Prop :=
  ∀ name e, name? = some name → source.find? id = some e → OwnKey source (e.under name) key

theorem goesBy_none (source : Source) (id : EntryId) (key : SymbolKey) :
    GoesBy source id none key := fun _ _ h => by cases h

theorem goesBy_of_own {id : EntryId} {name? : Option String} {e : Entry} {key : SymbolKey}
    (hfind : source.find? id = some e)
    (hkey : OwnKey source (e.under (name?.getD e.shownName)) key) : GoesBy source id name? key := by
  rintro name e' rfl hfind'
  cases hfind.symm.trans hfind'
  exact hkey

/-- How a walk ends well: nothing is undone, and the type leads to the symbol. -/
structure Arrives (source : Source) (p : Progress) (id : EntryId) (name? : Option String)
    (key : SymbolKey) (q : Progress) : Prop where
  kept : Extends p q
  informed : Informed source q
  leads : LeadsTo source (some id) key
  named : GoesBy source id name? key

theorem Owns.reachable {owner : SymbolKey} {b : Entry} {kind : CompoundKind}
    {members : List Member} {declaration : Bool} (h : Owns source owner b)
    (hb : b.kind = .compound kind members declaration) {m : Member} (hm : m ∈ members) :
    source.Reachable m.type := by
  obtain ⟨e, he, -, hlends⟩ := h
  obtain ⟨id, hid, hfind⟩ := reaches_of_lends hlends he
  exact hid.step hfind ((mem_references_of_compound hb).mpr ⟨m, hm, rfl⟩)

theorem HasRow.push (p : Progress) (owner : SymbolKey) (m : Member) (place : Nat)
    (type : SymbolKey) (extents : List Nat) (pointers : Nat) :
    HasRow (p.push (.field (memberStep owner m place type extents pointers))).steps.toList owner
      (m, place) :=
  ⟨memberStep owner m place type extents pointers, by simp [Progress.push], rfl, rfl⟩

theorem Extends.hasRow (h : Extends p q) {owner : SymbolKey} {member : Member × Nat}
    (hrow : HasRow p.steps.toList owner member) : HasRow q.steps.toList owner member :=
  hrow.mono fun s hs => Array.mem_toList_iff.mpr (h.steps s (Array.mem_toList_iff.mp hs))

/-- Members are written one after another, and each type is walked before its field. -/
theorem emitMembers_inTurn {room : Nat}
    {resolve : (left : Nat) → left ≤ room → EntryId → Walk SymbolKey}
    (hresolve : ∀ left hle id p, source.Reachable id → Informed source p →
      Ends (Arrives source p id none) (fun _ => Informed source) (resolve left hle id p))
    {owner : SymbolKey} {b : Entry} {kind : CompoundKind} {members : List Member}
    {declaration : Bool} (howns : Owns source owner b)
    (hb : b.kind = .compound kind members declaration) (hp : Informed source p) :
    Ends (fun _ q => Extends p q ∧ Informed source q) (fun _ => Informed source)
      (emitMembers source room resolve owner members p) := by
  unfold emitMembers
  generalize hrest : members.zipIdx = rest
  obtain ⟨earlier, hsplit, hearlier⟩ : ∃ earlier, members.zipIdx = earlier ++ rest ∧
      ∀ member ∈ earlier, HasRow p.steps.toList owner member := ⟨[], hrest, nofun⟩
  clear hrest
  induction rest generalizing earlier p with
  | nil => exact ⟨.refl p, hp⟩
  | cons first rest ih =>
    obtain ⟨m, place⟩ := first
    have hmember : (m, place) ∈ members.zipIdx := by
      rw [hsplit]
      simp
    have hm := howns.reachable hb (mem_of_mem_zipIdx hmember)
    -- Once the type is walked the field is written.
    have written : ∀ {q type extents pointers goal}, Extends p q → Informed source q →
        Leads source false m.type extents pointers goal → LeadsTo source goal type →
        let r := q.push (.field (memberStep owner m place type extents pointers))
        Extends p r ∧ Informed source r ∧ HasRow r.steps.toList owner (m, place) := by
      intro q type extents pointers goal hkept hq hleads htype r
      have hrows := fun member hmember => hkept.hasRow (hearlier member hmember)
      exact ⟨hkept.trans (.push q _), hq.push (.field howns hb hsplit hleads htype hrows),
        .push _ _ _ _ _ _ _⟩
    refine ends_bind (Ends.mono (Q := fun _ r =>
      Extends p r ∧ Informed source r ∧ HasRow r.steps.toList owner (m, place)) ?_
      (fun _ r h => ?_) fun _ _ h => h)
    · dsimp only
      refine ends_apart fun work hwork => ?_
      split at hwork
      · subst hwork
        exact hp
      rename_i shape hshape
      have hleads := leads_of_shapeOf hshape
      split at hwork
      · rename_i goal hgoal
        subst hwork
        rw [hgoal] at hleads
        obtain ⟨hreachable, -⟩ := hleads.reachable hm
        exact ends_bind ((hresolve _ _ _ p (hreachable _ rfl) hp).mono
          (fun _ _ h => written h.kept h.informed hleads h.leads) fun _ _ h => h)
      · rename_i hgoal
        subst hwork
        rw [hgoal] at hleads
        exact ends_bind_of_ok (voidSymbol_eq p)
          (written (.withVoid p) hp.withVoid hleads leadsTo_void)
    · obtain ⟨hkept, hr, hrow⟩ := h
      refine (ih hr (earlier ++ [(m, place)]) (by simp [hsplit]) fun member hmember => ?_).mono
        (fun _ _ h => ⟨hkept.trans h.1, h.2⟩) fun _ _ h => h
      rcases List.mem_append.mp hmember with hmember | hmember
      · exact hkept.hasRow (hearlier member hmember)
      · exact List.mem_singleton.mp hmember ▸ hrow

/-! ## Moves on the way -/

theorem ends_pureMove {α β : Type} {x : Except Failure α} {f : α → Walk β}
    {Q : β → Progress → Prop} {E : Failure → Progress → Prop} (bad : ∀ e, E e p)
    (good : ∀ a, x = .ok a → Ends Q E (f a p)) : Ends Q E ((pureMove x >>= f) p) := by
  cases x with
  | error e => exact bad e
  | ok a => exact good a rfl

theorem emit_eq (s : Step) (p : Progress) : emit s p = .ok ⟨⟩ (p.push s) := rfl

theorem intern_eq (name : String) (byteSize : Nat) (p : Progress) :
    intern name byteSize p = .ok ⟨name, byteSize⟩ (p.push (.symbol ⟨name, byteSize⟩)) := rfl

theorem reserve_eq (id : EntryId) (key : SymbolKey) (p : Progress) :
    reserve id key p = .ok ⟨⟩ (p.bind id ⟨key, false⟩) := rfl

theorem complete_eq (id : EntryId) (key : SymbolKey) (p : Progress) :
    complete id key p = .ok ⟨⟩ (p.bind id ⟨key, true⟩) := rfl

section

variable {id : EntryId} {name? : Option String} {e : Entry} {key : SymbolKey}

/-- A walk ends well where it binds what the entry leads to, under the id that it asked for or the
entry's own. -/
theorem Arrives.bind {under : EntryId} (hkept : Extends p q) (hq : Informed source q)
    (hid : source.find? id = some e) (hunder : source.find? under = some e)
    (hleads : LeadsTo source (some id) key) (named : GoesBy source id name? key) :
    Arrives source p id name? key (q.bind under ⟨key, true⟩) where
  kept := hkept.trans (.bind _ _ _)
  informed := hq.bind (hleads.congr hid hunder)
  leads := hleads
  named := named

/-- An entry that stands for its target leads to what that leads to. -/
theorem Arrives.wraps {target : EntryId} (h : Arrives source (p.visit id e) target none key q)
    (hfind : source.find? id = some e) (hwraps : Wraps e (some target)) :
    Arrives source p id none key q where
  kept := (Extends.push p _).trans h.kept
  informed := h.informed
  leads := leadsTo_wraps hfind hwraps h.leads
  named := goesBy_none _ _ _

theorem Arrives.bindSelf (h : Arrives source p id none key q) (hfind : source.find? id = some e) :
    Arrives source p id none key (q.bind id ⟨key, true⟩) :=
  .bind h.kept h.informed hfind hfind h.leads h.named

/-- A walk of what is bound ends at once. -/
theorem Arrives.of_bound (hp : Informed source p) (given : Given source p id name?)
    (hbound : p.symbol? id = some key) : Arrives source p id name? key p where
  kept := .refl p
  informed := hp
  leads := hp.bound _ _ hbound
  named name _ hname _ := by
    obtain ⟨-, -, -, -, habsent, -⟩ := given name hname
    cases habsent.symm.trans hbound

theorem Arrives.of_boundElsewhere (hp : Informed source p) (given : Given source p id name?)
    (hfind : source.find? id = some e) (hself : source.find? e.id = some e)
    (helsewhere : boundElsewhere? p id e = some key) : Arrives source p id name? key p where
  kept := .refl p
  informed := hp
  leads := (hp.bound _ _ (symbol?_of_boundElsewhere? helsewhere)).congr hself hfind
  named name _ hname _ := by
    obtain ⟨e', -, hfind', hsame, habsent, -⟩ := given name hname
    cases hfind.symm.trans hfind'
    have hbound := symbol?_of_boundElsewhere? helsewhere
    rw [hsame, habsent] at hbound
    cases hbound

end

/-! ## Kinds of entries -/

/-- What a walk knows of the entry that answers for its id. -/
structure Visited (source : Source) (p : Progress) (id : EntryId) (e : Entry)
    (name? : Option String) : Prop where
  informed : Informed source p
  given : Given source p id name?
  found : source.find? id = some e
  self : source.find? e.id = some e
  reached : source.Reaches e

/-- The work writes the members of `b` in turn and undoes nothing, for every owner that has them. -/
def WritesMembers (source : Source) (b : Entry) (work : SymbolKey → Walk Unit) : Prop :=
  ∀ owner p, Owns source owner b → Informed source p →
    Ends (fun _ q => Extends p q ∧ Informed source q) (fun _ => Informed source) (work owner p)

/-- Whatever a typedef takes over of the entry behind it, the typedef is completed behind that. -/
theorem content_inTurn {id under : EntryId} {name? : Option String} {key : SymbolKey}
    {behind : Option Entry} {work : List Member → SymbolKey → Walk Unit}
    (hq : Informed source q) (owns : ∀ b, behind = some b → Owns source key b)
    (hwork : ∀ b kind members declaration, b.kind = .compound kind members declaration →
      WritesMembers source b (work members))
    (completed : ∀ r, Extends q r → Informed source r →
      Arrives source p id name? key (r.bind under ⟨key, true⟩)) :
    Ends (Arrives source p id name?) (fun _ => Informed source)
      ((do
        match behind.map Entry.kind with
        | some (.compound _ members _) => work members key
        | some (.enumeration constants) => emitConstants key constants
        | _ => pure ()
        complete under key
        return key : Walk SymbolKey) q) := by
  cases behind with
  | none => exact completed q (.refl q) hq
  | some b =>
    rw [Option.map_some]
    cases hkind : b.kind with
    | compound kind members declaration =>
      refine ends_bind ((hwork b kind members declaration hkind key q (owns b rfl) hq).mono
        (fun _ r hr => ?_) fun _ _ failed => failed)
      exact completed r hr.1 hr.2
    | enumeration constants =>
      refine ends_bind_of_ok (emitConstants_eq _ _ _) ?_
      exact completed _ (.pushConstants _ _ _) (hq.pushConstants (owns b rfl) hkind)
    | base | array _ _ | pointer _ | qualified _ | typedef _ => exact completed q (.refl q) hq

namespace Visited

variable {id : EntryId} {name? : Option String} {e : Entry} {key : SymbolKey}

theorem visit (h : Visited source p id e name?) : Informed source (p.visit id e) :=
  h.informed.visit id e

/-- An entry that waits for no name was given none. -/
theorem name_eq_none (h : Visited source p id e name?) (hnot : e.awaitsName = false) : name? = none :=
  h.given.eq_none h.found hnot

theorem owns (h : Visited source p id e name?)
    (hkey : OwnKey source (e.under (name?.getD e.shownName)) key) {b : Entry}
    (lends : Lends source e b) : Owns source key b :=
  ⟨e, h.reached, h.given.bears h.found hkey, lends⟩

/-- An entry that is reserved for its symbol, under the name that it was given, leads to that. -/
theorem enter (h : Visited source p id e name?) (howns : OwnsSymbol e)
    (hkey : OwnKey source (e.under (name?.getD e.shownName)) key) :
    Informed source (p.enter id e key) :=
  h.informed.enter id
    ((leadsTo_own h.found howns (h.given.bears h.found hkey)).congr h.found h.self)

theorem completed (h : Visited source p id e name?) (howns : OwnsSymbol e)
    (hkey : OwnKey source (e.under (name?.getD e.shownName)) key) (hkept : Extends p q)
    (hq : Informed source q) : Arrives source p id name? key (q.bind e.id ⟨key, true⟩) :=
  .bind hkept hq h.found h.self (leadsTo_own h.found howns (h.given.bears h.found hkey))
    (goesBy_of_own h.found hkey)

theorem base (h : Visited source p id e name?) (hkind : e.kind = .base) :
    Ends (Arrives source p id name?) (fun _ => Informed source)
      ((do
        let key ← intern (if e.anonymous then voidName else e.shownName) (e.byteSize.getD 0)
        complete id key
        return key : Walk SymbolKey) (p.visit id e)) := by
  cases h.name_eq_none (by simp [Entry.awaitsName, hkind])
  have hown : OwnKey source e
      ⟨if e.anonymous then voidName else e.shownName, e.byteSize.getD 0⟩ := by
    simp [OwnKey, hkind]
  refine ends_bind_of_ok (intern_eq _ _ _) (ends_bind_of_ok (complete_eq _ _ _) ?_)
  exact .bind ((Extends.push _ _).trans (.push _ _)) (h.visit.push (.symbol _)) h.found h.found
    (leadsTo_own h.found (ownsSymbol_of_ownKey hown) (.own hown)) (goesBy_none _ _ _)

theorem compound {kind : CompoundKind} {members : List Member} {declaration : Bool} {room : Nat}
    {work : SymbolKey → Walk Unit} (h : Visited source p id e name?)
    (hkind : e.kind = .compound kind members declaration) (hroom : room ≤ fullRoom)
    (hwork : WritesMembers source e work) :
    Ends (Arrives source p id name?) (fun _ => Informed source)
      ((do
        let byteSize ← pureMove (sizeOf source room e.id)
        let key ← intern (name?.getD e.shownName) byteSize
        reserve e.id key
        work key
        complete e.id key
        return key : Walk SymbolKey) (p.visit id e)) := by
  refine ends_pureMove (fun _ => h.visit) fun byteSize hsize => ?_
  have howns : OwnsSymbol e := by simp [OwnsSymbol, hkind]
  have hkey : OwnKey source (e.under (name?.getD e.shownName))
      ⟨name?.getD e.shownName, byteSize⟩ := by
    simpa [OwnKey, hkind, Entry.under, Entry.shownName] using sizeOf_mono hroom hsize
  refine ends_bind_of_ok (intern_eq _ _ _) (ends_bind_of_ok (reserve_eq _ _ _) ?_)
  refine ends_bind ((hwork _ _ (h.owns hkey .own) (h.enter howns hkey)).mono (fun _ q hq => ?_)
    fun _ _ failed => failed)
  refine ends_bind_of_ok (complete_eq _ _ _) ?_
  exact h.completed howns hkey ((Extends.enter _ _ _ _).trans hq.1) hq.2

theorem enumeration {constants : List Constant} (h : Visited source p id e name?)
    (hkind : e.kind = .enumeration constants) :
    Ends (Arrives source p id name?) (fun _ => Informed source)
      ((do
        let key ← intern (name?.getD e.shownName) (e.byteSize.getD 0)
        emitConstants key constants
        complete e.id key
        return key : Walk SymbolKey) (p.visit id e)) := by
  have hkey : OwnKey source (e.under (name?.getD e.shownName))
      ⟨name?.getD e.shownName, e.byteSize.getD 0⟩ := by
    simp [OwnKey, hkind, Entry.under, Entry.shownName]
  refine ends_bind_of_ok (intern_eq _ _ _) (ends_bind_of_ok (emitConstants_eq _ _ _)
    (ends_bind_of_ok (complete_eq _ _ _) ?_))
  exact h.completed (by simp [OwnsSymbol, hkind]) hkey
    (((Extends.push _ _).trans (.push _ _)).trans (.pushConstants _ _ _))
    ((h.visit.push (.symbol _)).pushConstants (h.owns hkey .own) hkind)

/-- An array or a pointer is bound to the symbol that its target comes to. -/
theorem wrapping {target : EntryId} {walk : Walk SymbolKey} (h : Visited source p id e name?)
    (hwraps : Wraps e (some target))
    (inside : Ends (Arrives source (p.visit id e) target none) (fun _ => Informed source)
      (walk (p.visit id e))) :
    Ends (Arrives source p id name?) (fun _ => Informed source)
      ((do
        let key ← walk
        complete id key
        return key : Walk SymbolKey) (p.visit id e)) := by
  cases h.name_eq_none (by cases hwraps <;> simp [Entry.awaitsName, *])
  refine ends_bind (inside.mono (fun key q hq => ?_) fun _ _ failed => failed)
  exact ends_bind_of_ok (complete_eq _ _ _) ((hq.wraps h.found hwraps).bindSelf h.found)

theorem pointerVoid (h : Visited source p id e name?) (hkind : e.kind = .pointer none) :
    Ends (Arrives source p id name?) (fun _ => Informed source)
      ((do
        let key ← voidSymbol
        complete id key
        return key : Walk SymbolKey) (p.visit id e)) := by
  cases h.name_eq_none (by simp [Entry.awaitsName, hkind])
  refine ends_bind_of_ok (voidSymbol_eq _) (ends_bind_of_ok (complete_eq _ _ _) ?_)
  exact .bind ((Extends.push _ _).trans (.withVoid _)) h.visit.withVoid h.found h.found
    (leadsTo_wraps h.found (.pointer hkind) leadsTo_void) (goesBy_none _ _ _)

theorem qualifiedVoid (h : Visited source p id e name?) (hkind : e.kind = .qualified none) :
    Ends (Arrives source p id name?) (fun _ => Informed source) (voidSymbol (p.visit id e)) := by
  cases h.name_eq_none (by simp [Entry.awaitsName, hkind])
  rw [voidSymbol_eq]
  exact ⟨(Extends.push _ _).trans (.withVoid _), h.visit.withVoid,
    leadsTo_wraps h.found (.qualified hkind) leadsTo_void, goesBy_none _ _ _⟩

/-- What a typedef finds unnamed behind other names is given its name. -/
theorem behind {target : EntryId} {bare : Entry} (h : Visited source p id e name?)
    (coherent : source.Coherent) (hkind : e.kind = .typedef (some target))
    (hstrips : Strips source target (some bare)) (hunnamed : unnamed p bare = true) :
    Names source e bare ∧ Visited source (p.visit id e) bare.id bare (some e.shownName) := by
  have hbare := reaches_of_strips hstrips (h.reached.reference (mem_references_of_typedef hkind)) rfl
  have hself : source.find? bare.id = some bare := by
    obtain ⟨found, -, hfound⟩ := hbare
    exact coherent _ _ hfound
  simp only [unnamed, Bool.and_eq_true, Option.isNone_iff_eq_none] at hunnamed
  have hnames : Names source e bare := .mk hkind hstrips hunnamed.1
  refine ⟨hnames, h.visit, fun name hname => ?_, hself, hself, hbare⟩
  cases hname
  exact ⟨bare, e, hself, rfl, hunnamed.2, h.reached, hnames, rfl⟩

/-- A typedef has the symbol that the entry takes which it names. -/
theorem naming {bare : Entry} {walk : Walk SymbolKey} (h : Visited source p id e none)
    (hnames : Names source e bare) (hbare : source.find? bare.id = some bare)
    (inside : Ends (Arrives source (p.visit id e) bare.id (some e.shownName))
      (fun _ => Informed source) (walk (p.visit id e))) :
    Ends (Arrives source p id none) (fun _ => Informed source)
      ((do
        let key ← walk
        complete e.id key
        return key : Walk SymbolKey) (p.visit id e)) := by
  have howns : OwnsSymbol e := by
    obtain ⟨hkind, -, -⟩ := hnames
    simp [OwnsSymbol, hkind]
  refine ends_bind (inside.mono (fun key q hq => ?_) fun _ _ failed => failed)
  have hkey := hq.named _ bare rfl hbare
  refine ends_bind_of_ok (complete_eq _ _ _) ?_
  exact .bind ((Extends.push _ _).trans hq.kept) hq.informed h.found h.self
    (leadsTo_own h.found howns (.naming hnames hkey)) (goesBy_none _ _ _)

/-- A typedef names what waits for a name behind it, or it has a symbol of its own and takes over
what is behind it. -/
theorem typedef {target : Option EntryId} {room : Nat} (named : EntryId → Walk SymbolKey)
    {walk : EntryId → Walk SymbolKey} {work : List Member → SymbolKey → Walk Unit}
    (h : Visited source p id e name?)
    (coherent : source.Coherent) (hkind : e.kind = .typedef target) (hroom : room + 1 ≤ fullRoom)
    (hnamed : ∀ bare, Visited source (p.visit id e) bare.id bare (some e.shownName) →
      Ends (Arrives source (p.visit id e) bare.id (some e.shownName)) (fun _ => Informed source)
        (named bare.id (p.visit id e)))
    (hwalk : ∀ target q, source.Reachable target → Informed source q →
      Ends (Arrives source q target none) (fun _ => Informed source) (walk target q))
    (hwork : ∀ b kind members declaration, b.kind = .compound kind members declaration →
      WritesMembers source b (work members)) :
    Ends (Arrives source p id name?) (fun _ => Informed source)
      ((do
        let behind ← pureMove (aliased source room target)
        match behind.filter (unnamed p) with
        | some bare =>
          let key ← named bare.id
          complete e.id key
          return key
        | none =>
          let byteSize ← pureMove (sizeOf source (room + 1) e.id)
          let key ← intern e.shownName byteSize
          reserve e.id key
          match target with
          | some target => do
            let _ ← walk target
          | none => pure ()
          match behind.map Entry.kind with
          | some (.compound _ members _) => work members key
          | some (.enumeration constants) => emitConstants key constants
          | _ => pure ()
          complete e.id key
          return key : Walk SymbolKey) (p.visit id e)) := by
  cases h.name_eq_none (by simp [Entry.awaitsName, hkind])
  refine ends_pureMove (fun _ => h.visit) fun behind hbehind => ?_
  cases hfilter : behind.filter (unnamed p) with
  | some bare =>
    obtain ⟨rfl, hunnamed⟩ := Option.filter_eq_some_iff.mp hfilter
    cases target with
    | none => cases hbehind
    | some target =>
      obtain ⟨hnames, hbare⟩ := h.behind coherent hkind (strips_of_unqualified hbehind) hunnamed
      exact h.naming hnames hbare.found (hnamed bare hbare)
  | none =>
    refine ends_pureMove (fun _ => h.visit) fun byteSize hsize => ?_
    have howns : OwnsSymbol e := by simp [OwnsSymbol, hkind]
    have hkey : OwnKey source (e.under e.shownName) ⟨e.shownName, byteSize⟩ := by
      simpa [OwnKey, hkind, Entry.under, Entry.shownName] using sizeOf_mono hroom hsize
    have henter := h.enter howns hkey
    refine ends_bind_of_ok (intern_eq _ _ _) (ends_bind_of_ok (reserve_eq _ _ _) ?_)
    have completed : ∀ q, Extends (p.enter id e ⟨e.shownName, byteSize⟩) q → Informed source q →
        Arrives source p id none ⟨e.shownName, byteSize⟩
          (q.bind e.id ⟨⟨e.shownName, byteSize⟩, true⟩) := by
      intro q hkept hq
      exact h.completed howns hkey ((Extends.enter _ _ _ _).trans hkept) hq
    cases target with
    | none =>
      cases hbehind
      exact completed _ (.refl _) henter
    | some target =>
      have htarget := h.reached.reference (mem_references_of_typedef hkind)
      refine ends_bind ((hwalk target _ htarget henter).mono (fun _ q hq => ?_)
        fun _ _ failed => failed)
      refine content_inTurn hq.informed (fun b hb => ?_) hwork fun r hkept hr => ?_
      · exact h.owns hkey (.typedef hkind (hb ▸ strips_of_unqualified hbehind))
      · exact completed r (hq.kept.trans hkept) hr

end Visited

/-- A walk writes in turn and binds what it leads to, also where it fails on the way. -/
theorem resolve_inTurn (coherent : source.Coherent) {room : Nat} (hroom : room ≤ fullRoom)
    {id : EntryId} {name? : Option String} (hid : ∀ e, source.find? id = some e → source.Reaches e)
    (given : Given source p id name?) (hp : Informed source p) :
    Ends (Arrives source p id name?) (fun _ => Informed source)
      (resolve source room id name? p) := by
  -- The run is taken apart at each bind and each match, in the order in which it was written.
  induction room using Nat.strongRecOn generalizing id name? p with
  | ind room ih =>
    unfold resolve
    cases room with
    | zero => exact hp
    | succ room =>
      have walks (left : Nat) (hleft : left ≤ room) (target : EntryId) (q : Progress)
          (htarget : source.Reachable target) (hq : Informed source q) :
          Ends (Arrives source q target none) (fun _ => Informed source)
            (resolve source left target none q) :=
        ih left (by omega) (by omega) (fun _ hfind => ⟨target, htarget, hfind⟩)
          (given_none _ _ _) hq
      have members (left : Nat) (hleft : left ≤ room) (b : Entry) (kind : CompoundKind)
          (ms : List Member) (declaration : Bool) (hb : b.kind = .compound kind ms declaration) :
          WritesMembers source b fun owner =>
            emitMembers source left (fun less _ target => resolve source less target none) owner
              ms :=
        fun _ _ howns hq => emitMembers_inTurn (fun less hless => walks less (by omega)) howns hb hq
      dsimp only
      apply ends_bind_of_ok (get_apply p)
      cases hbound : p.symbol? id with
      | some key => exact .of_bound hp given hbound
      | none =>
        refine ends_pureMove (fun _ => hp) fun e he => ?_
        have hfind := entry_eq_ok.mp he
        have met : Visited source p id e name? := ⟨hp, given, hfind, coherent _ _ hfind, hid e hfind⟩
        cases helsewhere : boundElsewhere? p id e with
        | some key => exact .of_boundElsewhere hp given hfind met.self helsewhere
        | none =>
          apply ends_bind_of_ok (emit_eq _ p)
          cases hkind : e.kind with
          | base => exact met.base hkind
          | compound kind ms declaration =>
            exact met.compound hkind hroom (members room (Nat.le_refl _) e kind ms declaration hkind)
          | enumeration constants => exact met.enumeration hkind
          | array element extents =>
            have helement := met.reached.reference (mem_references_of_array hkind)
            exact met.wrapping (.array hkind)
              (walks room (Nat.le_refl _) element _ helement met.visit)
          | pointer target =>
            cases target with
            | some target =>
              have htarget := met.reached.reference (mem_references_of_pointer hkind)
              exact met.wrapping (.pointer hkind)
                (walks room (Nat.le_refl _) target _ htarget met.visit)
            | none => exact met.pointerVoid hkind
          | qualified target =>
            cases met.name_eq_none (by simp [Entry.awaitsName, hkind])
            cases target with
            | some target =>
              have htarget := met.reached.reference (mem_references_of_qualified hkind)
              exact (walks room (Nat.le_refl _) target _ htarget met.visit).mono
                (fun _ _ h => h.wraps hfind (.qualified hkind)) fun _ _ failed => failed
            | none => exact met.qualifiedVoid hkind
          | typedef target =>
            refine met.typedef (fun under => resolve source room under (some e.shownName)) coherent
              hkind hroom (fun bare hbare => ?_) (walks room (Nat.le_refl _))
              (members (room - 1) (Nat.sub_le _ _))
            refine ih room (by omega) (by omega) (fun e' he' => ?_) hbare.given hbare.informed
            cases hbare.found.symm.trans he'
            exact hbare.reached

/-! ## Surveys -/

theorem Informed.restart (h : Informed source p) : Informed source { p with steps := #[] } :=
  ⟨h.bound, inTurn_nil⟩

/-- What one top-level entry yields is in turn, and so is the walk that goes on from there. -/
theorem resolveTop_inTurn (coherent : source.Coherent) {id : EntryId}
    (hid : source.Reachable id) (hp : Informed source p) :
    Informed source (resolveTop source id p).2 ∧
      ∀ r, (resolveTop source id p).1 = some r → InTurn source r.steps.toList := by
  unfold resolveTop
  cases hentry : source.entry id with
  | error e => exact ⟨hp, fun r hr => by cases hr; exact inTurn_nil⟩
  | ok entry =>
    dsimp only
    split
    · exact ⟨hp, nofun⟩
    · have h := resolve_inTurn coherent (Nat.le_refl _) (fun _ hfind => ⟨id, hid, hfind⟩)
        (given_none _ _ _) hp.restart
      cases hresolve : resolve source fullRoom id none { p with steps := #[] } with
      | ok key q =>
        rw [hresolve] at h
        have hq : Informed source q := h.informed
        exact ⟨hq, fun r hr => by cases hr; exact hq.steps⟩
      | error e q =>
        rw [hresolve] at h
        have hq : Informed source q := h
        exact ⟨hq, fun r hr => by cases hr; exact hq.steps⟩

theorem surveyFrom_inTurn (coherent : source.Coherent) (ids : List EntryId)
    (hids : ∀ id ∈ ids, source.Reachable id) (hp : Informed source p) :
    InTurn source (stepsOf (surveyFrom source ids p).resolutions) := by
  induction ids generalizing p with
  | nil => exact inTurn_nil
  | cons id rest ih =>
    obtain ⟨hnext, hsteps⟩ := resolveTop_inTurn coherent (hids id List.mem_cons_self) hp
    have hrest := ih (fun other h => hids other (List.mem_cons_of_mem _ h)) hnext
    unfold surveyFrom
    dsimp only
    split
    · exact hrest
    · rename_i r hr
      split
      · exact (hsteps r hr).append inTurn_nil
      · exact (hsteps r hr).append hrest

/-- All steps of a source are in turn, whatever its survey ends with. -/
theorem inTurn_steps (coherent : source.Coherent) : InTurn source source.steps :=
  surveyFrom_inTurn coherent source.topLevel (fun _ => .listed)
    ⟨fun _ _ h => (by cases h), inTurn_nil⟩

/-! ## Rows of members -/

/-- The row is what the member says, for a compound of that owner. -/
inductive RowOf (source : Source) (m : Member) : MemberKey → FieldContent → Prop
  | mk {b : Entry} {kind : CompoundKind} {members : List Member} {declaration : Bool}
    {place : Nat} {owner type : SymbolKey} {extents : List Nat} {pointers : Nat}
    {goal : Option EntryId} : Owns source owner b → b.kind = .compound kind members declaration →
    (m, place) ∈ members.zipIdx → Leads source false m.type extents pointers goal →
    LeadsTo source goal type → RowOf source m ⟨owner, memberName m place⟩
      ⟨m.byteOffset, type, extents, source.littleEndian, m.bitSize, m.bitOffset, pointers⟩

theorem rowOf_of_mem_steps (coherent : source.Coherent) {s : FieldStep}
    (h : .field s ∈ source.steps) :
    ∃ m, RowOf source m ⟨s.owner, s.name⟩ (s.content source.littleEndian) := by
  obtain ⟨before, after, hsplit⟩ := List.append_of_mem h
  cases inTurn_steps coherent before _ after hsplit with
  | @field b kind members declaration m place earlier later _ _ _ _ _ howns hb hmembers hleads
      htype _ =>
    have hm : (m, place) ∈ members.zipIdx := by
      rw [hmembers]
      simp
    exact ⟨m, .mk howns hb hm hleads htype⟩

end LayoutGraph.Survey
