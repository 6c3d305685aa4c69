-- The invariant of a walk under watch: what is bound leads to its symbol and has
-- it written, and what the record says of an id is what it was bound to first.
-- A typedef that names an entry may be walked and bound on the way to that
-- entry's symbol, but then it has the symbol already that the entry takes.
import LayoutGraph.Proofs.Survey.Standing
import LayoutGraph.Proofs.Survey.Watch

namespace LayoutGraph.Survey

open Chain

variable {source : Source} {id : EntryId} {e : Entry} {key : SymbolKey} {p q : Progress}

/-! ## The invariant -/

/-- Behind a binding, the id is bound and resolved to the same symbol. -/
def Stable (events : List Watched.Event) : Prop :=
  ∀ before id key after, events = before ++ .bound id key :: after →
    ∀ other, .bound id other ∈ after ∨ .resolved id other ∈ after → other = key

theorem stable_nil : Stable [] := fun before _ _ _ h => by cases before <;> cases h

theorem Stable.snoc {events : List Watched.Event} (h : Stable events) {e : Watched.Event}
    (agrees : ∀ id key, .bound id key ∈ events →
      ∀ other, e = .bound id other ∨ e = .resolved id other → other = key) :
    Stable (events ++ [e]) := by
  intro before id key after heq other hother
  rcases after.eq_nil_or_concat with rfl | ⟨rest, last, rfl⟩
  · rcases hother with hother | hother <;> cases hother
  · rw [List.concat_eq_append, ← List.cons_append, ← List.append_assoc] at heq
    obtain ⟨rfl, hlast⟩ := List.append_inj' heq rfl
    cases hlast
    have hbound : .bound id key ∈ before ++ .bound id key :: rest :=
      List.mem_append_right _ List.mem_cons_self
    simp only [List.concat_eq_append, List.mem_append, List.mem_singleton] at hother
    rcases hother with (hother | rfl) | hother | rfl
    · exact h before id key rest rfl other (.inl hother)
    · exact agrees id key hbound other (.inl rfl)
    · exact h before id key rest rfl other (.inr hother)
    · exact agrees id key hbound other (.inr rfl)

/-- What is bound leads to its symbol and has it written, and the record has these bindings. -/
structure Held (source : Source) (before : List Step) (w : Watched) : Prop where
  leads : ∀ id key, w.progress.symbol? id = some key → NowLeadsTo source w.progress (some id) key
  written : ∀ id key, w.progress.symbol? id = some key → Wrote before w.progress (.symbol key)
  void : w.progress.voidWritten = true → Wrote before w.progress (.symbol voidKey)
  bound : ∀ id key, .bound id key ∈ w.events ↔ w.progress.symbol? id = some key
  once : (w.progress.bindings.map Prod.fst).Nodup
  stable : Stable w.events
  settled : ∀ id pending, .listed id pending ∈ w.events → pending = []

/-- The state and the record once an id is bound. -/
def Watched.bind (w : Watched) (id : EntryId) (b : Binding) : Watched :=
  ⟨w.progress.bind id b, w.events ++ [.bound id b.symbol]⟩

section

variable {before : List Step} {w v : Watched}

namespace Held

/-- A move that binds nothing. -/
theorem move (h : Held source before w) (bindings : q.bindings = w.progress.bindings)
    (wrote : ∀ s, Wrote before w.progress s → Wrote before q s)
    (void : q.voidWritten = true → Wrote before q (.symbol voidKey)) :
    Held source before { w with progress := q } := by
  have back : Retains q w.progress := retains_of_bindings bindings.symm
  have later : Retains w.progress q := retains_of_bindings bindings
  exact {
    leads := fun id key hid => (h.leads id key (back _ _ hid)).mono later
    written := fun id key hid => wrote _ (h.written id key (back _ _ hid))
    void := void
    bound := fun id key => (h.bound id key).trans ⟨later id key, back id key⟩
    once := bindings ▸ h.once
    stable := h.stable
    settled := h.settled }

theorem push (h : Held source before w) (s : Step) :
    Held source before { w with progress := w.progress.push s } :=
  h.move rfl (fun _ hs => wrote_push.mpr (.inl hs)) fun hv => wrote_push.mpr (.inl (h.void hv))

theorem pushConstants (h : Held source before w) (key : SymbolKey) (constants : List Constant) :
    Held source before { w with progress := w.progress.pushConstants key constants } := by
  have later := Extends.pushConstants w.progress key constants
  obtain ⟨bindings, void⟩ := bindings_pushConstants w.progress key constants
  exact h.move bindings (fun _ => later.wrote) fun hv => later.wrote (h.void (void ▸ hv))

theorem withVoid (h : Held source before w) :
    Held source before { w with progress := w.progress.withVoid } ∧
      Wrote before w.progress.withVoid (.symbol voidKey) := by
  unfold Progress.withVoid
  split
  · rename_i hvoid
    exact ⟨h, h.void hvoid⟩
  · have hwrote : Wrote before (w.progress.push (.symbol voidKey)) (.symbol voidKey) :=
      wrote_push.mpr (.inr rfl)
    exact ⟨h.move rfl (fun _ hs => wrote_push.mpr (.inl hs)) fun _ => hwrote, hwrote⟩

/-- An id may be bound to what it then leads to, unless it is bound to something else. -/
theorem bind (h : Held source before w) {b : Binding}
    (same : ∀ key, w.progress.symbol? id = some key → key = b.symbol)
    (leads : NowLeadsTo source (w.progress.bind id b) (some id) b.symbol)
    (wrote : Wrote before w.progress (.symbol b.symbol)) : Held source before (w.bind id b) := by
  have later : Retains w.progress (w.progress.bind id b) := retains_bind same
  refine ⟨fun other key hother => ?_, fun other key hother => ?_, h.void, fun other key => ?_, ?_,
    h.stable.snoc fun other key he k hk => ?_, fun other pending he => ?_⟩
  · rw [Watched.bind, Progress.symbol?_bind] at hother
    split at hother
    · rename_i heq
      cases hother
      exact heq ▸ leads
    · exact (h.leads other key hother).mono later
  · rw [Watched.bind, Progress.symbol?_bind] at hother
    split at hother
    · cases hother
      exact wrote
    · exact h.written other key hother
  · refine List.mem_append.trans ⟨fun he => ?_, fun hother => ?_⟩
    · rcases he with he | he
      · exact later _ _ ((h.bound other key).mp he)
      · cases List.mem_singleton.mp he
        show (w.progress.bind id b).symbol? id = some b.symbol
        rw [Progress.symbol?_bind, if_pos rfl]
    · rw [Watched.bind, Progress.symbol?_bind] at hother
      split at hother
      · rename_i heq
        cases hother
        exact .inr (heq ▸ List.mem_singleton_self _)
      · exact .inl ((h.bound other key).mpr hother)
  · refine List.nodup_cons.mpr ⟨?_, (List.filter_sublist.map _).nodup h.once⟩
    simp
  · rcases hk with hk | hk
    · cases hk
      exact (same key ((h.bound _ key).mp he)).symm
    · cases hk
  · rcases List.mem_append.mp he with he | he
    · exact h.settled other pending he
    · cases List.mem_singleton.mp he

/-- An id that leads to a symbol may be bound to it. -/
theorem bindLed (h : Held source before w) {b : Binding}
    (leads : NowLeadsTo source w.progress (some id) b.symbol)
    (wrote : Wrote before w.progress (.symbol b.symbol)) :
    Held source before (w.bind id b) ∧ Retains w.progress (w.progress.bind id b) := by
  have same : ∀ key, w.progress.symbol? id = some key → key = b.symbol :=
    fun key hkey => (h.leads id key hkey).unique leads
  exact ⟨h.bind same (leads.mono (retains_bind same)) wrote, retains_bind same⟩

/-- An entry that is not bound may be bound to a symbol, which is its own unless it waits for a
name. -/
theorem bindFresh (h : Held source before w) {b : Binding} (hself : source.find? e.id = some e)
    (fresh : w.progress.symbol? e.id = none) (howns : OwnsSymbol e)
    (hkey : e.awaitsName = false → Keyed source e b.symbol)
    (wrote : Wrote before w.progress (.symbol b.symbol)) :
    Held source before (w.bind e.id b) ∧ Retains w.progress (w.progress.bind e.id b) ∧
      NowLeadsTo source (w.progress.bind e.id b) (some e.id) b.symbol := by
  have same : ∀ key, w.progress.symbol? e.id = some key → key = b.symbol := by
    intro key hkey
    rw [fresh] at hkey
    cases hkey
  have leads : NowLeadsTo source (w.progress.bind e.id b) (some e.id) b.symbol := by
    by_cases hawaits : e.awaitsName = true
    · refine nowLeadsTo_bound hself howns hawaits ?_
      rw [Progress.symbol?_bind, if_pos rfl]
    · have hnot : e.awaitsName = false := by simpa using hawaits
      exact nowLeadsTo_own hself hnot (hkey hnot)
  exact ⟨h.bind same leads wrote, retains_bind same, leads⟩

/-- An id may be resolved to what it leads to. -/
theorem resolved (h : Held source before w) (leads : NowLeadsTo source w.progress (some id) key) :
    Held source before { w with events := w.events ++ [.resolved id key] } where
  leads := h.leads
  written := h.written
  void := h.void
  bound other k := by simpa using h.bound other k
  once := h.once
  stable := by
    refine h.stable.snoc fun other k he found hfound => ?_
    rcases hfound with hfound | hfound
    · cases hfound
    · cases hfound
      exact leads.unique (h.leads _ k ((h.bound _ k).mp he))
  settled other pending he := by
    rcases List.mem_append.mp he with he | he
    · exact h.settled other pending he
    · cases List.mem_singleton.mp he

/-- A listed entry may be done where nothing is pending. -/
theorem listed (h : Held source before w) (id : EntryId) (done : w.progress.pending = []) :
    Held source before { w with events := w.events ++ [.listed id w.progress.pending] } where
  leads := h.leads
  written := h.written
  void := h.void
  bound other k := by simpa using h.bound other k
  once := h.once
  stable := by
    refine h.stable.snoc fun _ _ _ _ hother => ?_
    rcases hother with hother | hother <;> cases hother
  settled other pending he := by
    rcases List.mem_append.mp he with he | he
    · exact h.settled other pending he
    · cases List.mem_singleton.mp he
      exact done

end Held

/-! ## Walks -/

/-- A name is given to an entry that waits for one and is not bound. -/
def Offered (source : Source) (p : Progress) (id : EntryId) (name? : Option String) : Prop :=
  ∀ name, name? = some name → ∃ e, source.find? id = some e ∧ e.id = id ∧ p.symbol? id = none ∧
    e.awaitsName = true

theorem offered_none (source : Source) (p : Progress) (id : EntryId) : Offered source p id none :=
  nofun

theorem Offered.eq_none {name? : Option String} (h : Offered source p id name?)
    (hfind : source.find? id = some e) (hnot : e.awaitsName = false) : name? = none := by
  cases name? with
  | none => rfl
  | some name =>
    obtain ⟨other, hother, -, -, hawaits⟩ := h name rfl
    cases hfind.symm.trans hother
    cases hnot.symm.trans hawaits

/-- The entry of the id has the symbol under the name that it is given. -/
def TakesName (source : Source) (id : EntryId) (name? : Option String) (key : SymbolKey) : Prop :=
  ∀ name e, name? = some name → source.find? id = some e → Keyed source (e.under name) key

theorem takesName_none (source : Source) (id : EntryId) (key : SymbolKey) :
    TakesName source id none key := fun _ _ h => by cases h

/-- What a walk from an id comes to: a symbol that the id leads to, under the name that it was
given. -/
structure Came (source : Source) (before : List Step) (w : Watched) (id : EntryId)
    (name? : Option String) (key : SymbolKey) (v : Watched) : Prop where
  retains : Retains w.progress v.progress
  held : Held source before v
  leads : NowLeadsTo source v.progress (some id) key
  wrote : Wrote before v.progress (.symbol key)
  named : TakesName source id name? key

variable {name? : Option String} {α : Type} {x : Walk α}

theorem unseen_of_ok {a : α} (h : x w.progress = .ok a p) :
    unseen x w = .ok a { w with progress := p } := by
  unfold unseen
  rw [h]

theorem watchReserve_eq (w : Watched) (id : EntryId) (key : SymbolKey) :
    watchReserve id key w = .ok ⟨⟩ (w.bind id ⟨key, false⟩) := rfl

theorem watchComplete_eq (w : Watched) (id : EntryId) (key : SymbolKey) :
    watchComplete id key w = .ok ⟨⟩ (w.bind id ⟨key, true⟩) := rfl

theorem ends_unseen_pureMove {β : Type} {r : Except Failure α} {f : α → WatchedWalk β}
    {Q : β → Watched → Prop} {E : Failure → Watched → Prop} (bad : ∀ e, E e w)
    (good : ∀ a, r = .ok a → Ends Q E (f a w)) : Ends Q E ((unseen (pureMove r) >>= f) w) := by
  cases r with
  | error e => exact bad e
  | ok a => exact good a rfl

namespace Came

/-- A walk ends well where it binds what the entry leads to, under the id that it asked for or the
entry's own. -/
theorem complete {under : EntryId} (hv : Held source before v)
    (retains : Retains w.progress v.progress) (hid : source.find? id = some e)
    (hunder : source.find? under = some e) (leads : NowLeadsTo source v.progress (some id) key)
    (wrote : Wrote before v.progress (.symbol key))
    (named : TakesName source id name? key) :
    Came source before w id name? key (v.bind under ⟨key, true⟩) := by
  obtain ⟨held, later⟩ := hv.bindLed (b := ⟨key, true⟩) (leads.congr hid hunder) wrote
  exact ⟨retains.trans later, held, leads.mono later, wrote, named⟩

theorem of_bound (hw : Held source before w) (offered : Offered source w.progress id name?)
    (hbound : w.progress.symbol? id = some key) : Came source before w id name? key w where
  retains := .refl _
  held := hw
  leads := hw.leads _ _ hbound
  wrote := hw.written _ _ hbound
  named name _ hname _ := by
    obtain ⟨-, -, -, habsent, -⟩ := offered name hname
    cases habsent.symm.trans hbound

theorem of_boundElsewhere (hw : Held source before w)
    (offered : Offered source w.progress id name?) (hfind : source.find? id = some e)
    (hself : source.find? e.id = some e)
    (helsewhere : boundElsewhere? w.progress id e = some key) :
    Came source before w id name? key w where
  retains := .refl _
  held := hw
  leads := (hw.leads _ _ (symbol?_of_boundElsewhere? helsewhere)).congr hself hfind
  wrote := hw.written _ _ (symbol?_of_boundElsewhere? helsewhere)
  named name _ hname _ := by
    obtain ⟨e', hfind', hsame, habsent, -⟩ := offered name hname
    cases hfind.symm.trans hfind'
    have hbound := symbol?_of_boundElsewhere? helsewhere
    rw [hsame, habsent] at hbound
    cases hbound

/-- An entry that was reserved for its symbol is completed behind whatever keeps that. -/
theorem completed {u : Watched} (h : Came source before w id name? key (u.bind e.id ⟨key, false⟩))
    (hid : source.find? id = some e) (hself : source.find? e.id = some e)
    (later : Retains (u.bind e.id ⟨key, false⟩).progress v.progress) (hv : Held source before v) :
    Came source before w id name? key (v.bind e.id ⟨key, true⟩) := by
  have hbound : v.progress.symbol? e.id = some key := by
    refine later _ _ ?_
    show (Progress.bind _ _ _).symbol? _ = _
    rw [Progress.symbol?_bind, if_pos rfl]
  exact .complete hv (h.retains.trans later) hid hself (h.leads.mono later) (hv.written _ _ hbound)
    h.named

/-- An entry that stands for its target comes to what that comes to. -/
theorem wraps {target : EntryId} (h : Came source before w target none key v)
    (hfind : source.find? id = some e) (hwraps : Wraps e (some target)) :
    Came source before w id none key v where
  retains := h.retains
  held := h.held
  leads := nowLeadsTo_wraps hfind hwraps h.leads
  wrote := h.wrote
  named := takesName_none _ _ _

end Came

theorem symbol?_own_of_fresh (habsent : p.symbol? id = none)
    (helsewhere : boundElsewhere? p id e = none) : p.symbol? e.id = none := by
  unfold boundElsewhere? at helsewhere
  split at helsewhere
  · rename_i heq
    rwa [heq]
  · exact helsewhere

theorem watchMembers_held {room : Nat}
    {resolve : (left : Nat) → left ≤ room → EntryId → WatchedWalk SymbolKey}
    (hresolve : ∀ left hle id w, Held source before w →
      Ends (Came source before w id none) (fun _ => Held source before) (resolve left hle id w))
    (owner : SymbolKey) (members : List Member) (hw : Held source before w) :
    Ends (fun _ v => Retains w.progress v.progress ∧ Held source before v)
      (fun _ => Held source before) (watchMembers source room resolve owner members w) := by
  unfold watchMembers
  generalize members.zipIdx = rest
  induction rest generalizing w with
  | nil => exact ⟨.refl _, hw⟩
  | cons first rest ih =>
    obtain ⟨m, place⟩ := first
    refine ends_bind (Ends.mono (Q := fun _ v => Retains w.progress v.progress ∧
      Held source before v) ?_ (fun _ v h => ?_) fun _ _ h => h)
    · dsimp only
      refine ends_apart fun work hwork => ?_
      split at hwork
      · subst hwork
        exact hw
      split at hwork
      · subst hwork
        exact ends_bind ((hresolve _ _ _ w hw).mono (fun _ v h => ⟨h.retains, h.held.push _⟩)
          fun _ _ h => h)
      · subst hwork
        refine ends_bind_of_ok (unseen_of_ok (voidSymbol_eq _)) ?_
        obtain ⟨hvoid, -⟩ := hw.withVoid
        exact ⟨retains_of_bindings (bindings_withVoid _), hvoid.push _⟩
    · exact (ih h.2).mono (fun _ _ h' => ⟨h.1.trans h'.1, h'.2⟩) fun _ _ h => h

/-! ### One walk, kind by kind -/

/-- The walk has come to an entry that is not bound, and goes on behind its visit. -/
structure Met (source : Source) (before : List Step) (w : Watched) (id : EntryId) (e : Entry)
    (name? : Option String) : Prop where
  held : Held source before w
  offered : Offered source w.progress id name?
  found : source.find? id = some e
  self : source.find? e.id = some e
  fresh : w.progress.symbol? e.id = none

/-- The symbol is the entry's own, unless it waits for a name, and the one of the name that it is
given. -/
structure Proper (source : Source) (e : Entry) (name? : Option String) (key : SymbolKey) :
    Prop where
  owns : OwnsSymbol e
  own : e.awaitsName = false → Keyed source e key
  named : ∀ name, name? = some name → Keyed source (e.under name) key

/-- Some work of a walk that keeps what is bound. -/
def KeepsHeld (source : Source) (before : List Step) (work : WatchedWalk Unit) : Prop :=
  ∀ w, Held source before w →
    Ends (fun _ v => Retains w.progress v.progress ∧ Held source before v)
      (fun _ => Held source before) (work w)

namespace Met

theorem of_visit (hw : Held source before w) (offered : Offered source w.progress id name?)
    (hfind : source.find? id = some e) (hself : source.find? e.id = some e)
    (habsent : w.progress.symbol? id = none) (helsewhere : boundElsewhere? w.progress id e = none) :
    Met source before { w with progress := w.progress.visit id e } id e name? where
  held := hw.push _
  offered := offered
  found := hfind
  self := hself
  fresh := symbol?_own_of_fresh habsent helsewhere

/-- A compound or an enumeration takes the name that it is given, and else has its own. -/
theorem proper (h : Met source before w id e name?)
    (hkind : (∃ kind members declaration, e.kind = .compound kind members declaration) ∨
      ∃ constants, e.kind = .enumeration constants)
    (hname : key.name = name?.getD e.shownName) (hsize : Sized source e.id key.byteSize) :
    Proper source e name? key where
  owns := by rcases hkind with ⟨_, _, _, hkind⟩ | ⟨_, hkind⟩ <;> simp [OwnsSymbol, hkind]
  own hnot := by
    cases h.offered.eq_none h.found hnot
    refine ⟨?_, hname.trans ?_, hsize⟩ <;>
      rcases hkind with ⟨_, _, _, hkind⟩ | ⟨_, hkind⟩ <;> simp [OwnsSymbol, Entry.title, hkind]
  named name hgiven := by
    refine ⟨?_, hname.trans ?_, hsize⟩ <;>
      rcases hkind with ⟨_, _, _, hkind⟩ | ⟨_, hkind⟩ <;>
        simp [OwnsSymbol, Entry.title, Entry.under, Entry.shownName, hkind, hgiven]

theorem bind (h : Met source before w id e name?) (proper : Proper source e name? key)
    (hv : Held source before v) (same : v.progress.bindings = w.progress.bindings)
    (wrote : Wrote before v.progress (.symbol key)) (complete : Bool) :
    Came source before w id name? key (v.bind e.id ⟨key, complete⟩) := by
  have fresh : v.progress.symbol? e.id = none := by
    unfold Progress.symbol?
    rw [same]
    exact h.fresh
  obtain ⟨held, later, leads⟩ :=
    hv.bindFresh (b := ⟨key, complete⟩) h.self fresh proper.owns proper.own wrote
  refine ⟨(retains_of_bindings same).trans later, held, leads.congr h.self h.found, wrote, ?_⟩
  intro name other hname hother
  cases h.found.symm.trans hother
  exact proper.named name hname

/-- The entry is reserved for its symbol, which was just written. -/
theorem reserve (h : Met source before w id e name?) (proper : Proper source e name? key) :
    Came source before w id name? key
      (Watched.bind { w with progress := w.progress.push (.symbol key) } e.id ⟨key, false⟩) :=
  h.bind proper (h.held.push _) rfl (wrote_push.mpr (.inr rfl)) false

theorem base (h : Met source before w id e name?) (hkind : e.kind = .base) :
    Ends (Came source before w id name?) (fun _ => Held source before)
      ((do
        let key ← unseen
          (intern (if e.anonymous then voidName else e.shownName) (e.byteSize.getD 0))
        watchComplete id key
        return key) w) := by
  let key : SymbolKey := ⟨if e.anonymous then voidName else e.shownName, e.byteSize.getD 0⟩
  have hnot : e.awaitsName = false := by simp [Entry.awaitsName, hkind]
  have hkey : Keyed source e key :=
    ⟨by simp [OwnsSymbol, hkind], by simp [Entry.title, hkind, key],
      sized_of_plain h.self (.inl hkind)⟩
  cases h.offered.eq_none h.found hnot
  refine ends_bind_of_ok (unseen_of_ok (intern_eq _ _ _))
    (ends_bind_of_ok (watchComplete_eq _ _ _) ?_)
  exact .complete (h.held.push _) (retains_of_bindings rfl) h.found h.found
    (nowLeadsTo_own h.found hnot hkey) (wrote_push.mpr (.inr rfl)) (takesName_none _ _ _)

theorem compound {kind : CompoundKind} {ms : List Member} {declaration : Bool} {room byteSize : Nat}
    {members : SymbolKey → WatchedWalk Unit} (h : Met source before w id e name?)
    (hkind : e.kind = .compound kind ms declaration)
    (hsize : sizeOf source room e.id = .ok byteSize)
    (hmembers : ∀ key, KeepsHeld source before (members key)) :
    Ends (Came source before w id name?) (fun _ => Held source before)
      ((do
        let key ← unseen (intern (name?.getD e.shownName) byteSize)
        watchReserve e.id key
        members key
        watchComplete e.id key
        return key) w) := by
  let key : SymbolKey := ⟨name?.getD e.shownName, byteSize⟩
  have proper : Proper source e name? key :=
    h.proper (.inl ⟨kind, ms, declaration, hkind⟩) rfl ⟨room, hsize⟩
  have came := h.reserve proper
  refine ends_bind_of_ok (unseen_of_ok (intern_eq _ _ _))
    (ends_bind_of_ok (watchReserve_eq _ _ _) ?_)
  refine ends_bind ((hmembers _ _ came.held).mono (fun _ v hv => ?_) fun _ _ h => h)
  exact ends_bind_of_ok (watchComplete_eq _ _ _) (came.completed h.found h.self hv.1 hv.2)

theorem enumeration {constants : List Constant} (h : Met source before w id e name?)
    (hkind : e.kind = .enumeration constants) :
    Ends (Came source before w id name?) (fun _ => Held source before)
      ((do
        let key ← unseen (intern (name?.getD e.shownName) (e.byteSize.getD 0))
        unseen (emitConstants key constants)
        watchComplete e.id key
        return key) w) := by
  let key : SymbolKey := ⟨name?.getD e.shownName, e.byteSize.getD 0⟩
  have proper : Proper source e name? key :=
    h.proper (.inr ⟨constants, hkind⟩) rfl (sized_of_plain h.self (.inr ⟨constants, hkind⟩))
  have later := Extends.pushConstants (w.progress.push (.symbol key)) key constants
  refine ends_bind_of_ok (unseen_of_ok (intern_eq _ _ _))
    (ends_bind_of_ok (unseen_of_ok (emitConstants_eq _ _ _))
      (ends_bind_of_ok (watchComplete_eq _ _ _) ?_))
  exact h.bind proper ((h.held.push _).pushConstants _ constants) (bindings_pushConstants _ _ _).1
    (later.wrote (wrote_push.mpr (.inr rfl))) true

/-- An array or a pointer is bound to the symbol that its target comes to. -/
theorem wrapping {target : EntryId} (h : Met source before w id e name?)
    (hwraps : Wraps e (some target)) {walk : WatchedWalk SymbolKey}
    (inside : Ends (Came source before w target none) (fun _ => Held source before) (walk w)) :
    Ends (Came source before w id name?) (fun _ => Held source before)
      ((do
        let key ← walk
        watchComplete id key
        return key) w) := by
  have hnot : e.awaitsName = false := by cases hwraps <;> simp [Entry.awaitsName, *]
  cases h.offered.eq_none h.found hnot
  refine ends_bind (inside.mono (fun key v hv => ?_) fun _ _ h => h)
  have came := hv.wraps h.found hwraps
  exact ends_bind_of_ok (watchComplete_eq _ _ _)
    (.complete came.held came.retains h.found h.found came.leads came.wrote
      (takesName_none _ _ _))

theorem pointerVoid (h : Met source before w id e name?) (hkind : e.kind = .pointer none) :
    Ends (Came source before w id name?) (fun _ => Held source before)
      ((do
        let key ← unseen voidSymbol
        watchComplete id key
        return key) w) := by
  cases h.offered.eq_none h.found (by simp [Entry.awaitsName, hkind])
  obtain ⟨hvoid, wrote⟩ := h.held.withVoid
  refine ends_bind_of_ok (unseen_of_ok (voidSymbol_eq _)) (ends_bind_of_ok (watchComplete_eq _ _ _) ?_)
  exact .complete hvoid (retains_of_bindings (bindings_withVoid _)) h.found h.found
    (nowLeadsTo_wraps h.found (.pointer hkind) nowLeadsTo_void) wrote (takesName_none _ _ _)

theorem qualifiedVoid (h : Met source before w id e name?) (hkind : e.kind = .qualified none) :
    Ends (Came source before w id name?) (fun _ => Held source before) (unseen voidSymbol w) := by
  cases h.offered.eq_none h.found (by simp [Entry.awaitsName, hkind])
  obtain ⟨hvoid, wrote⟩ := h.held.withVoid
  rw [unseen_of_ok (voidSymbol_eq _)]
  exact ⟨retains_of_bindings (bindings_withVoid _), hvoid,
    nowLeadsTo_wraps h.found (.qualified hkind) nowLeadsTo_void, wrote, takesName_none _ _ _⟩

/-- A typedef that names an entry has the symbol that the entry takes, also where the typedef was
walked once more on the way. -/
theorem naming (coherent : source.Coherent) (sized : source.SizedByTargets) {target : EntryId}
    {bare : Entry} (h : Met source before w id e name?) (hkind : e.kind = .typedef (some target))
    (hstrips : Strips source target (some bare)) (hawaits : bare.awaitsName = true)
    {walk : WatchedWalk SymbolKey}
    (inside : Ends (Came source before w bare.id (some e.shownName)) (fun _ => Held source before)
      (walk w)) :
    Ends (Came source before w id name?) (fun _ => Held source before)
      ((do
        let key ← walk
        watchComplete e.id key
        return key) w) := by
  have hnot : e.awaitsName = false := by simp [Entry.awaitsName, hkind]
  cases h.offered.eq_none h.found hnot
  refine ends_bind (inside.mono (fun key v hv => ?_) fun _ _ h => h)
  have hkey : Keyed source e key := keyed_of_naming coherent sized h.self hkind hstrips hawaits
    (hv.named _ bare rfl (found_of_strips coherent hstrips rfl))
  exact ends_bind_of_ok (watchComplete_eq _ _ _) (.complete hv.held hv.retains h.found h.self
    (nowLeadsTo_own h.found hnot hkey) hv.wrote (takesName_none _ _ _))

theorem proper_typedef {target : Option EntryId} {room byteSize : Nat}
    (h : Met source before w id e name?) (hkind : e.kind = .typedef target)
    (hsize : sizeOf source room e.id = .ok byteSize) :
    Proper source e name? ⟨e.shownName, byteSize⟩ where
  owns := by simp [OwnsSymbol, hkind]
  own _ := ⟨by simp [OwnsSymbol, hkind], by simp [Entry.title, hkind], room, hsize⟩
  named name hname := by
    have hnot : e.awaitsName = false := by simp [Entry.awaitsName, hkind]
    cases (h.offered.eq_none h.found hnot).symm.trans hname

end Met

/-- Whatever a typedef takes over of the entry behind it, the typedef is completed behind that. -/
theorem Came.content {u : Watched}
    (h : Came source before w id name? key (u.bind e.id ⟨key, false⟩))
    (hid : source.find? id = some e) (hself : source.find? e.id = some e) (behind : Option Entry)
    {members : List Member → WatchedWalk Unit}
    (hmembers : ∀ ms, KeepsHeld source before (members ms))
    (later : Retains (u.bind e.id ⟨key, false⟩).progress v.progress) (hv : Held source before v) :
    Ends (Came source before w id name?) (fun _ => Held source before)
      ((do
        match behind.map Entry.kind with
        | some (.compound _ ms _) => members ms
        | some (.enumeration constants) => unseen (emitConstants key constants)
        | _ => pure ()
        watchComplete e.id key
        return key) v) := by
  have completed : ∀ {v}, Retains (u.bind e.id ⟨key, false⟩).progress v.progress →
      Held source before v → Came source before w id name? key (v.bind e.id ⟨key, true⟩) :=
    fun later hv => h.completed hid hself later hv
  cases behind with
  | none => exact completed later hv
  | some b =>
    rw [Option.map_some]
    cases b.kind with
    | compound kind ms declaration =>
      exact ends_bind ((hmembers ms v hv).mono (fun _ _ h => completed (later.trans h.1) h.2)
        fun _ _ h => h)
    | enumeration constants =>
      refine ends_bind_of_ok (unseen_of_ok (emitConstants_eq _ _ _)) ?_
      have same := retains_of_bindings (bindings_pushConstants v.progress key constants).1
      exact completed (later.trans same) (hv.pushConstants key constants)
    | base | array _ _ | pointer _ | qualified _ | typedef _ => exact completed later hv

/-- From a state in which bindings lead to their symbols, a walk under watch comes to what its id
leads to, and where it fails it leaves such a state too. -/
theorem watchResolve_came (coherent : source.Coherent) (sized : source.SizedByTargets) (room : Nat)
    (offered : Offered source w.progress id name?) (hw : Held source before w) :
    Ends (Came source before w id name?) (fun _ => Held source before)
      (watchResolve source room id name? w) := by
  -- The run is taken apart at each bind and each match, in the order in which it was written.
  induction room using Nat.strongRecOn generalizing id name? w with
  | ind room ih =>
    unfold watchResolve
    cases room with
    | zero => exact hw
    | succ room =>
      have walks (left : Nat) (hleft : left ≤ room) (target : EntryId) (w : Watched)
          (hw : Held source before w) : Ends (Came source before w target none)
            (fun _ => Held source before) (watchResolve source left target none w) :=
        ih left (by omega) (offered_none _ _ _) hw
      have members (left : Nat) (hleft : left ≤ room) (key : SymbolKey) (ms : List Member) :
          KeepsHeld source before
            (watchMembers source left (fun less _ target => watchResolve source less target none)
              key ms) :=
        fun w hw => watchMembers_held (fun less hless target => walks less (by omega) target) key ms
          hw
      refine ends_bind_of_ok (unseen_of_ok (get_apply w.progress)) ?_
      -- The symbol that is found is recorded behind all the rest.
      refine ends_bind (Ends.mono (Q := Came source before w id name?) ?_ (fun key v h => ?_)
        fun _ _ h => h)
      · cases hbound : w.progress.symbol? id with
        | some key => exact .of_bound hw offered hbound
        | none =>
          refine ends_unseen_pureMove (fun _ => hw) fun entry hentry => ?_
          have hfind := entry_eq_ok.mp hentry
          have hself := coherent _ _ hfind
          cases helsewhere : boundElsewhere? w.progress id entry with
          | some key => exact .of_boundElsewhere hw offered hfind hself helsewhere
          | none =>
            refine ends_bind_of_ok (unseen_of_ok (emit_eq _ w.progress)) ?_
            have met := Met.of_visit hw offered hfind hself hbound helsewhere
            have visit : Retains w.progress (w.progress.visit id entry) := retains_of_bindings rfl
            refine Ends.mono (Q := Came source before
              { w with progress := w.progress.visit id entry } id name?) ?_
              (fun _ _ h => { h with retains := visit.trans h.retains }) fun _ _ h => h
            cases hkind : entry.kind with
            | base => exact met.base hkind
            | compound kind ms declaration =>
              refine ends_unseen_pureMove (fun _ => met.held) fun byteSize hsize => ?_
              exact met.compound hkind hsize fun key => members room (Nat.le_refl _) key ms
            | enumeration constants => exact met.enumeration hkind
            | array element extents =>
              exact met.wrapping (.array hkind) (walks room (Nat.le_refl _) element _ met.held)
            | pointer target =>
              cases target with
              | some target =>
                exact met.wrapping (.pointer hkind) (walks room (Nat.le_refl _) target _ met.held)
              | none => exact met.pointerVoid hkind
            | qualified target =>
              cases target with
              | some target =>
                cases offered.eq_none hfind (by simp [Entry.awaitsName, hkind])
                exact (walks room (Nat.le_refl _) target _ met.held).mono
                  (fun _ _ h => h.wraps hfind (.qualified hkind)) fun _ _ h => h
              | none => exact met.qualifiedVoid hkind
            | typedef target =>
              refine ends_unseen_pureMove (fun _ => met.held) fun behind hbehind => ?_
              cases hfilter : behind.filter (unnamed w.progress) with
              | some bare =>
                obtain ⟨rfl, hunnamed⟩ := Option.filter_eq_some_iff.mp hfilter
                simp only [unnamed, Bool.and_eq_true, Option.isNone_iff_eq_none] at hunnamed
                cases target with
                | none => cases hbehind
                | some target =>
                  have hstrips := strips_of_unqualified hbehind
                  refine met.naming coherent sized hkind hstrips hunnamed.1
                    (ih room (by omega) (fun name _ => ?_) met.held)
                  exact ⟨bare, found_of_strips coherent hstrips rfl, rfl, hunnamed.2, hunnamed.1⟩
              | none =>
                refine ends_unseen_pureMove (fun _ => met.held) fun byteSize hsize => ?_
                have came := met.reserve (met.proper_typedef hkind hsize)
                refine ends_bind_of_ok (unseen_of_ok (intern_eq _ _ _))
                  (ends_bind_of_ok (watchReserve_eq _ _ _) ?_)
                have takes := members (room - 1) (Nat.sub_le _ _) ⟨entry.shownName, byteSize⟩
                cases target with
                | some target =>
                  exact ends_bind ((walks room (Nat.le_refl _) target _ came.held).mono
                    (fun _ v h => came.content hfind hself behind takes h.retains h.held)
                    fun _ _ h => h)
                | none => exact came.content hfind hself behind takes (.refl _) came.held
      · exact ⟨h.retains, h.held.resolved h.leads, h.leads, h.wrote, h.named⟩

end

end LayoutGraph.Survey
