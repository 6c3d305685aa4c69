-- What a binding stands for. A typedef has the symbol of its own name and the
-- size of what it names, whether or not it gives the name away; so the symbol
-- of an entry that does not wait for a name is read off the source, in as much
-- room as its size takes. Behind pointers, arrays and qualifiers the symbol is
-- that of the entry at the end of the way.
import LayoutGraph.Proofs.Source.Coherent
import LayoutGraph.Proofs.Survey.Grounded
import LayoutGraph.Proofs.Survey.InTurn

namespace LayoutGraph

open Chain Survey

/-- Typedefs and qualifiers have no size of their own. -/
def Source.SizedByTargets (source : Source) : Prop :=
  ∀ id e target, source.find? id = some e →
    e.kind = .typedef target ∨ e.kind = .qualified target → e.byteSize = none

namespace Survey

variable {source : Source} {id : EntryId} {e : Entry} {key : SymbolKey}

/-! ## Sizes in any room -/

/-- The size of an id, in as much room as it takes. -/
def Sized (source : Source) (id : EntryId) (size : Nat) : Prop :=
  ∃ room, sizeOf source room id = .ok size

theorem sized_unique {a b : Nat} (ha : Sized source id a) (hb : Sized source id b) : a = b := by
  obtain ⟨m, ha⟩ := ha
  obtain ⟨n, hb⟩ := hb
  have ha := sizeOf_mono (Nat.le_max_left m n) ha
  have hb := sizeOf_mono (Nat.le_max_right m n) hb
  rw [ha] at hb
  cases hb
  rfl

/-- The size is that of the entry, by whatever id it was found. -/
theorem Sized.congr {other : EntryId} {size : Nat} (h : Sized source id size)
    (hid : source.find? id = some e) (hother : source.find? other = some e) :
    Sized source other size := by
  obtain ⟨room, h⟩ := h
  refine ⟨room, ?_⟩
  cases room with
  | zero => cases h
  | succ room =>
    unfold sizeOf at h ⊢
    rw [entry_eq_ok.mpr hid] at h
    rw [entry_eq_ok.mpr hother]
    exact h

/-- A typedef or a qualifier without a size of its own has that of its target. -/
theorem Sized.of_target (sized : source.SizedByTargets) {target : EntryId} {size : Nat}
    (hfind : source.find? id = some e)
    (hkind : e.kind = .typedef (some target) ∨ e.kind = .qualified (some target))
    (h : Sized source target size) : Sized source id size := by
  obtain ⟨room, h⟩ := h
  refine ⟨room + 1, ?_⟩
  unfold sizeOf
  rw [entry_eq_ok.mpr hfind]
  dsimp only [bind, Except.bind]
  rw [sized id e (some target) hfind hkind]
  dsimp only
  rcases hkind with hkind | hkind <;> rw [hkind] <;> exact h

theorem Sized.of_strips (coherent : source.Coherent) (sized : source.SizedByTargets)
    {behind : Option Entry} {bare : Entry} {size : Nat} (h : Strips source id behind)
    (hbehind : behind = some bare) (hbare : Sized source bare.id size) : Sized source id size := by
  induction h with
  | stop hfind =>
    cases hbehind
    exact hbare.congr (coherent _ _ hfind) hfind
  | skip hfind hkind _ ih => exact (ih hbehind).of_target sized hfind (.inr hkind)
  | void => cases hbehind

/-- Of a type without parts the size is the recorded one, or none. -/
theorem sized_of_plain (hfind : source.find? id = some e)
    (hkind : e.kind = .base ∨ ∃ constants, e.kind = .enumeration constants) :
    Sized source id (e.byteSize.getD 0) := by
  refine ⟨1, ?_⟩
  unfold sizeOf
  rw [entry_eq_ok.mpr hfind]
  dsimp only [bind, Except.bind]
  cases e.byteSize with
  | some size => rfl
  | none => rcases hkind with hkind | ⟨constants, hkind⟩ <;> rw [hkind] <;> rfl

/-! ## Keys in any room -/

/-- The name of an entry's own symbol. -/
def Entry.title (e : Entry) : String :=
  match e.kind with
  | .base => if e.anonymous then voidName else e.shownName
  | _ => e.shownName

/-- The entry has a symbol of its own, and this is its name and its size, in as much room as that
takes. -/
structure Keyed (source : Source) (e : Entry) (key : SymbolKey) : Prop where
  owns : OwnsSymbol e
  name : key.name = Entry.title e
  size : Sized source e.id key.byteSize

theorem keyed_unique {a b : SymbolKey} (ha : Keyed source e a) (hb : Keyed source e b) :
    a = b := by
  have hname := ha.name.trans hb.name.symm
  have hsize := sized_unique ha.size hb.size
  cases a
  cases b
  cases hname
  cases hsize
  rfl

theorem title_of_awaits (h : e.awaitsName = true) (name : String) :
    Entry.title (e.under name) = name := by
  unfold Entry.title
  unfold Entry.awaitsName at h
  cases hkind : e.kind <;> simp_all [Entry.under, Entry.shownName]

/-- A typedef that names an entry has the key of its own: the name that it gives, and the size of
what it names. -/
theorem keyed_of_naming (coherent : source.Coherent) (sized : source.SizedByTargets)
    {t bare : Entry} {target : EntryId} (hfind : source.find? t.id = some t)
    (hkind : t.kind = .typedef (some target)) (hstrips : Strips source target (some bare))
    (hawaits : bare.awaitsName = true) (hkey : Keyed source (bare.under t.shownName) key) :
    Keyed source t key where
  owns := by simp [OwnsSymbol, hkind]
  name := by
    rw [hkey.name, title_of_awaits hawaits]
    simp [Entry.title, hkind]
  size := by
    have hbare : Sized source bare.id key.byteSize := hkey.size
    exact (hbare.of_strips coherent sized hstrips rfl).of_target sized hfind (.inl hkind)

/-! ## What a binding leads to -/

/-- The symbol at the end of a way, as the walk stands: an entry that waits for a name has the one
that it is bound to. -/
inductive StandsFor (source : Source) (p : Progress) : Option Entry → SymbolKey → Prop
  | void : StandsFor source p none voidKey
  | own {e : Entry} {key : SymbolKey} : e.awaitsName = false → Keyed source e key →
    StandsFor source p (some e) key
  | bound {e : Entry} {key : SymbolKey} : e.awaitsName = true → p.symbol? e.id = some key →
    StandsFor source p (some e) key

/-- The type leads to an entry that has the symbol as the walk stands, or to `void`. -/
def NowLeadsTo (source : Source) (p : Progress) (type : Option EntryId) (key : SymbolKey) : Prop :=
  ∃ pointers last, Way source type pointers last ∧ StandsFor source p last key

/-- What was bound is bound to the same symbol. -/
def Retains (p q : Progress) : Prop :=
  ∀ id key, p.symbol? id = some key → q.symbol? id = some key

variable {p q : Progress} {type : Option EntryId}

theorem Retains.refl (p : Progress) : Retains p p := fun _ _ h => h

theorem Retains.trans {r : Progress} (h : Retains p q) (h' : Retains q r) : Retains p r :=
  fun id key hid => h' id key (h id key hid)

theorem retains_of_bindings (h : q.bindings = p.bindings) : Retains p q := by
  intro id key hid
  unfold Progress.symbol? at hid ⊢
  rwa [h]

theorem retains_bind {b : Binding} (same : ∀ key, p.symbol? id = some key → key = b.symbol) :
    Retains p (p.bind id b) := by
  intro other key hother
  rw [Progress.symbol?_bind]
  split
  · rename_i heq
    rw [same key (heq ▸ hother)]
  · exact hother

theorem StandsFor.unique {last : Option Entry} {a b : SymbolKey} (ha : StandsFor source p last a)
    (hb : StandsFor source p last b) : a = b := by
  cases ha with
  | void =>
    cases hb
    rfl
  | own hnot hkey =>
    cases hb with
    | own _ hother => exact keyed_unique hkey hother
    | bound hawaits => cases hnot.symm.trans hawaits
  | bound hawaits hbound =>
    cases hb with
    | own hnot => cases hnot.symm.trans hawaits
    | bound _ hother => exact Option.some.inj (hbound.symm.trans hother)

theorem NowLeadsTo.unique {a b : SymbolKey} (ha : NowLeadsTo source p type a)
    (hb : NowLeadsTo source p type b) : a = b := by
  obtain ⟨m, last, hway, ha⟩ := ha
  obtain ⟨n, other, hway', hb⟩ := hb
  obtain ⟨-, rfl⟩ := way_unique hway hway'
  exact ha.unique hb

theorem NowLeadsTo.mono (h : NowLeadsTo source p type key) (later : Retains p q) :
    NowLeadsTo source q type key := by
  obtain ⟨pointers, last, hway, hlast⟩ := h
  refine ⟨pointers, last, hway, ?_⟩
  cases hlast with
  | void => exact .void
  | own hnot hkey => exact .own hnot hkey
  | bound hawaits hbound => exact .bound hawaits (later _ _ hbound)

theorem nowLeadsTo_void : NowLeadsTo source p none voidKey := ⟨0, none, .void, .void⟩

theorem nowLeadsTo_own (hfind : source.find? id = some e) (hnot : e.awaitsName = false)
    (h : Keyed source e key) : NowLeadsTo source p (some id) key :=
  ⟨0, some e, .own hfind h.owns, .own hnot h⟩

/-- An entry that waits for a name leads to what it is bound to. -/
theorem nowLeadsTo_bound (hfind : source.find? id = some e) (howns : OwnsSymbol e)
    (hawaits : e.awaitsName = true) (h : p.symbol? e.id = some key) :
    NowLeadsTo source p (some id) key :=
  ⟨0, some e, .own hfind howns, .bound hawaits h⟩

theorem nowLeadsTo_wraps {target : Option EntryId} (hfind : source.find? id = some e)
    (hwraps : Wraps e target) (h : NowLeadsTo source p target key) :
    NowLeadsTo source p (some id) key := by
  obtain ⟨pointers, last, hway, hlast⟩ := h
  exact ⟨_, last, .wraps hfind hwraps hway, hlast⟩

/-- Two ids of one entry lead to the same symbol. -/
theorem NowLeadsTo.congr {other : EntryId} (h : NowLeadsTo source p (some id) key)
    (hid : source.find? id = some e) (hother : source.find? other = some e) :
    NowLeadsTo source p (some other) key := by
  obtain ⟨pointers, last, hway, hlast⟩ := h
  cases hway with
  | own hfind howns =>
    cases hid.symm.trans hfind
    exact ⟨0, some e, .own hother howns, hlast⟩
  | wraps hfind hwraps hnext =>
    cases hid.symm.trans hfind
    exact nowLeadsTo_wraps hother hwraps ⟨_, last, hnext, hlast⟩

end Survey

end LayoutGraph
