-- Chains and nests. A chain leads through arrays, pointers, typedefs and
-- qualifiers to its end. A nest is what can be open at once: compounds and
-- typedefs, each come by while the needs of the one before it are walked.
import LayoutGraph.Proofs.Survey.Content

namespace LayoutGraph

/-- The one entry that an array, pointer, typedef or qualifier refers to. -/
def Entry.next? (e : Entry) : Option EntryId :=
  match e.kind with
  | .base | .compound .. | .enumeration _ => none
  | .array element _ => some element
  | .pointer target | .typedef target | .qualified target => target

/-- An entry that is bound before its needs are walked. -/
def Entry.opens (e : Entry) : Bool :=
  match e.kind with
  | .compound .. | .typedef _ => true
  | _ => false

theorem Entry.mem_references_of_next? {e : Entry} {target : EntryId}
    (h : e.next? = some target) : target ∈ e.references := by
  unfold next? at h
  unfold references
  split at h <;> simp_all

namespace Survey

variable {source : Source}

/-! ## Chains of references -/

theorem Wraps.next? {e : Entry} {target : Option EntryId} (h : Wraps e target) :
    e.next? = target := by
  cases h <;> simp [Entry.next?, *]

theorem next?_of_unnamed {p : Progress} {e : Entry} (h : unnamed p e = true) : e.next? = none := by
  unfold unnamed Entry.awaitsName at h
  unfold Entry.next?
  split at h <;> simp_all

theorem next?_typedef {e : Entry} {target : Option EntryId} (h : e.kind = .typedef target) :
    e.next? = target := by
  simp [Entry.next?, h]

/-- The chain from an id ends after that many references or fewer. -/
inductive EndsWithin (source : Source) : (hops : Nat) → EntryId → Prop
  | stop {hops : Nat} {id : EntryId} {e : Entry} : source.find? id = some e → e.next? = none →
    EndsWithin source hops id
  | hop {hops : Nat} {id target : EntryId} {e : Entry} : source.find? id = some e →
    e.next? = some target → EndsWithin source hops target → EndsWithin source (hops + 1) id

/-- The chain from an id comes by an entry. -/
inductive ComesBy (source : Source) : EntryId → Entry → Prop
  | here {id : EntryId} {e : Entry} : source.find? id = some e → ComesBy source id e
  | next {id target : EntryId} {e later : Entry} : source.find? id = some e →
    e.next? = some target → ComesBy source target later → ComesBy source id later

theorem EndsWithin.congr {hops : Nat} {id other : EntryId} {e : Entry}
    (h : EndsWithin source hops id) (hid : source.find? id = some e)
    (hother : source.find? other = some e) : EndsWithin source hops other := by
  cases h with
  | stop hfind hnext =>
    cases hid.symm.trans hfind
    exact .stop hother hnext
  | hop hfind hnext later =>
    cases hid.symm.trans hfind
    exact .hop hother hnext later

theorem ComesBy.congr {id other : EntryId} {e later : Entry} (h : ComesBy source id later)
    (hid : source.find? id = some e) (hother : source.find? other = some e) :
    ComesBy source other later := by
  cases h with
  | here hfind =>
    cases hid.symm.trans hfind
    exact .here hother
  | next hfind hnext later =>
    cases hid.symm.trans hfind
    exact .next hother hnext later

theorem EndsWithin.found {hops : Nat} {id : EntryId} (h : EndsWithin source hops id) :
    ∃ e, source.find? id = some e := by
  cases h with
  | stop hfind => exact ⟨_, hfind⟩
  | hop hfind => exact ⟨_, hfind⟩

theorem EndsWithin.mono {hops more : Nat} {id : EntryId} (h : EndsWithin source hops id)
    (hle : hops ≤ more) : EndsWithin source more id := by
  induction h generalizing more with
  | stop hfind hnext => exact .stop hfind hnext
  | hop hfind hnext _ ih =>
    obtain ⟨more, rfl⟩ : ∃ n, more = n + 1 := ⟨more - 1, by omega⟩
    exact .hop hfind hnext (ih (by omega))

/-- A chain that goes on from an entry ends one reference sooner from the next. -/
theorem EndsWithin.next {hops : Nat} {id target : EntryId} {e : Entry}
    (h : EndsWithin source hops id) (hfind : source.find? id = some e)
    (hnext : e.next? = some target) :
    ∃ fewer, hops = fewer + 1 ∧ EndsWithin source fewer target := by
  cases h with
  | stop hother hnone =>
    cases hfind.symm.trans hother
    rw [hnext] at hnone
    cases hnone
  | hop hother hsome later =>
    cases hfind.symm.trans hother
    cases hnext.symm.trans hsome
    exact ⟨_, rfl, later⟩

theorem ComesBy.reaches {id : EntryId} {e : Entry} (h : ComesBy source id e)
    (hid : source.Reachable id) : source.Reaches e := by
  induction h with
  | here hfind => exact ⟨_, hid, hfind⟩
  | next hfind hnext _ ih => exact ih (.step hid hfind (Entry.mem_references_of_next? hnext))

/-- What lies behind qualifiers is on the chain. -/
theorem Strips.comesBy {id : EntryId} {behind : Option Entry} (h : Strips source id behind)
    {e : Entry} (he : behind = some e) : ComesBy source id e := by
  induction h with
  | stop hfind =>
    cases he
    exact .here hfind
  | skip hfind hkind _ ih => exact .next hfind (Wraps.qualified hkind).next? (ih he)
  | void => cases he

/-- A chain that comes by an entry goes on from there as from the entry's own id. -/
theorem ComesBy.trans {id : EntryId} {e later : Entry} (h : ComesBy source id e)
    (own : source.find? e.id = some e) (hlater : ComesBy source e.id later) :
    ComesBy source id later := by
  induction h with
  | here hfind => exact hlater.congr own hfind
  | next hfind hnext _ ih => exact .next hfind hnext (ih own hlater)

/-- The goal of a member's type is on the chain from it. -/
theorem Leads.comesBy {crossed : Bool} {id : EntryId} {extents : List Nat} {pointers : Nat}
    {goal? : Option EntryId} (h : Leads source crossed id extents pointers goal?) {goal : EntryId}
    (hgoal : goal? = some goal) {e : Entry} (he : ComesBy source goal e) : ComesBy source id e := by
  induction h with
  | stop => exact Option.some.inj hgoal ▸ he
  | qualified hfind hkind _ ih => exact .next hfind (Wraps.qualified hkind).next? (ih hgoal)
  | qualifiedVoid => cases hgoal
  | array hfind hkind _ ih => exact .next hfind (Wraps.array hkind).next? (ih hgoal)
  | pointer hfind hkind _ ih => exact .next hfind (Wraps.pointer hkind).next? (ih hgoal)
  | pointerVoid => cases hgoal

/-! ## Nests -/

/-- An id at which a walk goes on while an entry is open. -/
def Starts (source : Source) (e : Entry) (id : EntryId) : Prop :=
  ∃ b, Lends source e b ∧ id ∈ b.references

theorem reachable_of_starts {e : Entry} {id : EntryId} (he : source.Reaches e)
    (h : Starts source e id) : source.Reachable id := by
  obtain ⟨b, hlends, hid⟩ := h
  obtain ⟨under, hreach, hfind⟩ := he
  cases hlends with
  | own => exact .step hreach hfind hid
  | typedef hkind hstrips =>
    have htarget : source.Reachable _ :=
      .step hreach hfind (Entry.mem_references_of_next? (next?_typedef hkind))
    obtain ⟨other, hother, hb⟩ := (hstrips.comesBy rfl).reaches htarget
    exact .step hother hb hid

/-- Entries that can be open at once, the latest first: each can be come by from the one before it,
and none twice. -/
inductive Nested (source : Source) : List Entry → Prop
  | none : Nested source []
  | outer {e : Entry} : source.Reaches e → e.opens → Nested source [e]
  | inner {e outer : Entry} {nest : List Entry} {start : EntryId} :
    Nested source (outer :: nest) → Starts source outer start → ComesBy source start e →
    e.opens → e.id ∉ (outer :: nest).map Entry.id → Nested source (e :: outer :: nest)

theorem Nested.reaches {nest : List Entry} (h : Nested source nest) :
    ∀ e ∈ nest, source.Reaches e := by
  induction h with
  | none => exact fun _ he => absurd he List.not_mem_nil
  | outer hreaches => simpa using hreaches
  | inner _ hstart hcomes _ _ ih =>
    have start := reachable_of_starts (ih _ List.mem_cons_self) hstart
    exact List.forall_mem_cons.mpr ⟨hcomes.reaches start, ih⟩

theorem Nested.opens {nest : List Entry} (h : Nested source nest) : ∀ e ∈ nest, e.opens := by
  induction h with
  | none => exact fun _ he => absurd he List.not_mem_nil
  | outer _ hopens => simpa using hopens
  | inner _ _ _ hopens _ ih => exact List.forall_mem_cons.mpr ⟨hopens, ih⟩

theorem Nested.once {nest : List Entry} (h : Nested source nest) : (nest.map Entry.id).Nodup := by
  induction h with
  | none => exact List.nodup_nil
  | outer => exact List.nodup_singleton _
  | inner _ _ _ _ hnot ih => exact List.nodup_cons.mpr ⟨hnot, ih⟩

/-- No nest is longer than there are compounds and typedefs. -/
theorem Nested.length_le {nest : List Entry} (h : Nested source nest) {ids : List EntryId}
    (hids : ∀ e, source.Reaches e → e.opens → e.id ∈ ids) : nest.length ≤ ids.length := by
  rw [← List.length_map Entry.id]
  refine h.once.length_le_of_subset fun id hid => ?_
  obtain ⟨e, he, rfl⟩ := List.mem_map.mp hid
  exact hids e (h.reaches e he) (h.opens e he)

/-- A walk at an id with a nest open: what the chain comes by is reached, and can be opened inside
of the nest where it is not in it. -/
structure Stands (source : Source) (nest : List Entry) (id : EntryId) : Prop where
  reached : ∀ e, ComesBy source id e → source.Reaches e
  inside : ∀ e, ComesBy source id e → e.opens → e.id ∉ nest.map Entry.id →
    Nested source (e :: nest)

theorem Stands.mono {nest : List Entry} {id other : EntryId} (h : Stands source nest id)
    (hsub : ∀ e, ComesBy source other e → ComesBy source id e) : Stands source nest other where
  reached e he := h.reached e (hsub e he)
  inside e he := h.inside e (hsub e he)

theorem Stands.next {nest : List Entry} {id target : EntryId} {e : Entry}
    (h : Stands source nest id) (hfind : source.find? id = some e)
    (hnext : e.next? = some target) : Stands source nest target :=
  h.mono fun _ => .next hfind hnext

theorem stands_outer {id : EntryId} (h : source.Reachable id) : Stands source [] id where
  reached _ he := he.reaches h
  inside _ he hopens _ := .outer (he.reaches h) hopens

/-- From an entry that was opened the walk goes on inside of it. -/
theorem stands_inner {nest : List Entry} {e : Entry} {id : EntryId}
    (nested : Nested source (e :: nest)) (he : source.Reaches e) (h : Starts source e id) :
    Stands source (e :: nest) id where
  reached _ hlater := hlater.reaches (reachable_of_starts he h)
  inside _ hlater hopens hnot := .inner nested h hlater hopens hnot

/-- A source with short chains, sizes for its compounds, and few entries open at once. -/
structure Shallow (source : Source) (hops depth : Nat) : Prop where
  ends : ∀ id, source.Reachable id → EndsWithin source hops id
  sized : ∀ e, source.Reaches e → ∀ kind members declaration,
    e.kind = .compound kind members declaration → e.byteSize.isSome
  nests : ∀ nest, Nested source nest → nest.length ≤ depth

end Survey

end LayoutGraph
