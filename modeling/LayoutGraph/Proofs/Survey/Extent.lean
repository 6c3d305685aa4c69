-- The exact size of a type, and the size that a walk computes for it. Both
-- are read off the same entries. The exact size is a natural number without
-- a limit. The computed one stops at the greatest word after each sum and
-- each product, and a product with zero can still bring it back from there.
import Mathlib.Algebra.BigOperators.Group.List.Basic
import Mathlib.Algebra.Order.Group.Nat
import Mathlib.Data.List.Fold
import LayoutGraph.Proofs.Survey.Reference

namespace LayoutGraph

/-! ## Arithmetic that stops at the greatest word -/

namespace Word

theorem add_clamp (a b : Nat) : add a (clamp b) = clamp (a + b) := by
  unfold add clamp
  omega

theorem max_clamp (a b : Nat) : max (clamp a) (clamp b) = clamp (max a b) := by
  unfold clamp
  omega

/-- A factor that is at least one lowers nothing, and zero gives zero in both orders. -/
theorem clamp_mul (a b : Nat) : mul (clamp a) b = clamp (a * b) := by
  by_cases ha : a ≤ greatest
  · rw [clamp_eq ha, mul]
  · rcases Nat.eq_zero_or_pos b with rfl | hb
    · rfl
    · have hexact : a ≤ a * b := Nat.le_mul_of_pos_right a hb
      have hstopped : greatest ≤ clamp a * b := by
        have : clamp a = greatest := by
          unfold clamp
          omega
        rw [this]
        exact Nat.le_mul_of_pos_right greatest hb
      unfold mul
      unfold clamp at hstopped ⊢
      omega

theorem mul_clamp (a b : Nat) : mul (clamp a) (clamp b) = clamp (a * b) := by
  rw [clamp_mul, Nat.mul_comm, ← mul, clamp_mul, Nat.mul_comm]

theorem foldl_mul_clamp (factors : List Nat) (start : Nat) :
    factors.foldl mul (clamp start) = clamp (start * factors.prod) := by
  induction factors generalizing start with
  | nil => simp
  | cons n rest ih => rw [List.foldl_cons, clamp_mul, ih, List.prod_cons, Nat.mul_assoc]

theorem foldr_max_clamp {α : Type} (f : α → Nat) (l : List α) :
    (l.map fun a => clamp (f a)).foldr max 0 = clamp ((l.map f).foldr max 0) := by
  induction l with
  | nil => rfl
  | cons a rest ih => rw [List.map_cons, List.foldr_cons, ih, max_clamp]; rfl

end Word

/-! ## The exact size -/

/-- Where a member ends. A bit-field ends with its last bit, in bytes and rounded up, and any other
member with the last byte of its type, which has the given size. -/
def Member.reach (m : Member) (size : Nat) : Nat :=
  match m.bitSize with
  | some bits => (8 * m.byteOffset + m.bitOffset.getD 0 + bits + 7) / 8
  | none => m.byteOffset + size

/-- What a typedef or a qualifier stands around. -/
def Entry.wrapped? (e : Entry) : Option EntryId :=
  match e.kind with
  | .typedef target | .qualified target => target
  | _ => none

/-- An entry of which only the recorded size counts. -/
def Entry.plain (e : Entry) : Bool :=
  match e.kind with
  | .base | .enumeration _ | .pointer _ | .typedef none | .qualified none => true
  | .compound .. | .array .. | .typedef (some _) | .qualified (some _) => false

/-- The ids whose sizes go into the size of an entry. -/
def Entry.measured (e : Entry) : List EntryId :=
  match e.kind with
  | .base | .enumeration _ | .pointer _ => []
  | .compound _ members _ => (members.filter fun m => m.bitSize.isNone).map Member.type
  | .array element _ => [element]
  | .typedef target | .qualified target => target.toList

namespace Survey

/-- The exact size of the type `id`, in bytes: the size that its entry records, or else what the
sizes of its members, its elements or its target come to. -/
inductive Spans (source : Source) : EntryId → Nat → Prop
  | recorded {id : EntryId} {e : Entry} {size : Nat} : source.find? id = some e →
    e.byteSize = some size → Spans source id size
  | plain {id : EntryId} {e : Entry} : source.find? id = some e → e.byteSize = none → e.plain →
    Spans source id 0
  | target {id target : EntryId} {e : Entry} {size : Nat} : source.find? id = some e →
    e.byteSize = none → e.wrapped? = some target → Spans source target size → Spans source id size
  | array {id element : EntryId} {e : Entry} {extents : List Nat} {size : Nat} :
    source.find? id = some e → e.byteSize = none → e.kind = .array element extents →
    Spans source element size → Spans source id (size * extents.prod)
  | compound {id : EntryId} {e : Entry} {kind : CompoundKind} {members : List Member}
    {declaration : Bool} (size : Member → Nat) : source.find? id = some e → e.byteSize = none →
    e.kind = .compound kind members declaration →
    (∀ m ∈ members, m.bitSize = none → Spans source m.type (size m)) →
    Spans source id ((members.map fun m => m.reach (size m)).foldr max 0)

/-- The entries that the size of `id` is read from: none behind an entry that records its size. -/
inductive Reads (source : Source) : EntryId → Entry → Prop
  | own {id : EntryId} {e : Entry} : source.find? id = some e → Reads source id e
  | behind {id target : EntryId} {e f : Entry} : source.find? id = some e → e.byteSize = none →
    target ∈ e.measured → Reads source target f → Reads source id f

variable {source : Source}

theorem Reads.found {id : EntryId} {e : Entry} (h : Reads source id e) :
    ∃ other, source.find? other = some e := by
  induction h with
  | own hfind => exact ⟨_, hfind⟩
  | behind _ _ _ _ ih => exact ih

/-- A type has one exact size. -/
theorem Spans.unique {id : EntryId} {a b : Nat} (ha : Spans source id a) (hb : Spans source id b) :
    a = b := by
  induction ha generalizing b with
  | recorded hfind hsize => cases hb <;> simp_all
  | plain hfind hsize hplain => cases hb <;> grind [Entry.plain, Entry.wrapped?]
  | target hfind hsize hwrapped _ ih =>
    cases hb with
    | target hfind' _ hwrapped' h' =>
      cases hfind.symm.trans hfind'
      cases hwrapped.symm.trans hwrapped'
      exact ih h'
    | _ => grind [Entry.plain, Entry.wrapped?]
  | array hfind hsize hkind _ ih =>
    cases hb with
    | array hfind' _ hkind' h' =>
      cases hfind.symm.trans hfind'
      cases hkind.symm.trans hkind'
      rw [ih h']
    | _ => grind [Entry.plain, Entry.wrapped?]
  | compound size hfind hsize hkind _ ih =>
    cases hb with
    | compound size' hfind' _ hkind' h' =>
      cases hfind.symm.trans hfind'
      cases hkind.symm.trans hkind'
      congr 1
      refine List.map_congr_left fun m hm => ?_
      unfold Member.reach
      split
      · rfl
      · rw [ih m hm ‹_› (h' m hm ‹_›)]
    | _ => grind [Entry.plain, Entry.wrapped?]

theorem measured_of_wrapped {e : Entry} {target : EntryId} (h : e.wrapped? = some target) :
    target ∈ e.measured := by
  unfold Entry.wrapped? at h
  unfold Entry.measured
  split at h <;> simp_all

theorem measured_of_member {e : Entry} {kind : CompoundKind} {members : List Member}
    {declaration : Bool} {m : Member} (hkind : e.kind = .compound kind members declaration)
    (hm : m ∈ members) (hbits : m.bitSize = none) : m.type ∈ e.measured := by
  simp only [Entry.measured, hkind, List.mem_map, List.mem_filter]
  exact ⟨m, ⟨hm, by simp [hbits]⟩, rfl⟩

/-! ## The computed size -/

/-- What a member adds to the size of its compound. -/
def memberEnd (source : Source) (room : Nat) (m : Member) : Except Failure Nat :=
  match m.bitSize with
  | some bits => .ok (bitEnd m bits)
  | none => do
    let size ← sizeOf source room m.type
    return Word.add m.byteOffset size

theorem memberEnd_eq_ok {room n : Nat} {m : Member} (h : memberEnd source room m = .ok n) :
    (∃ bits, m.bitSize = some bits ∧ n = bitEnd m bits) ∨
      m.bitSize = none ∧ ∃ size, sizeOf source room m.type = .ok size ∧
        n = Word.add m.byteOffset size := by
  unfold memberEnd at h
  cases hbits : m.bitSize with
  | some bits =>
    rw [hbits] at h
    exact .inl ⟨bits, rfl, (Except.ok.inj h).symm⟩
  | none =>
    rw [hbits] at h
    cases hsub : sizeOf source room m.type with
    | error failure =>
      rw [hsub] at h
      cases h
    | ok size =>
      rw [hsub] at h
      exact .inr ⟨rfl, size, rfl, (Except.ok.inj h).symm⟩

/-- A loop that keeps the greatest result goes well where each call does. -/
theorem foldlM_max {α : Type} {f : α → Except Failure Nat} {l : List α} {start last : Nat}
    (h : l.foldlM (fun extent a => do return max extent (← f a)) start = .ok last) :
    ∃ g : α → Nat, (∀ a ∈ l, f a = .ok (g a)) ∧ last = (l.map g).foldl max start := by
  refine ⟨fun a => (f a).toOption.getD 0, ?_⟩
  induction l generalizing start with
  | nil =>
    cases h
    exact ⟨nofun, rfl⟩
  | cons a rest ih =>
    rw [List.foldlM_cons] at h
    cases hone : f a with
    | error e =>
      rw [hone] at h
      cases h
    | ok n =>
      rw [hone] at h
      obtain ⟨hrest, hlast⟩ := ih h
      refine ⟨?_, ?_⟩
      · rintro b (_ | ⟨_, hb⟩)
        · simp [hone, Except.toOption]
        · exact hrest b hb
      · simp [hlast, hone, Except.toOption]

theorem sizeOf_of_compound {room n : Nat} {members : List Member}
    (h : members.foldlM (fun extent m =>
      match m.bitSize with
      | some bits => return max extent (bitEnd m bits)
      | none => do
        let size ← sizeOf source room m.type
        return max extent (Word.add m.byteOffset size)) 0 = .ok n) :
    ∃ ends : Member → Nat, (∀ m ∈ members, memberEnd source room m = .ok (ends m)) ∧
      n = (members.map ends).foldr max 0 := by
  have hloop : members.foldlM
      (fun extent m => do return max extent (← memberEnd source room m)) 0 = .ok n := by
    rw [← h]
    congr 1
    funext extent m
    unfold memberEnd
    cases m.bitSize with
    | some bits => rfl
    | none => cases sizeOf source room m.type <;> rfl
  obtain ⟨ends, hends, hlast⟩ := foldlM_max hloop
  rw [List.foldl_eq_foldr] at hlast
  exact ⟨ends, hends, hlast⟩

/-- What a computed size can come from. -/
theorem sizeOf_eq_ok {room : Nat} {id : EntryId} {n : Nat} (h : sizeOf source room id = .ok n) :
    ∃ left e, room = left + 1 ∧ source.find? id = some e ∧ (e.byteSize = some n ∨
      e.byteSize = none ∧ (e.plain ∧ n = 0 ∨
        (∃ target, e.wrapped? = some target ∧ sizeOf source left target = .ok n) ∨
        (∃ element extents size, e.kind = .array element extents ∧
          sizeOf source left element = .ok size ∧ n = Word.mul size (elementCount extents)) ∨
        ∃ kind members declaration, ∃ ends : Member → Nat,
          e.kind = .compound kind members declaration ∧
          (∀ m ∈ members, memberEnd source left m = .ok (ends m)) ∧
          n = (members.map ends).foldr max 0)) := by
  cases room with
  | zero => cases h
  | succ left =>
    unfold sizeOf at h
    cases hentry : source.entry id with
    | error e =>
      rw [hentry] at h
      cases h
    | ok e =>
      rw [hentry] at h
      dsimp only [bind, Except.bind] at h
      refine ⟨left, e, rfl, entry_eq_ok.mp hentry, ?_⟩
      cases hsize : e.byteSize with
      | some size =>
        rw [hsize] at h
        exact .inl (congrArg some (Except.ok.inj h))
      | none =>
        rw [hsize] at h
        refine .inr ⟨rfl, ?_⟩
        rcases e with ⟨id, name, size, kind⟩
        dsimp only at h
        cases kind with
        | base | enumeration | pointer => exact .inl ⟨rfl, (Except.ok.inj h).symm⟩
        | compound kind members declaration =>
          obtain ⟨ends, hends, hn⟩ := sizeOf_of_compound h
          exact .inr (.inr (.inr ⟨kind, members, declaration, ends, rfl, hends, hn⟩))
        | array element extents =>
          dsimp only at h
          cases hsub : sizeOf source left element with
          | error e =>
            rw [hsub] at h
            cases h
          | ok size =>
            rw [hsub] at h
            exact .inr (.inr (.inl ⟨element, extents, size, rfl, hsub, (Except.ok.inj h).symm⟩))
        | typedef target | qualified target =>
          cases target with
          | none => exact .inl ⟨rfl, (Except.ok.inj h).symm⟩
          | some target => exact .inr (.inl ⟨target, rfl, h⟩)

theorem elementCount_eq (extents : List Nat) : elementCount extents = Word.clamp extents.prod := by
  have h := Word.foldl_mul_clamp extents 1
  rwa [Word.clamp_eq (by decide), Nat.one_mul] at h

/-- The bit-fields of an entry end at bits whose numbers are words. -/
def BitsFit (e : Entry) : Prop :=
  ∀ kind members declaration, e.kind = .compound kind members declaration →
    ∀ m ∈ members, ∀ bits, m.bitSize = some bits →
      8 * m.byteOffset + m.bitOffset.getD 0 + bits < Word.count

/-- A bit-field whose last bit has a word for its number ends where it ends exactly. -/
theorem bitEnd_eq {m : Member} {bits size : Nat} (hbits : m.bitSize = some bits)
    (fits : 8 * m.byteOffset + m.bitOffset.getD 0 + bits < Word.count) :
    bitEnd m bits = Word.clamp (m.reach size) := by
  have hreach : m.reach size = (8 * m.byteOffset + m.bitOffset.getD 0 + bits + 7) / 8 := by
    unfold Member.reach
    rw [hbits]
  have hword : Word.add (Word.add (Word.mul m.byteOffset 8) (m.bitOffset.getD 0)) bits =
      8 * m.byteOffset + m.bitOffset.getD 0 + bits := by
    unfold Word.add Word.mul Word.clamp Word.greatest
    omega
  rw [hreach, bitEnd, hword, Word.clamp_eq]
  unfold Word.greatest
  omega

/-- Where a size is computed it is the exact size, or the greatest word if the exact size is above
that. -/
theorem spans_of_sizeOf {room : Nat} {id : EntryId} {n : Nat}
    (words : ∀ e, Reads source id e → ∀ size ∈ e.byteSize, size ≤ Word.greatest)
    (fits : ∀ e, Reads source id e → e.byteSize = none → BitsFit e)
    (h : sizeOf source room id = .ok n) : ∃ s, Spans source id s ∧ n = Word.clamp s := by
  induction room generalizing id n with
  | zero => cases h
  | succ room ih =>
    obtain ⟨_, e, heq, hfind, hcases⟩ := sizeOf_eq_ok h
    cases heq
    rcases hcases with hsize | ⟨hsize, hcases⟩
    · exact ⟨n, .recorded hfind hsize, (Word.clamp_eq (words e (.own hfind) n hsize)).symm⟩
    -- What the size of an id behind this one reads, the size of this one reads.
    have behind : ∀ target ∈ e.measured, ∀ n, sizeOf source room target = .ok n →
        ∃ s, Spans source target s ∧ n = Word.clamp s := fun target htarget n hsub =>
      ih (fun f hf => words f (.behind hfind hsize htarget hf))
        (fun f hf => fits f (.behind hfind hsize htarget hf)) hsub
    rcases hcases with ⟨hplain, rfl⟩ | ⟨target, hwrapped, hsub⟩ |
      ⟨element, extents, size, hkind, hsub, rfl⟩ |
      ⟨kind, members, declaration, ends, hkind, hends, rfl⟩
    · exact ⟨0, .plain hfind hsize hplain, rfl⟩
    · obtain ⟨s, hs, rfl⟩ := behind target (measured_of_wrapped hwrapped) n hsub
      exact ⟨s, .target hfind hsize hwrapped hs, rfl⟩
    · obtain ⟨s, hs, rfl⟩ := behind element (by simp [Entry.measured, hkind]) size hsub
      refine ⟨s * extents.prod, .array hfind hsize hkind hs, ?_⟩
      rw [elementCount_eq, Word.mul_clamp]
    · have member : ∀ m ∈ members, ∃ s, (m.bitSize = none → Spans source m.type s) ∧
          ends m = Word.clamp (m.reach s) := by
        intro m hm
        rcases memberEnd_eq_ok (hends m hm) with ⟨bits, hbits, hend⟩ | ⟨hbits, size, hsub, hend⟩
        · have hexact : bitEnd m bits = Word.clamp (m.reach 0) :=
            bitEnd_eq hbits (fits e (.own hfind) hsize _ _ _ hkind m hm bits hbits)
          refine ⟨0, fun hnone => ?_, hend.trans hexact⟩
          cases hbits.symm.trans hnone
        · obtain ⟨s, hs, rfl⟩ := behind m.type (measured_of_member hkind hm hbits) size hsub
          exact ⟨s, fun _ => hs, by rw [hend, Word.add_clamp, Member.reach, hbits]⟩
      choose! s hs hend using member
      refine ⟨_, .compound s hfind hsize hkind hs, ?_⟩
      rw [← Word.foldr_max_clamp, List.map_congr_left hend]

end Survey

end LayoutGraph
