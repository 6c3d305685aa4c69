-- The sizes that a walk computes. A computed size is the exact size of the
-- type, or the greatest word where the exact size is above it. No step of the
-- computation leaves the words of 64 bits: the same steps on words whose sums
-- and products wrap give the same size.
import LayoutGraph.Proofs.Survey.Extent

namespace LayoutGraph

/-! ## Machine words -/

namespace Word

/-- A sum of machine words that stops at the greatest one. A sum that wraps is below its parts. -/
def addWords (a b : UInt64) : UInt64 := if a + b < a then .ofNat greatest else a + b

/-- A product of machine words that stops at the greatest one. A product that wraps does not give
its first factor back when it is divided by the other. -/
def mulWords (a b : UInt64) : UInt64 :=
  if b ≠ 0 ∧ a * b / b ≠ a then .ofNat greatest else a * b

/-- That many bits in bytes, rounded up without a sum before the division. -/
def bytesFor (bits : UInt64) : UInt64 := if bits % 8 = 0 then bits / 8 else bits / 8 + 1

theorem toNat_ofNat_of_le {n : Nat} (h : n ≤ greatest) : (UInt64.ofNat n).toNat = n := by
  unfold greatest count at h
  rw [UInt64.toNat_ofNat', Nat.mod_eq_of_lt (by omega)]

theorem toNat_addWords (a b : UInt64) : (addWords a b).toNat = add a.toNat b.toNat := by
  have ha := a.toNat_lt
  have hb := b.toNat_lt
  unfold addWords add clamp
  split
  · rename_i hwraps
    rw [UInt64.lt_iff_toNat_lt, UInt64.toNat_add] at hwraps
    rw [toNat_ofNat_of_le le_rfl]
    unfold greatest count
    omega
  · rename_i hexact
    rw [UInt64.lt_iff_toNat_lt, UInt64.toNat_add] at hexact
    rw [UInt64.toNat_add]
    unfold greatest count
    omega

theorem toNat_mulWords (a b : UInt64) : (mulWords a b).toNat = mul a.toNat b.toNat := by
  have ha := a.toNat_lt
  unfold mulWords mul clamp
  have hquotient : a * b / b = a ↔ a.toNat * b.toNat % 2 ^ 64 / b.toNat = a.toNat := by
    rw [← UInt64.toNat_inj, UInt64.toNat_div, UInt64.toNat_mul]
  by_cases hfits : a.toNat * b.toNat < 2 ^ 64
  · rw [if_neg, UInt64.toNat_mul, Nat.mod_eq_of_lt hfits]
    · unfold greatest count
      omega
    · rintro ⟨hb, hne⟩
      rw [Ne, hquotient, Nat.mod_eq_of_lt hfits] at hne
      refine hne (Nat.mul_div_cancel _ (Nat.pos_of_ne_zero fun hzero => hb ?_))
      exact UInt64.toNat_inj.mp hzero
  · have hb : b.toNat ≠ 0 := by
      intro hzero
      rw [hzero] at hfits
      omega
    rw [if_pos, toNat_ofNat_of_le le_rfl]
    · unfold greatest count
      omega
    · refine ⟨fun hzero => hb (by rw [hzero]; rfl), fun hback => ?_⟩
      have hle := Nat.div_mul_le_self (a.toNat * b.toNat % 2 ^ 64) b.toNat
      rw [hquotient.mp hback] at hle
      have := Nat.mod_lt (a.toNat * b.toNat) (y := 2 ^ 64) (by decide)
      omega

theorem toNat_bytesFor (bits : UInt64) : (bytesFor bits).toNat = (bits.toNat + 7) / 8 := by
  have hlt := bits.toNat_lt
  have hmod : bits % 8 = 0 ↔ bits.toNat % 8 = 0 := by
    rw [← UInt64.toNat_inj, UInt64.toNat_mod]
    rfl
  unfold bytesFor
  split
  · rename_i hwhole
    rw [UInt64.toNat_div, show (8 : UInt64).toNat = 8 from rfl]
    have := hmod.mp hwhole
    omega
  · rename_i hpart
    rw [UInt64.toNat_add, UInt64.toNat_div, show (8 : UInt64).toNat = 8 from rfl,
      show (1 : UInt64).toNat = 1 from rfl]
    have := mt hmod.mpr hpart
    omega

end Word

/-! ## Sizes in machine words -/

/-- The numbers of an entry are words. -/
structure Entry.InWords (e : Entry) : Prop where
  byteSize : ∀ size ∈ e.byteSize, size ≤ Word.greatest
  members : ∀ kind members declaration, e.kind = .compound kind members declaration →
    ∀ m ∈ members, m.byteOffset ≤ Word.greatest ∧ (∀ bits ∈ m.bitSize, bits ≤ Word.greatest) ∧
      m.bitOffset.getD 0 ≤ Word.greatest
  extents : ∀ element extents, e.kind = .array element extents → ∀ n ∈ extents, n ≤ Word.greatest

namespace Survey

/-- The end of a bit-field, computed in machine words. -/
def bitEndWord (m : Member) (bits : Nat) : UInt64 :=
  Word.bytesFor (Word.addWords
    (Word.addWords (Word.mulWords (.ofNat m.byteOffset) 8) (.ofNat (m.bitOffset.getD 0)))
    (.ofNat bits))

/-- The number of elements of an array, computed in machine words. -/
def elementCountWord (extents : List Nat) : UInt64 :=
  extents.foldl (fun count n => Word.mulWords count (.ofNat n)) 1

/-- The size of a type, computed in machine words. -/
def sizeWord (source : Source) : (room : Nat) → EntryId → Except Failure UInt64
  | 0, id => .error (tooDeep id)
  | room + 1, id => do
    let entry ← source.entry id
    match entry.byteSize with
    | some size => return .ofNat size
    | none =>
      match entry.kind with
      | .base | .enumeration _ | .pointer _ => return 0
      | .compound _ members _ =>
        members.foldlM (fun extent m =>
          match m.bitSize with
          | some bits => return max extent (bitEndWord m bits)
          | none => do
            let size ← sizeWord source room m.type
            return max extent (Word.addWords (.ofNat m.byteOffset) size)) 0
      | .array element extents => do
        let size ← sizeWord source room element
        return Word.mulWords size (elementCountWord extents)
      | .typedef (some target) | .qualified (some target) => sizeWord source room target
      | .typedef none | .qualified none => return 0

variable {source : Source}

theorem toNat_bitEndWord {m : Member} {bits : Nat} (offset : m.byteOffset ≤ Word.greatest)
    (size : bits ≤ Word.greatest) (place : m.bitOffset.getD 0 ≤ Word.greatest) :
    (bitEndWord m bits).toNat = bitEnd m bits := by
  unfold bitEndWord bitEnd
  rw [Word.toNat_bytesFor, Word.toNat_addWords, Word.toNat_addWords, Word.toNat_mulWords,
    Word.toNat_ofNat_of_le offset, Word.toNat_ofNat_of_le size, Word.toNat_ofNat_of_le place]
  rfl

theorem toNat_elementCountWord {extents : List Nat} (words : ∀ n ∈ extents, n ≤ Word.greatest) :
    (elementCountWord extents).toNat = elementCount extents := by
  unfold elementCountWord elementCount
  rw [show 1 = (1 : UInt64).toNat from rfl]
  generalize (1 : UInt64) = count
  induction extents generalizing count with
  | nil => rfl
  | cons n rest ih =>
    rw [List.foldl_cons, List.foldl_cons, ih fun k hk => words k (.tail n hk),
      Word.toNat_mulWords, Word.toNat_ofNat_of_le (words n (.head rest))]

theorem toNat_max (a b : UInt64) : (max a b).toNat = max a.toNat b.toNat := by
  change (if a ≤ b then b else a).toNat = max a.toNat b.toNat
  by_cases h : a ≤ b
  · rw [if_pos h, max_eq_right (UInt64.le_iff_toNat_le.mp h)]
  · rw [if_neg h, max_eq_left]
    rw [UInt64.le_iff_toNat_le] at h
    omega

/-- Two loops stay together where each of their steps does. -/
theorem foldlM_map {α β γ : Type} {f : β → α → Except Failure β} {g : γ → α → Except Failure γ}
    (number : γ → β) {l : List α}
    (h : ∀ c, ∀ a ∈ l, f (number c) a = (g c a).map number) (start : γ) :
    l.foldlM f (number start) = (l.foldlM g start).map number := by
  induction l generalizing start with
  | nil => rfl
  | cons a rest ih =>
    rw [List.foldlM_cons, List.foldlM_cons, h start a (.head rest)]
    cases g start a with
    | error e => rfl
    | ok c => exact ih (fun c b hb => h c b (.tail a hb)) c

/-- Where the entries hold words, a size computed in machine words is the size. -/
theorem sizeOf_eq_sizeWord {room : Nat} {id : EntryId}
    (words : ∀ e, Reads source id e → e.InWords) :
    sizeOf source room id = (sizeWord source room id).map UInt64.toNat := by
  induction room generalizing id with
  | zero => rfl
  | succ room ih =>
    unfold sizeOf sizeWord
    cases hentry : source.entry id with
    | error failure => rfl
    | ok e =>
      have hfind := entry_eq_ok.mp hentry
      have own := words e (.own hfind)
      dsimp only [bind, Except.bind, pure, Except.pure]
      cases hsize : e.byteSize with
      | some size => exact congrArg Except.ok (Word.toNat_ofNat_of_le (own.byteSize _ hsize)).symm
      | none =>
        have behind : ∀ target ∈ e.measured,
            sizeOf source room target = (sizeWord source room target).map UInt64.toNat :=
          fun target htarget => ih fun f hf => words f (.behind hfind hsize htarget hf)
        cases hkind : e.kind with
        | base => rfl
        | enumeration constants => rfl
        | pointer target => rfl
        | compound kind members declaration =>
          dsimp only
          refine foldlM_map UInt64.toNat (fun extent m hm => ?_) 0
          obtain ⟨hoffset, hbits, hplace⟩ := own.members _ _ _ hkind m hm
          cases hsome : m.bitSize with
          | some bits =>
            refine congrArg Except.ok ((toNat_max _ _).trans ?_).symm
            rw [toNat_bitEndWord hoffset (hbits _ hsome) hplace]
          | none =>
            dsimp only
            rw [behind m.type (measured_of_member hkind hm hsome)]
            cases sizeWord source room m.type with
            | error failure => rfl
            | ok size =>
              refine congrArg Except.ok ((toNat_max _ _).trans ?_).symm
              rw [Word.toNat_addWords, Word.toNat_ofNat_of_le hoffset]
        | array element extents =>
          dsimp only
          rw [behind element (by simp [Entry.measured, hkind])]
          cases sizeWord source room element with
          | error failure => rfl
          | ok size =>
            refine congrArg Except.ok ((Word.toNat_mulWords _ _).trans ?_).symm
            rw [toNat_elementCountWord (own.extents _ _ hkind)]
        | typedef target =>
          cases target with
          | none => rfl
          | some target => exact behind target (by simp [Entry.measured, hkind])
        | qualified target =>
          cases target with
          | none => rfl
          | some target => exact behind target (by simp [Entry.measured, hkind])

end Survey

/-! ## The law -/

open Survey

/-- Where the computation of a size goes well and the bit-fields that it reads end at bits whose
numbers are words, the type has one exact size, and the computed size is that or the greatest word,
whichever is less. The same steps on machine words, whose sums and products wrap, come to the same
size. -/
theorem a_computed_size_is_the_exact_one_or_the_greatest_word (source : Source) (room : Nat)
    (id : EntryId) (words : ∀ e, Reads source id e → e.InWords)
    (fits : ∀ e, Reads source id e → e.byteSize = none → BitsFit e) (size : Nat)
    (computed : sizeOf source room id = .ok size) :
    (∃ exact, Spans source id exact ∧ (∀ other, Spans source id other → other = exact) ∧
      size = min (2 ^ 64 - 1) exact) ∧
    ∃ word, sizeWord source room id = .ok word ∧ word.toNat = size := by
  obtain ⟨exact, hspans, hsize⟩ :=
    spans_of_sizeOf (fun e he => (words e he).byteSize) fits computed
  refine ⟨⟨exact, hspans, fun other h => h.unique hspans, ?_⟩, ?_⟩
  · rw [hsize, Nat.min_comm]
    rfl
  · rw [sizeOf_eq_sizeWord words] at computed
    cases hword : sizeWord source room id with
    | error failure =>
      rw [hword] at computed
      cases computed
    | ok word =>
      rw [hword] at computed
      exact ⟨word, rfl, Except.ok.inj computed⟩

/-- Two structs without a size. A product of the one stops at the greatest word and then comes to
zero, and one of the other stays there. -/
def hall : Source where
  origin := "hall.o"
  littleEndian := true
  topLevel := [⟨5⟩, ⟨6⟩]
  find? id :=
    if id = ⟨1⟩ then some ⟨id, some "int", some 4, .base⟩
    else if id = ⟨2⟩ then some ⟨id, none, none, .array ⟨1⟩ [2 ^ 40, 2 ^ 40, 0]⟩
    else if id = ⟨3⟩ then some ⟨id, some "Row", none, .typedef (some ⟨2⟩)⟩
    else if id = ⟨4⟩ then some ⟨id, none, none, .array ⟨1⟩ [2 ^ 40, 2 ^ 40]⟩
    else if id = ⟨5⟩ then some ⟨id, some "Empty", none, .compound .struct
      [⟨some "row", 16, ⟨3⟩, none, none⟩, ⟨some "flag", 2 ^ 40, ⟨1⟩, some 7, some 3⟩] false⟩
    else if id = ⟨6⟩ then some ⟨id, some "Full", none, .compound .struct
      [⟨some "floor", 8, ⟨4⟩, none, none⟩, ⟨some "hall", 0, ⟨5⟩, none, none⟩] false⟩
    else none

theorem hall_inWords {id : EntryId} {e : Entry} (h : hall.find? id = some e) :
    e.InWords ∧ BitsFit e := by
  unfold hall at h
  dsimp only at h
  split_ifs at h <;> cases h
  all_goals
    refine ⟨⟨?_, ?_, ?_⟩, ?_⟩ <;> simp [BitsFit, Word.greatest, Word.count]

theorem the_size_of_a_hall_is_clamped :
    sizeOf hall fullRoom ⟨5⟩ = .ok (2 ^ 40 + 2) ∧ Spans hall ⟨5⟩ (2 ^ 40 + 2) ∧
    sizeOf hall fullRoom ⟨6⟩ = .ok (2 ^ 64 - 1) ∧
    ∃ exact, Spans hall ⟨6⟩ exact ∧ 2 ^ 64 - 1 ≤ exact := by
  have law := a_computed_size_is_the_exact_one_or_the_greatest_word hall fullRoom
  have words : ∀ id e, Reads hall id e → e.InWords := fun _ _ h => by
    obtain ⟨_, hfind⟩ := h.found
    exact (hall_inWords hfind).1
  have fits : ∀ id e, Reads hall id e → e.byteSize = none → BitsFit e := fun _ _ h _ => by
    obtain ⟨_, hfind⟩ := h.found
    exact (hall_inWords hfind).2
  have five : sizeOf hall fullRoom ⟨5⟩ = .ok (2 ^ 40 + 2) := by decide +kernel
  have six : sizeOf hall fullRoom ⟨6⟩ = .ok (2 ^ 64 - 1) := by decide +kernel
  obtain ⟨⟨exact, hspans, -, hsize⟩, -⟩ := law ⟨5⟩ (words ⟨5⟩) (fits ⟨5⟩) _ five
  obtain ⟨⟨above, habove, -, hstopped⟩, -⟩ := law ⟨6⟩ (words ⟨6⟩) (fits ⟨6⟩) _ six
  obtain rfl : exact = 2 ^ 40 + 2 := by omega
  exact ⟨five, hspans, six, above, habove, by omega⟩

end LayoutGraph
