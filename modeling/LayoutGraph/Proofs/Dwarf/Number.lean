-- Numbers as constants store them: in a run of bytes of a fixed length, or in
-- LEB128 with a sign or without. A read in the form in which a number is stored
-- finds it.
import Mathlib.Algebra.Group.Nat.Defs
import Mathlib.Algebra.Group.Int.Defs
import Mathlib.Tactic.Ring
import LayoutGraph.Proofs.Dwarf.Ascent

namespace LayoutGraph.Dwarf

open Work

theorem slice?_cons {bytes : Bytes} {start count : Nat} {b : UInt8} {rest : List UInt8}
    (h : Bytes.slice? bytes start (count + 1) = some (b :: rest)) :
    Bytes.slice? bytes start 1 = some [b] ∧ Bytes.slice? bytes (start + 1) count = some rest := by
  unfold Bytes.slice? Bytes.has at h ⊢
  split at h <;> rename_i hroom
  · have hroom : start + (count + 1) ≤ bytes.size := by simpa using hroom
    have hstart : start < bytes.toList.length := by
      rw [Array.length_toList]
      omega
    simp only [Option.some.injEq, Array.toList_extract, List.extract_eq_take_drop,
      Nat.add_sub_cancel_left, List.drop_eq_getElem_cons hstart, List.take_succ_cons,
      List.cons.injEq] at h
    rw [if_pos (by simp; omega), if_pos (by simp; omega)]
    simp only [Option.some.injEq, Array.toList_extract, List.extract_eq_take_drop,
      Nat.add_sub_cancel_left, List.drop_eq_getElem_cons hstart, List.take_succ_cons,
      List.take_zero, List.cons.injEq, and_true]
    exact h
  · cases h

/-! ## Bytes at a cursor -/

namespace Cursor

variable {sections : Sections} {c : Cursor} {b : UInt8} {bytes rest : List UInt8}

/-- The bytes stand at the cursor, and none of them behind the end that no read passes. -/
def Shows (sections : Sections) (c : Cursor) (bytes : List UInt8) : Prop :=
  Bytes.slice? (sections.part c.part).bytes c.place bytes.length = some bytes ∧
    c.place + bytes.length ≤ c.stop

/-- The byte order at the cursor. -/
def littleEndian (sections : Sections) (c : Cursor) : Bool := (sections.part c.part).littleEndian

def past (c : Cursor) (count : Nat) : Cursor := { c with place := c.place + count }

theorem past_one_past (c : Cursor) (count : Nat) : (c.past 1).past count = c.past (count + 1) := by
  simp only [past, Nat.add_assoc, Nat.add_comm count]

theorem Shows.first (h : c.Shows sections (b :: rest)) : c.Shows sections [b] := by
  refine ⟨(slice?_cons h.1).1, ?_⟩
  have hroom := h.2
  rw [List.length_cons] at hroom
  show c.place + 1 ≤ c.stop
  omega

theorem Shows.tail (h : c.Shows sections (b :: rest)) : (c.past 1).Shows sections rest := by
  refine ⟨(slice?_cons h.1).2, ?_⟩
  have hroom := h.2
  rw [List.length_cons] at hroom
  show c.place + 1 + rest.length ≤ c.stop
  omega

end Cursor

/-! ## Reads of bytes -/

namespace Read

variable {sections : Sections} {c : Cursor} {b : UInt8} {bytes rest : List UInt8}

theorem gives_number (h : c.Shows sections bytes) : Gives sections c (number bytes.length)
    (Bytes.toNumber (c.littleEndian sections) bytes) (c.past bytes.length) := by
  have hfind : sections.find? ⟨c.part, c.place, bytes.length, false⟩ =
      some (Bytes.toNumber (c.littleEndian sections) bytes) := by
    unfold Sections.find? Section.find? Bytes.numberAt?
    rw [h.1]
    rfl
  unfold number take
  refine gives_bind_iff.mpr ⟨c, c, gives_get_iff.mpr ⟨rfl, rfl⟩, ?_⟩
  rw [if_pos h.2]
  refine gives_bind_iff.mpr ⟨_, c, gives_lift_iff.mpr ⟨hfind, rfl⟩, ?_⟩
  exact gives_bind_iff.mpr ⟨⟨⟩, _, gives_set_iff.mpr rfl, gives_pure_iff.mpr ⟨rfl, rfl⟩⟩

theorem gives_byte (h : c.Shows sections (b :: rest)) : Gives sections c byte b (c.past 1) := by
  have hone := gives_number h.first
  have hb : Bytes.toNumber (c.littleEndian sections) [b] = b.toNat := by
    unfold Bytes.toNumber
    cases c.littleEndian sections <;> rfl
  rw [hb] at hone
  exact gives_map_iff.mpr ⟨_, hone, UInt8.ofNat_toNat⟩

end Read

/-! ## LEB128 -/

/-- The bytes hold the number, seven bits in each, the lowest first; all but the last have the top
bit set. The last is below `limit`: without a sign that is 128, with a sign 64, since the next bit is
the sign then. -/
inductive Leb (limit : Nat) : List UInt8 → Nat → Prop
  | last {b : UInt8} : b.toNat < limit → Leb limit [b] b.toNat
  | more {b : UInt8} {rest : List UInt8} {n : Nat} : 128 ≤ b.toNat → Leb limit rest n →
    Leb limit (b :: rest) (b.toNat - 128 + 128 * n)

/-- The bytes hold a number with a sign in the same way. The second bit from the top of the last
byte is the sign. -/
inductive SignedLeb : List UInt8 → Int → Prop
  | last {b : UInt8} : b.toNat < 64 → SignedLeb [b] b.toNat
  | negative {b : UInt8} : 64 ≤ b.toNat → b.toNat < 128 → SignedLeb [b] (b.toNat - 128)
  | more {b : UInt8} {rest : List UInt8} {v : Int} : 128 ≤ b.toNat → SignedLeb rest v →
    SignedLeb (b :: rest) (b.toNat - 128 + 128 * v)

theorem SignedLeb.length_pos {bytes : List UInt8} {v : Int} (h : SignedLeb bytes v) :
    0 < bytes.length := by
  cases h <;> exact Nat.succ_pos _

namespace Leb

variable {limit n : Nat} {b : UInt8} {bytes rest : List UInt8}

theorem length_pos (h : Leb limit bytes n) : 0 < bytes.length := by
  cases h <;> exact Nat.succ_pos _

/-- A number from zero on has no sign. -/
theorem signed (h : Leb 64 bytes n) : SignedLeb bytes n := by
  induction h with
  | last hb => exact .last hb
  | @more b rest n hb _ ih =>
    have hvalue : ((b.toNat - 128 + 128 * n : Nat) : Int) = b.toNat - 128 + 128 * n := by omega
    rw [hvalue]
    exact .more hb ih

/-- Of a number the rest is no greater, at its place. -/
theorem rest_le (low n index : Nat) :
    (low + 128 * n) * 2 ^ (7 * index) = low * 2 ^ (7 * index) + n * 2 ^ (7 * (index + 1)) := by
  rw [Nat.mul_succ, Nat.pow_add, Nat.add_mul, Nat.mul_comm 128 n, Nat.mul_assoc, Nat.mul_comm 128]

end Leb

namespace Read

variable {sections : Sections} {c : Cursor} {bytes : List UInt8} {limit n left index : Nat}

theorem lowBits_of_last {b : UInt8} (h : b.toNat < 128) : lowBits b = b.toNat :=
  Nat.mod_eq_of_lt h

theorem lowBits_of_more {b : UInt8} (h : 128 ≤ b.toNat) : lowBits b = b.toNat - 128 := by
  have hb := b.toNat_lt
  unfold lowBits
  omega

theorem continues_eq_false {b : UInt8} (h : b.toNat < 128) : continues b = false :=
  decide_eq_false (by omega)

theorem continues_eq_true {b : UInt8} (h : 128 ≤ b.toNat) : continues b = true := decide_eq_true h

/-- The tenth byte of a number with 64 bits is at most one. -/
theorem le_one_of_tenth {b : UInt8} (all : 0 + 1 + index = longest)
    (bound : b.toNat * 2 ^ (7 * index) < Word.count) : b.toNat ≤ 1 := by
  obtain rfl : index = 9 := by
    unfold longest at all
    omega
  unfold Word.count at bound
  omega

theorem gives_unsignedFrom (h : Leb 128 bytes n) (shows : c.Shows sections bytes)
    (length : bytes.length ≤ left) (all : left + index = longest)
    (bound : n * 2 ^ (7 * index) < Word.count) :
    Gives sections c (unsignedFrom left index) (n * 2 ^ (7 * index)) (c.past bytes.length) := by
  induction h generalizing c left index with
  | @last b hb =>
    obtain ⟨left, rfl⟩ := Nat.exists_eq_add_of_le' length
    have hfits : ¬ (left = 0 ∧ 1 < b.toNat) := by
      rintro ⟨rfl, hlarge⟩
      exact Nat.not_le_of_lt hlarge (le_one_of_tenth all bound)
    unfold unsignedFrom
    refine gives_bind_iff.mpr ⟨b, _, gives_byte shows, ?_⟩
    rw [if_neg hfits, if_neg (by simp [continues_eq_false hb]), lowBits_of_last hb,
      Nat.shiftLeft_eq]
    exact gives_pure_iff.mpr ⟨rfl, rfl⟩
  | @more b rest n hb hrest ih =>
    have hpos := hrest.length_pos
    rw [List.length_cons] at length
    obtain ⟨left, rfl⟩ := Nat.exists_eq_add_of_le' (Nat.le_trans (Nat.le_add_left 1 _) length)
    rw [Leb.rest_le] at bound ⊢
    have hlater : Gives sections (c.past 1) (unsignedFrom left (index + 1)) _ _ :=
      ih shows.tail (by omega) (by omega) (by omega)
    rw [c.past_one_past] at hlater
    unfold unsignedFrom
    refine gives_bind_iff.mpr ⟨b, _, gives_byte shows, ?_⟩
    rw [if_neg (by omega), if_pos (continues_eq_true hb), lowBits_of_more hb, Nat.shiftLeft_eq]
    exact gives_map_iff.mpr ⟨_, hlater, rfl⟩

/-- Of a number with a sign the rest stands at its place. -/
theorem rest_eq (low v : Int) (index : Nat) :
    (low + 128 * v) * 2 ^ (7 * index) = low * 2 ^ (7 * index) + v * 2 ^ (7 * (index + 1)) := by
  ring

/-- The tenth byte of a number with a sign is a copy of the sign. -/
theorem sign_of_tenth {b : UInt8} {v : Int} (hb : b.toNat < 128) (all : 0 + 1 + index = longest)
    (low : -Word.signedEnd ≤ v * 2 ^ (7 * index)) (high : v * 2 ^ (7 * index) < Word.signedEnd)
    (value : v = b.toNat ∨ v = b.toNat - 128) : b.toNat = 0 ∨ b.toNat = 0x7f := by
  obtain rfl : index = 9 := by
    unfold longest at all
    omega
  unfold Word.signedEnd at low high
  omega

/-- A number that is no less than the least word with a sign is so without its lowest bits. -/
theorem low_of_rest {low v : Int} (early : index < 9) (hlow : low < 128)
    (bound : -Word.signedEnd ≤ low * 2 ^ (7 * index) + v * 2 ^ (7 * (index + 1))) :
    -Word.signedEnd ≤ v * 2 ^ (7 * (index + 1)) := by
  have hend : (Word.signedEnd : Int) = 2 ^ (7 * (8 - index)) * 2 ^ (7 * (index + 1)) := by
    have hbits : 7 * (8 - index) + 7 * (index + 1) = 63 := by omega
    rw [← pow_add, hbits]
    rfl
  have hplace : (2 : Int) ^ (7 * (index + 1)) = 128 * 2 ^ (7 * index) := by ring
  have hpos : (0 : Int) < 2 ^ (7 * index) := Int.pow_pos (by decide)
  generalize (2 : Int) ^ (7 * index) = place at *
  generalize (2 : Int) ^ (7 * (8 - index)) = above at *
  rw [hend, hplace] at bound ⊢
  have hfactor : -above * 128 ≤ low + 128 * v := by
    refine Int.le_of_mul_le_mul_right ?_ hpos
    calc -above * 128 * place = -(above * (128 * place)) := by ring
      _ ≤ low * place + v * (128 * place) := bound
      _ = (low + 128 * v) * place := by ring
  have hv : -above ≤ v := by omega
  calc -(above * (128 * place)) = -above * (128 * place) := by ring
    _ ≤ v * (128 * place) := Int.mul_le_mul_of_nonneg_right hv (by omega)

theorem gives_signedFrom_last {b : UInt8} (shows : c.Shows sections [b]) (hb : b.toNat < 128)
    (tenth : left = 0 → b.toNat = 0 ∨ b.toNat = 0x7f) :
    Gives sections c (signedFrom (left + 1) index)
      (b.toNat * 2 ^ (7 * index), index + 1, decide (64 ≤ b.toNat)) (c.past 1) := by
  have hfits : ¬ (left = 0 ∧ b.toNat ≠ 0 ∧ b.toNat ≠ 0x7f) := by
    rintro ⟨hleft, hzero, hones⟩
    exact (tenth hleft).elim hzero hones
  unfold signedFrom
  refine gives_bind_iff.mpr ⟨b, _, gives_byte shows, ?_⟩
  rw [if_neg hfits, if_neg (by simp [continues_eq_false hb]), lowBits_of_last hb, Nat.shiftLeft_eq]
  exact gives_pure_iff.mpr ⟨rfl, rfl⟩

theorem gives_signedFrom_more {b : UInt8} {rest : List UInt8} {bits last : Nat} {negative : Bool}
    {d : Cursor} (shows : c.Shows sections (b :: rest)) (hb : 128 ≤ b.toNat) (more : left ≠ 0)
    (hlater : Gives sections (c.past 1) (signedFrom left (index + 1)) (bits, last, negative) d) :
    Gives sections c (signedFrom (left + 1) index)
      ((b.toNat - 128) * 2 ^ (7 * index) + bits, last, negative) d := by
  have hfits : ¬ (left = 0 ∧ b.toNat ≠ 0 ∧ b.toNat ≠ 0x7f) := fun h => more h.1
  unfold signedFrom
  refine gives_bind_iff.mpr ⟨b, _, gives_byte shows, ?_⟩
  rw [if_neg hfits, if_pos (continues_eq_true hb), lowBits_of_more hb, Nat.shiftLeft_eq]
  exact gives_bind_iff.mpr ⟨_, _, hlater, gives_pure_iff.mpr ⟨rfl, rfl⟩⟩

/-- The bits of a number with a sign are those of the number. Below zero they lack what stands
behind the last byte. -/
theorem gives_signedFrom {v : Int} (h : SignedLeb bytes v) (shows : c.Shows sections bytes)
    (length : bytes.length ≤ left) (all : left + index = longest)
    (low : -Word.signedEnd ≤ v * 2 ^ (7 * index)) (high : v * 2 ^ (7 * index) < Word.signedEnd) :
    ∃ bits negative, Gives sections c (signedFrom left index)
        (bits, index + bytes.length, negative) (c.past bytes.length) ∧
      (bits : Int) = v * 2 ^ (7 * index) +
        if negative then 2 ^ (7 * (index + bytes.length)) else 0 := by
  induction h generalizing c left index with
  | @last b hb =>
    obtain ⟨left, rfl⟩ := Nat.exists_eq_add_of_le' length
    refine ⟨_, _, gives_signedFrom_last shows (by omega) ?_, ?_⟩
    · rintro rfl
      exact sign_of_tenth (by omega) all low high (.inl rfl)
    · rw [decide_eq_false (by omega), if_neg Bool.false_ne_true]
      push_cast
      ring
  | @negative b hlow hhigh =>
    obtain ⟨left, rfl⟩ := Nat.exists_eq_add_of_le' length
    refine ⟨_, _, gives_signedFrom_last shows hhigh ?_, ?_⟩
    · rintro rfl
      exact sign_of_tenth hhigh all low high (.inr rfl)
    · rw [decide_eq_true hlow, if_pos rfl]
      push_cast
      rw [List.length_singleton, Nat.mul_succ]
      ring
  | @more b rest v hb hrest ih =>
    have hpos := hrest.length_pos
    have hb' := b.toNat_lt
    have hhere : ((b.toNat - 128 : Nat) : Int) = b.toNat - 128 := by omega
    have hnatural : (0 : Int) ≤ (b.toNat - 128) * 2 ^ (7 * index) :=
      Int.mul_nonneg (by omega) (Int.pow_nonneg (by decide))
    rw [List.length_cons] at length
    obtain ⟨left, rfl⟩ := Nat.exists_eq_add_of_le' (Nat.le_trans (Nat.le_add_left 1 _) length)
    rw [rest_eq] at low high ⊢
    unfold longest at all
    -- Seven bits are read here, so the rest stands one place higher and keeps to the range.
    have hall : left + (index + 1) = longest := by
      unfold longest
      omega
    obtain ⟨bits, negative, hlater, hbits⟩ := ih shows.tail (Nat.le_of_succ_le_succ length) hall
      (low_of_rest (by omega) (by omega) low) (by omega)
    rw [c.past_one_past] at hlater
    rw [List.length_cons, ← Nat.add_assoc, Nat.add_right_comm]
    refine ⟨_, negative, gives_signedFrom_more shows hb (by omega) hlater, ?_⟩
    push_cast
    rw [hhere, hbits]
    ring

theorem gives_unsigned (h : Leb 128 bytes n) (shows : c.Shows sections bytes)
    (length : bytes.length ≤ longest) (bound : n < Word.count) :
    Gives sections c unsigned n (c.past bytes.length) := by
  have hread := gives_unsignedFrom h shows length (Nat.add_zero _) (by simpa using bound)
  rw [Nat.mul_zero, Nat.pow_zero, Nat.mul_one] at hread
  exact hread

/-- A word with a sign is what its bits are taken for. -/
theorem signed_emod {v : Int} (low : -Word.signedEnd ≤ v) (high : v < Word.signedEnd) :
    Word.signed 64 (v % Word.count).toNat = v := by
  unfold Word.signed Word.count
  unfold Word.signedEnd at low high
  simp only [Nat.one_shiftLeft]
  split <;> omega

theorem gives_signed {v : Int} (h : SignedLeb bytes v) (shows : c.Shows sections bytes)
    (length : bytes.length ≤ longest) (low : -Word.signedEnd ≤ v) (high : v < Word.signedEnd) :
    Gives sections c signed v (c.past bytes.length) := by
  obtain ⟨bits, negative, hread, hbits⟩ := gives_signedFrom h shows length (Nat.add_zero _)
    (by simpa using low) (by simpa using high)
  refine gives_bind_iff.mpr ⟨_, _, hread, gives_pure_iff.mpr ⟨?_, rfl⟩⟩
  have hvalue : (if negative then (bits : Int) - (1 <<< (7 * (0 + bytes.length)) : Nat) else bits) =
      v := by
    rw [hbits, Nat.one_shiftLeft]
    cases negative <;> simp
  show Word.signed 64 ((if negative then _ else _) % (Word.count : Int)).toNat = v
  rw [hvalue, signed_emod low high]

end Read

/-! ## Forms for constants -/

namespace Form

/-- The bytes are a number in a form for constants: its own bytes, as many as the form says, or
LEB128 of at most ten bytes. -/
inductive Stores (littleEndian : Bool) (v : Nat) : Form → List UInt8 → Prop
  | data {bytes : List UInt8} : bytes.length ∈ [1, 2, 4, 8] →
    Bytes.toNumber littleEndian bytes = v → Stores littleEndian v (.data bytes.length) bytes
  | unsigned {bytes : List UInt8} : Leb 128 bytes v → bytes.length ≤ Read.longest →
    Stores littleEndian v .unsigned bytes
  | signed {bytes : List UInt8} : Leb 64 bytes v → bytes.length ≤ Read.longest →
    Stores littleEndian v .signed bytes

/-- The number leaves the top bit of a form of fixed length clear. -/
def Spares (form : Form) (v : Nat) : Prop := ∀ count, form = .data count → v < 2 ^ (8 * count - 1)

/-- The value of an attribute whose number is stored in a form for constants. -/
def value (v : Nat) : Form → AttributeValue
  | .data count => .data count v
  | .signed => .signed v
  | .unsigned => .unsigned v
  | _ => .other

/-- What a stored number is taken for: at a fixed length its top bit is a sign. -/
def taken (v : Nat) : Form → Int
  | .data count => Word.signed (8 * count) v
  | _ => v

theorem taken_of_spares {form : Form} {v : Nat} (h : form.Spares v) : form.taken v = v := by
  cases form
  case data count =>
    refine if_pos ?_
    rw [Nat.one_shiftLeft]
    exact h count rfl
  all_goals rfl

theorem taken_of_not_spares {count v : Nat} (h : ¬ (Form.data count).Spares v) :
    (Form.data count).taken v = v - 2 ^ (8 * count) := by
  have hfull : ¬ v < 1 <<< (8 * count - 1) := by
    rw [Nat.one_shiftLeft]
    intro hlt
    refine h fun other heq => ?_
    cases heq
    exact hlt
  show (if v < _ then _ else _) = _
  rw [if_neg hfull, Nat.one_shiftLeft]
  push_cast
  rfl

variable {littleEndian : Bool} {v : Nat} {form : Form} {bytes : List UInt8}

theorem Stores.signed? (h : form.Stores littleEndian v bytes) (bound : v < Word.signedEnd) :
    (form.value v).signed? = some (form.taken v) := by
  cases h with
  | data | signed => rfl
  | unsigned => exact if_pos bound

/-- At these attributes no number is a place in another section. -/
def plainNames : List AttributeName := [.constValue, .lowerBound, .upperBound]

theorem isOffset_eq_false {asked : AttributeName} (h : asked ∈ plainNames) (e : Encoding)
    (count : Nat) : AttributeValue.isOffset e asked count = false := by
  simp only [plainNames, List.mem_cons, List.not_mem_nil, or_false] at h
  rcases h with rfl | rfl | rfl <;> exact Bool.and_false _

/-- A number that is stored in a form is read as the value of an attribute. -/
theorem Stores.gives {sections : Sections} {c : Cursor} (e : Encoding) {spec : AttributeSpec}
    (h : form.Stores (c.littleEndian sections) v bytes) (shows : c.Shows sections bytes)
    (bound : v < Word.signedEnd) (plain : spec.name ∈ plainNames) :
    Gives sections c (AttributeValue.readForm e spec form) (form.value v)
      (c.past bytes.length) := by
  cases h with
  | data _ hv =>
    have hread := Read.gives_number shows
    rw [hv] at hread
    dsimp only [AttributeValue.readForm]
    rw [isOffset_eq_false plain, if_neg Bool.false_ne_true]
    exact gives_map_iff.mpr ⟨v, hread, rfl⟩
  | unsigned hleb hlength =>
    have hword : v < Word.count := Nat.lt_trans bound (by decide)
    exact gives_map_iff.mpr ⟨v, Read.gives_unsigned hleb shows hlength hword, rfl⟩
  | signed hleb hlength =>
    have hread := Read.gives_signed hleb.signed shows hlength (by omega) (by omega)
    exact gives_map_iff.mpr ⟨v, hread, rfl⟩

/-! ## Numbers with a sign -/

/-- A number with a sign is kept in a form for constants: from zero on as any number is, or in
LEB128 with a sign, or in the abbreviation, and then in no bytes. -/
inductive Keeps (littleEndian : Bool) (spec : AttributeSpec) : Int → Form → List UInt8 → Prop
  | natural {v : Nat} {form : Form} {bytes : List UInt8} : form.Stores littleEndian v bytes →
    Keeps littleEndian spec v form bytes
  | signed {v : Int} {bytes : List UInt8} : SignedLeb bytes v → bytes.length ≤ Read.longest →
    Keeps littleEndian spec v .signed bytes
  | implicit {v : Int} : spec.implicitConstant = some v →
    Keeps littleEndian spec v .implicitConstant []

theorem Stores.unsigned? (h : form.Stores littleEndian v bytes) :
    (form.value v).unsigned? = some v := by
  cases h with
  | data | unsigned => rfl
  | signed =>
    show (if (0 : Int) ≤ v then some (v : Int).toNat else none) = some v
    rw [if_pos (Int.natCast_nonneg v), Int.toNat_natCast]

/-- Taken for a number without a sign, a number is there from zero on only. -/
theorem Keeps.gives {sections : Sections} {c : Cursor} (e : Encoding) {spec : AttributeSpec}
    {v : Int} (h : Keeps (c.littleEndian sections) spec v form bytes)
    (shows : c.Shows sections bytes) (low : -Word.signedEnd ≤ v) (high : v < Word.signedEnd)
    (plain : spec.name ∈ plainNames) :
    ∃ value next, Gives sections c (AttributeValue.readForm e spec form) value next ∧
      value.unsigned? = if 0 ≤ v then some v.toNat else none := by
  cases h with
  | natural stores =>
    refine ⟨_, _, stores.gives e shows (by omega) plain, ?_⟩
    rw [stores.unsigned?, if_pos (Int.natCast_nonneg _), Int.toNat_natCast]
  | signed hleb hlength =>
    exact ⟨_, _, gives_map_iff.mpr ⟨v, Read.gives_signed hleb shows hlength low high, rfl⟩, rfl⟩
  | implicit hspec =>
    refine ⟨.signed v, c, ?_, rfl⟩
    dsimp only [AttributeValue.readForm]
    rw [hspec]
    exact gives_pure_iff.mpr ⟨rfl, rfl⟩

end Form

end LayoutGraph.Dwarf
