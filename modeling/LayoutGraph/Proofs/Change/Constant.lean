-- The law of constants written by hand: `NAME=VALUE` is read as the grammar
-- has it, a number after at most one minus. Two things differ: the least
-- number of 64 bits is refused, and a second sign is let through.
import LayoutGraph.Change.Argument
import LayoutGraph.Proofs.Text.Numeral

namespace LayoutGraph.Change

open Text

/-! ## The grammar -/

/-- The text is a name and a value around its first `=`, and the name is not blank. Both are without
the blanks at their ends. -/
def Pairs (given name : String) (value : List Char) : Prop :=
  ∃ before after, given.toList = before ++ '=' :: after ∧ '=' ∉ before ∧ trimChars before ≠ [] ∧
    name = String.ofList (trimChars before) ∧ value = trimChars after

/-- Decimal digits, or hexadecimal ones behind their mark. -/
inductive Marked {α : Type} (reads : Nat → List Char → α → Prop) : List Char → α → Prop
  | decimal {cs : List Char} {a : α} : reads 10 cs a → Marked reads cs a
  | hexadecimal {mark : Char} {cs : List Char} {a : α} : mark ∈ ['x', 'X'] → reads 16 cs a →
    Marked reads ('0' :: mark :: cs) a

/-- A value as it is to be written: digits, after a minus or without one. -/
inductive Value : List Char → Int → Prop
  | natural {cs : List Char} {n : Nat} : Marked Denotes cs n → Value cs n
  | negative {cs : List Char} {n : Nat} : Marked Denotes cs n → Value ('-' :: cs) (-n)

/-- A value with a sign where its digits begin: one that is not the minus in front of all, or one
that stands behind that. -/
inductive Oversigned : List Char → Int → Prop
  | alone {cs : List Char} {v : Int} : Marked Signed cs v → cs.head? ≠ some '-' →
    -Word.signedEnd ≤ v → v < Word.signedEnd → Oversigned cs v
  | behind {cs : List Char} {v : Int} : Marked Signed cs v → -Word.signedEnd < v →
    v < Word.signedEnd → Oversigned ('-' :: cs) (-v)

/-- A second minus, in front of the magnitude of the least number. -/
inductive Overflows : List Char → Prop
  | mk {cs : List Char} : Marked Signed cs (-Word.signedEnd) → Overflows ('-' :: cs)

/-! ## Values -/

theorem hexDigits?_eq_some_iff {cs digits : List Char} :
    hexDigits? cs = some digits ↔ ∃ mark ∈ ['x', 'X'], cs = '0' :: mark :: digits := by
  unfold hexDigits?
  rw [Option.or_eq_some_iff, Option.eq_none_iff_forall_ne_some]
  simp only [ne_eq, dropLead?_eq_some_iff, List.cons_append, List.nil_append, List.mem_cons,
    List.not_mem_nil, or_false, exists_eq_or_imp, exists_eq_left]
  refine or_congr_right ⟨fun h => h.2, ?_⟩
  rintro rfl
  exact ⟨nofun, rfl⟩

section Marked

variable {α : Type} {reads : Nat → List Char → α → Prop} {cs digits : List Char} {a : α}

theorem marked_of_hexDigits (h : hexDigits? cs = some digits) (other : ∀ a, ¬ reads 10 cs a) :
    Marked reads cs a ↔ reads 16 digits a := by
  obtain ⟨mark, hmark, rfl⟩ := hexDigits?_eq_some_iff.mp h
  refine ⟨fun hmarked => ?_, .hexadecimal hmark⟩
  cases hmarked with
  | decimal hreads => exact (other a hreads).elim
  | hexadecimal _ hreads => exact hreads

theorem marked_of_none (h : hexDigits? cs = none) : Marked reads cs a ↔ reads 10 cs a := by
  refine ⟨fun hmarked => ?_, .decimal⟩
  cases hmarked with
  | decimal hreads => exact hreads
  | hexadecimal hmark _ =>
    rw [hexDigits?_eq_some_iff.mpr ⟨_, hmark, rfl⟩] at h
    cases h

end Marked

/-- A magnitude is a numeral, decimal or behind its mark. The mark is no decimal digit, so no text
is both. -/
theorem magnitude?_eq_some_iff {cs : List Char} {v : Int} :
    magnitude? cs = some v ↔ ((∃ n : Nat, Marked Denotes cs n ∧ n = v) ∨ Marked Signed cs v) ∧
      -Word.signedEnd ≤ v ∧ v < Word.signedEnd := by
  unfold magnitude?
  cases hcs : hexDigits? cs with
  | some digits =>
    obtain ⟨mark, hmark, hsplit⟩ := hexDigits?_eq_some_iff.mp hcs
    have undenoted (n : Nat) : ¬ Denotes 10 cs n := by
      intro hn
      have hnot := hn.not_mem (by decide) mark (by simp [hsplit])
      simp only [List.mem_cons, List.not_mem_nil, or_false] at hmark hnot
      exact hnot (.inr (.inr hmark))
    have unsigned (v : Int) : ¬ Signed 10 cs v := by
      rw [hsplit]
      nofun
    simp only [marked_of_hexDigits hcs undenoted, marked_of_hexDigits hcs unsigned]
    exact signed?_eq_some_iff (by decide)
  | none =>
    simp only [marked_of_none hcs]
    exact signed?_eq_some_iff (by decide)

/-- No magnitude of the grammar begins with a minus. -/
theorem head_of_marked {cs : List Char} {n : Nat} (h : Marked Denotes cs n) :
    cs.head? ≠ some '-' := by
  cases h with
  | decimal hn =>
    intro hhead
    exact hn.not_mem (by decide) '-' (List.mem_of_head? hhead) (by decide)
  | hexadecimal => nofun

section Values

variable {invalid : Failure} {cs : List Char} {v : Int}

theorem parseValue_of_head (h : cs.head? ≠ some '-') :
    parseValue invalid cs = (magnitude? cs).elim (.error invalid) .ok := by
  unfold parseValue
  split
  · exact (h rfl).elim
  · rfl

theorem parseValue_minus_eq_ok_iff : parseValue invalid ('-' :: cs) = .ok v ↔
    ∃ m, magnitude? cs = some m ∧ m ≠ -Word.signedEnd ∧ -m = v := by
  show (magnitude? cs).elim (.error invalid) negate = .ok v ↔ _
  cases magnitude? cs with
  | none => simp
  | some m =>
    show negate m = .ok v ↔ _
    unfold negate
    split <;> simp_all

theorem parseValue_minus_eq_overflow_iff (other : invalid ≠ .overflow .negate) :
    parseValue invalid ('-' :: cs) = .error (.overflow .negate) ↔
      magnitude? cs = some (-(Word.signedEnd : Int)) := by
  show (magnitude? cs).elim (.error invalid) negate = _ ↔ _
  cases magnitude? cs with
  | none => simpa using other
  | some m =>
    show negate m = _ ↔ _
    unfold negate
    split <;> simp_all

/-- What is taken for a value. -/
theorem parseValue_eq_ok_iff : parseValue invalid cs = .ok v ↔
    Value cs v ∧ -Word.signedEnd < v ∧ v < Word.signedEnd ∨ Oversigned cs v := by
  -- The first minus decides which reader has the text; digits of the grammar begin with none.
  by_cases hhead : cs.head? = some '-'
  · obtain ⟨rest, rfl⟩ := List.head?_eq_some_iff.mp hhead
    rw [parseValue_minus_eq_ok_iff]
    simp only [magnitude?_eq_some_iff]
    constructor
    · rintro ⟨m, ⟨⟨n, hn, rfl⟩ | hm, hlow, hhigh⟩, hleast, rfl⟩
      · exact .inl ⟨.negative hn, by omega, by omega⟩
      · exact .inr (.behind hm (by omega) hhigh)
    · rintro (⟨hv, hlow, hhigh⟩ | hv)
      · cases hv with
        | natural hn => exact (head_of_marked hn rfl).elim
        | @negative _ n hn => exact ⟨n, ⟨.inl ⟨n, hn, rfl⟩, by omega, by omega⟩, by omega, rfl⟩
      · cases hv with
        | alone _ hnot => exact (hnot rfl).elim
        | @behind _ m hm hlow hhigh =>
          exact ⟨m, ⟨.inr hm, by omega, hhigh⟩, by omega, rfl⟩
  · have hread : parseValue invalid cs = .ok v ↔ magnitude? cs = some v := by
      rw [parseValue_of_head hhead]
      cases magnitude? cs <;> simp
    rw [hread, magnitude?_eq_some_iff]
    constructor
    · rintro ⟨⟨n, hn, rfl⟩ | hm, hlow, hhigh⟩
      · have hpositive : 0 < Word.signedEnd := by decide
        exact .inl ⟨.natural hn, by omega, hhigh⟩
      · exact .inr (.alone hm hhead hlow hhigh)
    · rintro (⟨hv, hlow, hhigh⟩ | hv)
      · cases hv with
        | @natural _ n hn => exact ⟨.inl ⟨n, hn, rfl⟩, by omega, hhigh⟩
        | negative => exact (hhead rfl).elim
      · cases hv with
        | alone hm _ hlow hhigh => exact ⟨.inr hm, hlow, hhigh⟩
        | behind => exact (hhead rfl).elim

theorem parseValue_eq_overflow_iff (other : invalid ≠ .overflow .negate) :
    parseValue invalid cs = .error (.overflow .negate) ↔ Overflows cs := by
  by_cases hhead : cs.head? = some '-'
  · obtain ⟨rest, rfl⟩ := List.head?_eq_some_iff.mp hhead
    rw [parseValue_minus_eq_overflow_iff other, magnitude?_eq_some_iff]
    have hpositive : 0 < Word.signedEnd := by decide
    constructor
    · rintro ⟨⟨n, -, hn⟩ | hm, -⟩
      · omega
      · exact .mk hm
    · rintro ⟨hm⟩
      exact ⟨.inr hm, by omega, by omega⟩
  · rw [parseValue_of_head hhead]
    constructor
    · intro h
      cases hmagnitude : magnitude? cs with
      | none =>
        rw [hmagnitude] at h
        exact (other (Except.error.inj h)).elim
      | some m =>
        rw [hmagnitude] at h
        cases h
    · rintro ⟨⟩
      exact (hhead rfl).elim

theorem parseValue_cases (invalid : Failure) (cs : List Char) :
    (∃ v, parseValue invalid cs = .ok v) ∨ parseValue invalid cs = .error (.overflow .negate) ∨
      parseValue invalid cs = .error invalid := by
  by_cases hhead : cs.head? = some '-'
  · obtain ⟨rest, rfl⟩ := List.head?_eq_some_iff.mp hhead
    have hread : parseValue invalid ('-' :: rest) =
        (magnitude? rest).elim (.error invalid) negate := rfl
    rw [hread]
    cases magnitude? rest with
    | none => exact .inr (.inr rfl)
    | some m =>
      by_cases hleast : m = -Word.signedEnd
      · exact .inr (.inl (if_pos hleast))
      · exact .inl ⟨-m, if_neg hleast⟩
  · rw [parseValue_of_head hhead]
    cases magnitude? cs with
    | none => exact .inr (.inr rfl)
    | some m => exact .inl ⟨m, rfl⟩

end Values

/-! ## Constants -/

theorem pairs_iff {given name : String} {value : List Char} : Pairs given name value ↔
    ∃ before after, cutFirst '=' given.toList = some (before, after) ∧ trimChars before ≠ [] ∧
      name = String.ofList (trimChars before) ∧ value = trimChars after := by
  unfold Pairs
  simp only [cutFirst_eq_some_iff, and_assoc]

theorem parseConstant_of_pairs {given name : String} {value : List Char}
    (h : Pairs given name value) : parseConstant given =
      (parseValue (.invalidOverride (.notAConstant given)) value).map (⟨name, ·⟩) := by
  obtain ⟨before, after, hcut, hname, rfl, rfl⟩ := pairs_iff.mp h
  unfold parseConstant
  rw [hcut]
  dsimp only
  rw [if_neg hname]
  rfl

/-- A constant is accepted, and is refused for a reason, as its value is. -/
theorem parseConstant_eq_iff {given name : String} {value : List Char}
    (h : Pairs given name value) (r : Except Failure Constant) : parseConstant given = r ↔
      (∃ v, parseValue (.invalidOverride (.notAConstant given)) value = .ok v ∧ r = .ok ⟨name, v⟩) ∨
      ∃ cause, parseValue (.invalidOverride (.notAConstant given)) value = .error cause ∧
        r = .error cause := by
  rw [parseConstant_of_pairs h]
  cases parseValue (.invalidOverride (.notAConstant given)) value with
  | ok v => simp [Except.map, eq_comm]
  | error cause => simp [Except.map, eq_comm]

theorem parseConstant_of_not_pairs {given : String} (h : ¬ ∃ name value, Pairs given name value) :
    parseConstant given = .error (.invalidOverride (.notAConstant given)) := by
  unfold parseConstant
  cases hcut : cutFirst '=' given.toList with
  | none => rfl
  | some parts =>
    obtain ⟨before, after⟩ := parts
    dsimp only
    by_cases hname : trimChars before = []
    · rw [if_pos hname]
      rfl
    · exact (h ⟨_, _, pairs_iff.mpr ⟨before, after, hcut, hname, rfl, rfl⟩⟩).elim

theorem Pairs.unique {given name other : String} {value worth : List Char}
    (h : Pairs given name value) (h' : Pairs given other worth) : name = other ∧ value = worth := by
  obtain ⟨before, after, hcut, -, rfl, rfl⟩ := pairs_iff.mp h
  obtain ⟨before', after', hcut', -, rfl, rfl⟩ := pairs_iff.mp h'
  cases hcut.symm.trans hcut'
  exact ⟨rfl, rfl⟩

/-! ## The law -/

/-- A constant written by hand is read as the grammar has it: the text is a name that is not blank,
a first `=` and a value, which is decimal digits, or hexadecimal ones behind their mark, after a
minus or without one, and the value lies above the least number of 64 bits and below their end. What
is read beyond that has a sign where its digits begin. The arithmetic overflows where that sign is a
second minus and stands before the magnitude of the least number; every other text is refused. -/
theorem a_constant_is_read_as_written_unless_it_is_the_least_or_has_two_signs (given : String) :
    (∀ name v, parseConstant given = .ok ⟨name, v⟩ ↔ ∃ value, Pairs given name value ∧
      (Value value v ∧ -Word.signedEnd < v ∧ v < Word.signedEnd ∨ Oversigned value v)) ∧
    (parseConstant given = .error (.overflow .negate) ↔
      ∃ name value, Pairs given name value ∧ Overflows value) ∧
    ((∃ k, parseConstant given = .ok k) ∨ parseConstant given = .error (.overflow .negate) ∨
      parseConstant given = .error (.invalidOverride (.notAConstant given))) := by
  by_cases hpairs : ∃ name value, Pairs given name value
  · obtain ⟨name, value, hpairs⟩ := hpairs
    have unsigned : Failure.invalidOverride (.notAConstant given) ≠ .overflow .negate := nofun
    refine ⟨fun name' v => ?accepted, ?overflow, ?cases⟩
    case accepted =>
      rw [parseConstant_eq_iff hpairs]
      constructor
      · rintro (⟨v, hv, h⟩ | ⟨cause, -, h⟩) <;> cases h
        exact ⟨value, hpairs, parseValue_eq_ok_iff.mp hv⟩
      · rintro ⟨value', hpairs', hvalue⟩
        obtain ⟨rfl, rfl⟩ := hpairs.unique hpairs'
        exact .inl ⟨v, parseValue_eq_ok_iff.mpr hvalue, rfl⟩
    case overflow =>
      rw [parseConstant_eq_iff hpairs]
      constructor
      · rintro (⟨v, -, h⟩ | ⟨cause, hcause, h⟩) <;> cases h
        exact ⟨name, value, hpairs, (parseValue_eq_overflow_iff unsigned).mp hcause⟩
      · rintro ⟨name', value', hpairs', hoverflows⟩
        obtain ⟨rfl, rfl⟩ := hpairs.unique hpairs'
        exact .inr ⟨_, (parseValue_eq_overflow_iff unsigned).mpr hoverflows, rfl⟩
    case cases =>
      simp only [parseConstant_eq_iff hpairs]
      rcases parseValue_cases (.invalidOverride (.notAConstant given)) value with ⟨v, h⟩ | h | h
      · exact .inl ⟨_, .inl ⟨v, h, rfl⟩⟩
      · exact .inr (.inl (.inr ⟨_, h, rfl⟩))
      · exact .inr (.inr (.inr ⟨_, h, rfl⟩))
  · rw [parseConstant_of_not_pairs hpairs]
    refine ⟨fun name v => ⟨nofun, ?_⟩, ⟨nofun, ?_⟩, .inr (.inr rfl)⟩
    · rintro ⟨value, h, -⟩
      exact (hpairs ⟨name, value, h⟩).elim
    · rintro ⟨name, value, h, -⟩
      exact (hpairs ⟨name, value, h⟩).elim

/-- The least number of 64 bits is a value, and is refused; a second minus in front of it makes the
arithmetic overflow. -/
theorem the_least_constant_is_refused_and_with_two_signs_overflows :
    (∃ value, Pairs "A=-9223372036854775808" "A" value ∧ Value value (-Word.signedEnd)) ∧
      parseConstant "A=-9223372036854775808" =
        .error (.invalidOverride (.notAConstant "A=-9223372036854775808")) ∧
      parseConstant "A=--9223372036854775808" = .error (.overflow .negate) := by
  refine ⟨⟨_, pairs_iff.mpr ⟨['A'], "-9223372036854775808".toList, ?_, ?_, ?_, rfl⟩, ?_⟩, ?_, ?_⟩
  · decide +kernel
  · decide +kernel
  · decide +kernel
  · have hvalue : trimChars "-9223372036854775808".toList =
        '-' :: "9223372036854775808".toList := by decide +kernel
    have hdigits : natural? 10 "9223372036854775808".toList = some Word.signedEnd := by
      decide +kernel
    rw [hvalue]
    exact .negative (.decimal ((natural?_eq_some_iff (by decide)).mp hdigits))
  · decide +kernel
  · decide +kernel

end LayoutGraph.Change
