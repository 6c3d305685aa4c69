-- Numerals as a grammar. A digit has its value by its place among the digits,
-- and a run of digits denotes the number with those digits. The readers find
-- what the grammar has, and nothing else.
import LayoutGraph.Text.Cut
import LayoutGraph.Text.Numeral
import Mathlib.Data.List.Forall2
import Mathlib.Data.Nat.Digits.Defs
import Mathlib.Tactic.IntervalCases
import Mathlib.Tactic.Ring

namespace LayoutGraph.Text

/-! ## Cutting -/

theorem cutFirst_eq_some_iff {sep : Char} {cs before after : List Char} :
    cutFirst sep cs = some (before, after) ↔ cs = before ++ sep :: after ∧ sep ∉ before := by
  induction cs generalizing before with
  | nil => simp [cutFirst]
  | cons c rest ih =>
    unfold cutFirst
    by_cases hsep : c = sep
    · subst hsep
      rw [if_pos rfl]
      cases before with
      | nil => simp [eq_comm]
      | cons b before => simp +contextual [eq_comm]
    · rw [if_neg hsep, Option.map_eq_some_iff]
      constructor
      · rintro ⟨⟨before, after⟩, hrest, hpair⟩
        cases hpair
        obtain ⟨rfl, hnot⟩ := ih.mp hrest
        exact ⟨rfl, by simp [hnot, Ne.symm hsep]⟩
      · rintro ⟨hcs, hnot⟩
        cases before with
        | nil => exact absurd (List.cons.inj hcs).1 hsep
        | cons b before =>
          obtain ⟨rfl, hrest⟩ := List.cons.inj hcs
          exact ⟨(before, after), ih.mpr ⟨hrest, fun h => hnot (.tail _ h)⟩, rfl⟩

theorem dropLead?_eq_some_iff {lead cs rest : List Char} :
    dropLead? lead cs = some rest ↔ cs = lead ++ rest := by
  induction lead generalizing cs with
  | nil => simp [dropLead?]
  | cons l lead ih =>
    cases cs with
    | nil => simp [dropLead?]
    | cons c cs =>
      unfold dropLead?
      by_cases hl : l = c
      · rw [if_pos hl, ih, hl]
        simp
      · rw [if_neg hl]
        simp [Ne.symm hl]

/-! ## Digits -/

/-- The digits by their values. From ten on they are letters, in either case. -/
def smallDigits : List Char := "0123456789abcdef".toList

def capitalDigits : List Char := "0123456789ABCDEF".toList

/-- The character is a digit of the value, which is below the radix. -/
def Digit (radix : Nat) (c : Char) (d : Nat) : Prop :=
  d < radix ∧ (smallDigits[d]? = some c ∨ capitalDigits[d]? = some c)

/-- One or more digits denote a number, the highest place first. -/
def Denotes (radix : Nat) (cs : List Char) (n : Nat) : Prop :=
  cs ≠ [] ∧ ∃ ds, List.Forall₂ (Digit radix) cs ds ∧ n = Nat.ofDigits radix ds.reverse

theorem eq_ofNat_of_between {c : Char} (low high : Nat) (hlow : low ≤ c.toNat)
    (hhigh : c.toNat ≤ high) : ∃ k ≤ high - low, c = Char.ofNat (low + k) :=
  ⟨c.toNat - low, by omega, by rw [Nat.add_sub_cancel' hlow, Char.ofNat_toNat]⟩

theorem digit_of_digit? {radix d : Nat} {c : Char} (small : radix ≤ 16)
    (h : digit? radix c = some d) : Digit radix c d := by
  obtain ⟨hvalue, hlt⟩ := Option.filter_eq_some_iff.mp h
  have hlt : d < radix := by simpa using hlt
  refine ⟨hlt, ?_⟩
  have hd : d < 16 := by omega
  -- The characters of each kind are a run of code points, so there are only so many to try.
  split_ifs at hvalue with hfigure hsmall hcapital
  · obtain ⟨k, hk, rfl⟩ := eq_ofNat_of_between 48 57 hfigure.1 hfigure.2
    interval_cases k <;> cases hvalue <;> exact .inl rfl
  · obtain ⟨k, hk, rfl⟩ := eq_ofNat_of_between 97 122 hsmall.1 hsmall.2
    interval_cases k <;> cases hvalue <;> first | exact .inl rfl | exact absurd hd (by decide)
  · obtain ⟨k, hk, rfl⟩ := eq_ofNat_of_between 65 90 hcapital.1 hcapital.2
    interval_cases k <;> cases hvalue <;> first | exact .inr rfl | exact absurd hd (by decide)

theorem Digit.digit? {radix d : Nat} {c : Char} (small : radix ≤ 16) (h : Digit radix c d) :
    digit? radix c = some d := by
  obtain ⟨hlt, hplace⟩ := h
  have hd : d < 16 := by omega
  refine Option.filter_eq_some_iff.mpr ⟨?_, by simpa using hlt⟩
  clear hlt
  interval_cases d <;> rcases hplace with hplace | hplace <;> cases hplace <;> rfl

theorem digit?_eq_some_iff {radix d : Nat} {c : Char} (small : radix ≤ 16) :
    digit? radix c = some d ↔ Digit radix c d := ⟨digit_of_digit? small, fun h => h.digit? small⟩

/-- No digit is a sign, and none is a mark of hexadecimal numbers. -/
theorem Digit.not_mem {radix d : Nat} {c : Char} (small : radix ≤ 16) (h : Digit radix c d) :
    c ∉ ['+', '-', 'x', 'X'] := by
  have hvalue : Text.digit? 16 c = some d :=
    Digit.digit? (Nat.le_refl 16) ⟨Nat.lt_of_lt_of_le h.1 small, h.2⟩
  intro hmem
  simp only [List.mem_cons, List.not_mem_nil, or_false] at hmem
  rcases hmem with rfl | rfl | rfl | rfl <;> cases hvalue

/-! ## Runs of digits -/

theorem digitsFrom?_eq_some_iff {radix acc n : Nat} {cs : List Char} (small : radix ≤ 16) :
    digitsFrom? radix acc cs = some n ↔ ∃ ds, List.Forall₂ (Digit radix) cs ds ∧
      n = acc * radix ^ cs.length + Nat.ofDigits radix ds.reverse := by
  induction cs generalizing acc with
  | nil => simp [digitsFrom?, eq_comm]
  | cons c rest ih =>
    unfold digitsFrom?
    rw [Option.bind_eq_some_iff]
    constructor
    · rintro ⟨d, hd, hrest⟩
      obtain ⟨ds, hds, rfl⟩ := ih.mp hrest
      refine ⟨d :: ds, .cons ((digit?_eq_some_iff small).mp hd) hds, ?_⟩
      rw [List.reverse_cons, Nat.ofDigits_append, Nat.ofDigits_singleton, List.length_reverse,
        List.length_cons, hds.length_eq]
      ring
    · rintro ⟨_, hds, rfl⟩
      cases hds with
      | @cons _ d _ ds hd hds =>
        refine ⟨d, (digit?_eq_some_iff small).mpr hd, ih.mpr ⟨ds, hds, ?_⟩⟩
        rw [List.reverse_cons, Nat.ofDigits_append, Nat.ofDigits_singleton, List.length_reverse,
          List.length_cons, hds.length_eq]
        ring

theorem natural?_eq_some_iff {radix n : Nat} {cs : List Char} (small : radix ≤ 16) :
    natural? radix cs = some n ↔ Denotes radix cs n := by
  unfold Denotes
  cases cs with
  | nil => simp [natural?]
  | cons c rest =>
    have hread : natural? radix (c :: rest) = digitsFrom? radix 0 (c :: rest) := rfl
    rw [hread, digitsFrom?_eq_some_iff small]
    simp

/-- None of the characters that stand in front of digits stands among them. -/
theorem Denotes.not_mem {radix n : Nat} {cs : List Char} (small : radix ≤ 16)
    (h : Denotes radix cs n) : ∀ c ∈ cs, c ∉ ['+', '-', 'x', 'X'] := by
  obtain ⟨-, _, hds, -⟩ := h
  exact ((List.forall₂_and_left _ _).mp (hds.imp fun _ _ hd => ⟨hd.not_mem small, hd⟩)).1

/-! ## Numerals -/

/-- Digits after a sign of their own. -/
inductive Signed (radix : Nat) : List Char → Int → Prop
  | plus {cs : List Char} {n : Nat} : Denotes radix cs n → Signed radix ('+' :: cs) n
  | minus {cs : List Char} {n : Nat} : Denotes radix cs n → Signed radix ('-' :: cs) (-n)

theorem fitsSigned_iff {v : Int} :
    fitsSigned v = true ↔ -Word.signedEnd ≤ v ∧ v < Word.signedEnd := by
  simp [fitsSigned]

theorem filter_fitsSigned_eq_some_iff {radix : Nat} {cs : List Char} {f : Nat → Int} {v : Int}
    (small : radix ≤ 16) : ((natural? radix cs).map f).filter fitsSigned = some v ↔
      (∃ n, Denotes radix cs n ∧ f n = v) ∧ -Word.signedEnd ≤ v ∧ v < Word.signedEnd := by
  rw [Option.filter_eq_some_iff, Option.map_eq_some_iff, fitsSigned_iff]
  simp only [natural?_eq_some_iff small]

/-- A reader of numerals takes digits with a sign of their own or without, if the number fits. -/
theorem signed?_eq_some_iff {radix : Nat} {cs : List Char} {v : Int} (small : radix ≤ 16) :
    signed? radix cs = some v ↔ ((∃ n : Nat, Denotes radix cs n ∧ n = v) ∨ Signed radix cs v) ∧
      -Word.signedEnd ≤ v ∧ v < Word.signedEnd := by
  unfold signed?
  split <;> rw [filter_fitsSigned_eq_some_iff small] <;> refine and_congr_left fun _ => ⟨?_, ?_⟩
  case h_1.refine_1 => exact fun ⟨n, hn, hv⟩ => .inr (hv ▸ .plus hn)
  case h_2.refine_1 => exact fun ⟨n, hn, hv⟩ => .inr (hv ▸ .minus hn)
  case h_3.refine_1 => exact .inl
  case h_1.refine_2 =>
    rintro (⟨n, hn, -⟩ | hn)
    · exact absurd (by simp) (hn.not_mem small _ (.head _))
    · cases hn with
      | plus hn => exact ⟨_, hn, rfl⟩
  case h_2.refine_2 =>
    rintro (⟨n, hn, -⟩ | hn)
    · exact absurd (by simp) (hn.not_mem small _ (.head _))
    · cases hn with
      | minus hn => exact ⟨_, hn, rfl⟩
  case h_3.refine_2 hplus hminus _ =>
    rintro (hn | hn)
    · exact hn
    · cases hn with
      | plus => exact (hplus _ rfl).elim
      | minus => exact (hminus _ rfl).elim

end LayoutGraph.Text
