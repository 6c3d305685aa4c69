-- Whole numbers as text. A numeral is a run of digits with at most one
-- sign in front, and the number must lie between -2^63 and 2^63-1.
import LayoutGraph.Word

namespace LayoutGraph.Text

/-! ## Reading -/

/-- The value of a digit below the radix; letters count from ten in either case. -/
def digit? (radix : Nat) (c : Char) : Option Nat :=
  let value :=
    if '0' ≤ c ∧ c ≤ '9' then some (c.toNat - '0'.toNat)
    else if 'a' ≤ c ∧ c ≤ 'z' then some (c.toNat - 'a'.toNat + 10)
    else if 'A' ≤ c ∧ c ≤ 'Z' then some (c.toNat - 'A'.toNat + 10)
    else none
  value.filter (· < radix)

/-- The value of digits alone, read on from `acc`. -/
def digitsFrom? (radix : Nat) : Nat → List Char → Option Nat
  | acc, [] => some acc
  | acc, c :: cs => (digit? radix c).bind fun d => digitsFrom? radix (acc * radix + d) cs

/-- The value of one or more digits. -/
def natural? (radix : Nat) : List Char → Option Nat
  | [] => none
  | cs => digitsFrom? radix 0 cs

/-- The numbers that fit 64 bits with a sign. -/
def fitsSigned (n : Int) : Bool := decide (-Word.signedEnd ≤ n) && decide (n < Word.signedEnd)

/-- A numeral with at most one sign, of either kind, in front. -/
def signed? (radix : Nat) : List Char → Option Int
  | '+' :: cs => ((natural? radix cs).map Int.ofNat).filter fitsSigned
  | '-' :: cs => ((natural? radix cs).map fun n => -Int.ofNat n).filter fitsSigned
  | cs => ((natural? radix cs).map Int.ofNat).filter fitsSigned

/-- What follows a sign, if there is one. -/
def withoutSign : List Char → List Char
  | '+' :: cs | '-' :: cs => cs
  | cs => cs

/-- One or more digits, with a sign in front or not. -/
def isExponent (cs : List Char) : Bool :=
  let digits := withoutSign cs
  !digits.isEmpty && digits.all Char.isDigit

/-- A number with a point or an exponent or without, an infinite one, or none. -/
def isReal (cs : List Char) : Bool :=
  let cs := withoutSign cs
  let whole := cs.takeWhile Char.isDigit
  let (part, rest) := match cs.dropWhile Char.isDigit with
    | '.' :: rest => (rest.takeWhile Char.isDigit, rest.dropWhile Char.isDigit)
    | rest => ([], rest)
  let hasEnd := match rest with
    | [] => true
    | 'e' :: exponent | 'E' :: exponent => isExponent exponent
    | _ => false
  (!(whole ++ part).isEmpty && hasEnd)
    || ["inf", "infinity", "nan"].contains (String.ofList (cs.map Char.toLower))

/-! ## Writing -/

/-- Hexadecimal digits in lower case, with no mark in front. -/
def hex (n : Nat) : String := String.ofList (Nat.toDigits 16 n)

end LayoutGraph.Text
