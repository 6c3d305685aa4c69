-- Sizes and offsets are words of 64 bits, held as natural numbers. Layout
-- arithmetic stops at the greatest word, location arithmetic wraps at it.

namespace LayoutGraph.Word

/-- The number of words of 64 bits. -/
def count : Nat := 0x10000000000000000

/-- The number of words of 32 bits. -/
def halfCount : Nat := 0x100000000

/-- The end of the numbers that a word with a sign can hold. -/
def signedEnd : Nat := 0x8000000000000000

/-- The greatest word. -/
def greatest : Nat := count - 1

/-- The number, or the greatest word if the number is above it. -/
def clamp (n : Nat) : Nat := min n greatest

/-- A sum that stops at the greatest word. -/
def add (a b : Nat) : Nat := clamp (a + b)

/-- A product that stops at the greatest word. -/
def mul (a b : Nat) : Nat := clamp (a * b)

/-- The number less its multiples of `count`. -/
def wrap (n : Nat) : Nat := n % count

/-- The number that a field of `bits` bits holds when its top bit is a sign. -/
def signed (bits n : Nat) : Int :=
  if n < 1 <<< (bits - 1) then n else (n : Int) - (1 <<< bits : Nat)

theorem clamp_eq {n : Nat} (h : n ≤ greatest) : clamp n = n := Nat.min_eq_left h

end LayoutGraph.Word
