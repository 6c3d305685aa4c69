-- Bytes, and the numbers that runs of bytes stand for.

namespace LayoutGraph

abbrev Bytes := Array UInt8

namespace Bytes

/-- The bytes of a text in UTF-8. -/
def ofText (s : String) : List UInt8 := s.toUTF8.data.toList

/-- The number of bytes, the lowest first. -/
def lowFirst : List UInt8 → Nat
  | [] => 0
  | b :: rest => b.toNat + 256 * lowFirst rest

/-- The number of bytes in a byte order. -/
def toNumber (littleEndian : Bool) (bytes : List UInt8) : Nat :=
  lowFirst (if littleEndian then bytes else bytes.reverse)

/-- Whether `count` bytes follow from `start` on. No bytes follow anywhere. -/
def has (bytes : Bytes) (start count : Nat) : Bool :=
  decide (count = 0 ∨ start + count ≤ bytes.size)

/-- The `count` bytes from `start` on, if there are so many. -/
def slice? (bytes : Bytes) (start count : Nat) : Option (List UInt8) :=
  if bytes.has start count then some (bytes.extract start (start + count)).toList else none

/-- The number in the `count` bytes from `start` on. -/
def numberAt? (bytes : Bytes) (littleEndian : Bool) (start count : Nat) : Option Nat :=
  (slice? bytes start count).map (toNumber littleEndian)

theorem lowFirst_lt (bytes : List UInt8) : lowFirst bytes < 1 <<< (8 * bytes.length) := by
  induction bytes with
  | nil => exact Nat.zero_lt_one
  | cons b rest ih =>
    have hb : b.toNat < 256 := b.toNat_lt
    have hs : 1 <<< (8 * (rest.length + 1)) = 1 <<< (8 * rest.length) * 256 := by
      rw [Nat.mul_succ, Nat.shiftLeft_add, Nat.shiftLeft_eq _ 8]
    rw [List.length_cons, hs, lowFirst]
    omega

end Bytes

end LayoutGraph
