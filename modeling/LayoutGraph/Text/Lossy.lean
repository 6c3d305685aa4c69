-- UTF-8 read without fail. Each longest run of bytes that begins a character
-- and does not complete it reads as one replacement character.

namespace LayoutGraph.Text

/-- Stands for bytes that are no character. -/
def replacement : Char := '\ufffd'

/-- The least and the greatest byte that may follow, byte by byte, after the first byte of a
character. No character starts with any other byte. -/
def followers? (first : Nat) : Option (List (Nat × Nat)) :=
  let later : Nat × Nat := (0x80, 0xbf)
  if first < 0x80 then some []
  else if first < 0xc2 then none
  else if first ≤ 0xdf then some [later]
  else if first = 0xe0 then some [(0xa0, 0xbf), later]
  else if first = 0xed then some [(0x80, 0x9f), later]
  else if first ≤ 0xef then some [later, later]
  else if first = 0xf0 then some [(0x90, 0xbf), later, later]
  else if first ≤ 0xf3 then some [later, later, later]
  else if first = 0xf4 then some [(0x80, 0x8f), later, later]
  else none

/-- How many bytes lie in their ranges before the first that does not. -/
def matching : List (Nat × Nat) → List UInt8 → Nat
  | (low, high) :: ranges, b :: rest =>
    if low ≤ b.toNat ∧ b.toNat ≤ high then 1 + matching ranges rest else 0
  | _, _ => 0

/-- The bits that a first byte gives to its character. -/
def firstBits (first followers : Nat) : Nat :=
  match followers with
  | 0 => first
  | 1 => first % 32
  | 2 => first % 16
  | _ => first % 8

/-- The character of a first byte and the bytes that follow it. -/
def character (first : Nat) (rest : List UInt8) : Char :=
  Char.ofNat (rest.foldl (fun n b => n * 64 + b.toNat % 64) (firstBits first rest.length))

/-- The first character of some bytes and the number of bytes after the first that it takes. -/
def firstCharacter (first : UInt8) (rest : List UInt8) : Char × Nat :=
  match followers? first.toNat with
  | none => (replacement, 0)
  | some ranges =>
    let taken := matching ranges rest
    if taken = ranges.length then (character first.toNat (rest.take taken), taken)
    else (replacement, taken)

/-- The characters of bytes. -/
def lossyChars : List UInt8 → List Char
  | [] => []
  | first :: rest =>
    let (c, taken) := firstCharacter first rest
    c :: lossyChars (rest.drop taken)
termination_by bytes => bytes.length
decreasing_by simp only [List.length_drop, List.length_cons]; omega

/-- The text of bytes. -/
def lossy (bytes : List UInt8) : String := String.ofList (lossyChars bytes)

end LayoutGraph.Text
