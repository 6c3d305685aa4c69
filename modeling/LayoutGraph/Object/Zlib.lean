-- Streams in the zlib format whose blocks are stored as they are. A stream
-- is read as far as it goes, or up to the number of bytes that is asked for.
import LayoutGraph.Bytes

namespace LayoutGraph.Object.Zlib

/-! ## The checksum -/

/-- The modulus of both sums. -/
def modulus : Nat := 65521

/-- The checksum Adler-32 of some bytes. -/
def adler (bytes : List UInt8) : Nat :=
  let (a, b) := bytes.foldl (fun (a, b) byte =>
    let a := (a + byte.toNat) % modulus
    (a, (b + a) % modulus)) (1, 0)
  b * 65536 + a

/-! ## Blocks -/

/-- What the blocks of a stream give. -/
inductive Inflated
  /-- All bytes of the stream, and what follows its last block. -/
  | whole (bytes rest : List UInt8)
  /-- The bytes up to the number that was asked for, or up to where the stream breaks off. -/
  | cut (bytes : List UInt8)
deriving DecidableEq, Repr, Inhabited

/-- The blocks of a stream, of which at most `room` bytes are asked for. A block is a byte that says
whether it is the last, its length twice, the second time inverted, and its bytes. -/
def blocks (room : Nat) (done : List UInt8) : (fuel : Nat) → List UInt8 → Option Inflated
  | fuel + 1, first :: rest =>
    if first.toNat / 2 % 4 ≠ 0 then none
    else
      match rest with
      | l0 :: l1 :: n0 :: n1 :: rest =>
        let length := Bytes.lowFirst [l0, l1]
        if length + Bytes.lowFirst [n0, n1] ≠ 0xffff then none
        else
          let run := rest.take (min length (room - done.length))
          let done := done ++ run
          let rest := rest.drop length
          if run.length < length then some (.cut done)
          else if first.toNat % 2 = 1 then some (.whole done rest)
          else blocks room done fuel rest
      | _ => some (.cut done)
  | _, _ => some (.cut done)

/-! ## Streams -/

/-- Whether two bytes can start a stream: deflate with a window of at most 32 KiB, no dictionary,
and a number that 31 divides. -/
def isHeader (method flags : UInt8) : Bool :=
  method.toNat % 16 = 8 && method.toNat / 16 ≤ 7 && flags.toNat / 32 % 2 = 0 &&
    (method.toNat * 256 + flags.toNat) % 31 = 0

/-- The bytes of a stream, at most `room` of them, and as far as the stream goes. One that is whole
must have its right checksum. -/
def inflate (room : Nat) (stream : List UInt8) : Option (List UInt8) :=
  match stream with
  | method :: flags :: rest =>
    if isHeader method flags then
      match blocks room [] (rest.length + 1) rest with
      | some (.cut bytes) => some bytes
      | some (.whole bytes rest) =>
        let checksum := rest.take 4
        if checksum.length = 4 ∧ Bytes.toNumber false checksum ≠ adler bytes then none
        else some bytes
      | none => none
    else none
  | _ => some []

end LayoutGraph.Object.Zlib
