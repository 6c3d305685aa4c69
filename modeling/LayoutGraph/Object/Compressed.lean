-- The bytes of sections as a file holds them: as they are, or compressed
-- behind a header that tells how many bytes they stand for.
import LayoutGraph.Object.Basic
import LayoutGraph.Object.Zlib

namespace LayoutGraph.Object

/-- How bytes are compressed. -/
inductive Compression
  | none
  | zlib
  /-- Streams of this kind are not read, unless they are empty. -/
  | zstandard
deriving DecidableEq, Repr, Inhabited

/-- Where the bytes of a section lie in a file, and what they stand for. -/
structure StoredRange where
  compression : Compression
  place : Nat
  size : Nat
  /-- The number of bytes that compressed bytes stand for. -/
  fullSize : Nat
deriving DecidableEq, Repr, Inhabited

namespace StoredRange

/-- The most bytes that memory can have room for. -/
def room : Nat := 0x800000000000

/-- What a stream stands for, as far as it goes. -/
def inflate (compression : Compression) (fullSize : Nat) (stream : List UInt8) :
    Except SectionDefect (List UInt8) :=
  match compression with
  | .none => .ok stream
  | .zlib => (Zlib.inflate fullSize stream).elim (.error .zlib) .ok
  | .zstandard => if stream.isEmpty then .ok [] else .error .zstandard

/-- The bytes that a stream stands for, which must be as many as its header says. -/
def expand (compression : Compression) (fullSize : Nat) (stream : List UInt8) :
    Except SectionDefect Bytes := do
  if compression = .none then return stream.toArray
  if room ≤ fullSize then throw .tooLarge
  let bytes ← inflate compression fullSize stream
  if bytes.length = fullSize then return bytes.toArray else throw .sizeMismatch

/-- The bytes of a section. -/
def read (r : StoredRange) (file : Bytes) : Except SectionDefect Bytes :=
  match file.slice? r.place r.size with
  | some stream => expand r.compression r.fullSize stream
  | none => .error .outsideFile

/-- Bytes that are stored as they are. A section can have none. -/
def plain : Option (Nat × Nat) → StoredRange
  | some (place, size) => ⟨.none, place, size, size⟩
  | none => ⟨.none, 0, 0, 0⟩

/-! ## Headers in the bytes -/

/-- The start of a section that says in its name that it is compressed. -/
def magic : List UInt8 := [0x5a, 0x4c, 0x49, 0x42, 0, 0, 0, 0]

/-- The bytes in front of the stream: the start and the number of bytes, high byte first. -/
def headerSize : Nat := 12

/-- The stream of a section that says in its name that it is compressed. -/
def ofNamed (file : Bytes) (place size : Nat) : Except SectionDefect StoredRange := do
  match file.slice? place magic.length with
  | none => throw .gnuTooShort
  | some start =>
    if start ≠ magic then throw .gnuHeader
    match file.numberAt? false (place + magic.length) 4 with
    | none => throw .gnuTooShort
    | some fullSize =>
      if size < headerSize then throw .gnuTooShort
      return ⟨.zlib, place + headerSize, size - headerSize, fullSize⟩

end StoredRange

end LayoutGraph.Object
