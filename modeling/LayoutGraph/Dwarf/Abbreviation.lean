-- Abbreviations: what the entries of a unit look like, by code. A table of
-- them lies in the section `.debug_abbrev`.
import LayoutGraph.Dwarf.Name
import LayoutGraph.Dwarf.Reader

namespace LayoutGraph.Dwarf

/-- An attribute that every entry of an abbreviation has, and the code of its form. -/
structure AttributeSpec where
  name : AttributeName
  form : Nat
  implicitConstant : Option Int := none
deriving DecidableEq, Repr, Inhabited

structure Abbreviation where
  code : Nat
  tag : Tag
  hasChildren : Bool
  attributes : List AttributeSpec
deriving DecidableEq, Repr, Inhabited

namespace Abbreviation

/-- The next attribute, or nothing at the pair of zeros that ends them. -/
def readSpec : Read (Option AttributeSpec) := do
  let name ← Read.unsigned16
  let form ← Read.unsigned16
  if name = 0 then
    if form = 0 then return none else throw .nonzeroEnd
  else if form = 0 then throw .zeroForm
  else if form = implicitConstantCode then
    return some ⟨.ofCode name, form, some (← Read.signed)⟩
  else return some ⟨.ofCode name, form, none⟩

/-- The attributes up to their end, after those of `seen`; `fuel` bounds their number. -/
def readSpecs (seen : List AttributeSpec) : (fuel : Nat) → Read (List AttributeSpec)
  | 0 => throw .endOfInput
  | fuel + 1 => do
    match ← readSpec with
    | none => return seen.reverse
    | some spec => readSpecs (spec :: seen) fuel

/-- The next abbreviation, or nothing at the end of the table, which is a zero or the end of the
section. -/
def read (fuel : Nat) : Read (Option Abbreviation) := do
  if (← get).atEnd then return none
  let code ← Read.unsigned
  if code = 0 then return none
  let tag ← Read.unsigned16
  if tag = 0 then throw .zeroTag
  let children ← Read.byte
  if 1 < children.toNat then throw .childrenFlag
  let attributes ← readSpecs [] fuel
  return some ⟨code, .ofCode tag, children = 1, attributes⟩

/-- The abbreviations up to the end of their table, after those of `seen`. -/
def readTableFrom (seen : List Abbreviation) : (fuel : Nat) → Read (List Abbreviation)
  | 0 => throw .endOfInput
  | fuel + 1 => do
    match ← read (fuel + 1) with
    | none => return seen.reverse
    | some a =>
      if seen.any fun b => b.code = a.code then throw .repeatedAbbreviation
      else readTableFrom (a :: seen) fuel

/-- The table at a place of the section. No table has more parts than the section has bytes. -/
def table (place : Nat) : Trial (List Abbreviation) :=
  Read.ofPart .abbreviations do
    let fuel := (← get).stop + 1
    Read.skip place
    readTableFrom [] fuel

end Abbreviation

end LayoutGraph.Dwarf
