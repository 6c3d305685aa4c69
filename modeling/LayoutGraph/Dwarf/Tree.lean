-- The entries of a unit and how they hang together: the order in which they
-- are written down, and the children of each.
import LayoutGraph.Dwarf.Unit

namespace LayoutGraph.Dwarf

/-! ## Entries -/

/-- An entry as it is stored. -/
structure Die where
  place : Nat
  tag : Tag
  hasChildren : Bool
  attributes : AttributeList
  /-- The place after the attributes, if they can all be read. -/
  next : Nat
deriving DecidableEq, Repr, Inhabited

/-- What can stand at a place of a unit. -/
inductive Item
  | die (d : Die)
  /-- The end of a row of siblings, and the place after it. -/
  | null (next : Nat)
deriving DecidableEq, Repr, Inhabited

namespace CompiledUnit

/-- The item at a place of the unit. -/
def itemAt (u : CompiledUnit) (place : Nat) : Trial Item := do
  let (code, c) ← Read.on (u.cursorAt place) Read.unsigned
  if code = 0 then return .null (u.placeOf c)
  match u.abbreviations.find? fun a => a.code = code with
  | none => throw .unknownAbbreviation
  | some a =>
    let (attributes, c) ← AttributeList.read u.encoding a.attributes c
    return .die ⟨place, a.tag, a.hasChildren, attributes, u.placeOf c⟩

/-! ## The order of the entries -/

/-- The first entry from a place on. -/
def rootFrom (u : CompiledUnit) : (fuel place : Nat) → Trial Die
  | 0, _ => throw .noUnitEntry
  | fuel + 1, place => do
    if u.length ≤ place then throw .noUnitEntry
    match ← u.itemAt place with
    | .null next => u.rootFrom fuel next
    | .die d => return d

/-- The first entry of a unit. -/
def root (u : CompiledUnit) : Trial Die := u.rootFrom (u.length + 1) u.headerBytes

/-- The entries from a place on, after those of `seen`, each with the levels by which it stands
below the one before it; the next stands `step` levels below. An entry whose attributes cannot all
be read is the last. Every item takes a byte, so the bytes bound their number. -/
def walkFrom (u : CompiledUnit) (seen : List (Int × Die)) :
    (fuel place : Nat) → (step : Int) → Script (Readable (Int × Die))
  | 0, _, _ => return .found seen none
  | fuel + 1, place, step => do
    if u.length ≤ place then return .found seen none
    match ← (u.itemAt place).run with
    | .error defect => return .found seen (some defect)
    | .ok (.null next) => u.walkFrom seen fuel next (step - 1)
    | .ok (.die d) =>
      let seen := (step, d) :: seen
      match d.attributes.defect with
      | some defect => return .found seen (some defect)
      | none => u.walkFrom seen fuel d.next (if d.hasChildren then 1 else 0)

/-- All entries of the unit in the order of their places, the root first. -/
def walk (u : CompiledUnit) : Script (Readable (Int × Die)) :=
  u.walkFrom [] (u.length + 1) u.headerBytes 0

/-! ## The children of an entry -/

/-- The place where the next sibling of an entry starts, if the entry says so itself and points
forward into its unit. -/
def siblingPlace? (u : CompiledUnit) (d : Die) : Option Nat :=
  match d.attributes.find? .sibling with
  | .ok (some (.unitReference place)) =>
    if d.place < place && u.holds place then some place else none
  | _ => none

/-- The rest of a row of siblings, from a place `depth` levels below it, after those of `seen`. A
null ends the level it stands on, and the end of the unit ends all of them. -/
def siblingsFrom (u : CompiledUnit) (seen : List Die) :
    (fuel place depth : Nat) → Script (Readable Die)
  | 0, _, _ => return .found seen none
  | fuel + 1, place, depth => do
    if u.length ≤ place then return .found seen none
    match ← (u.itemAt place).run with
    | .error defect => return .found seen (some defect)
    | .ok (.null next) =>
      match depth with
      | 0 => return .found seen none
      | depth + 1 => u.siblingsFrom seen fuel next depth
    | .ok (.die d) =>
      let seen := if depth = 0 then d :: seen else seen
      match (if d.hasChildren then u.siblingPlace? d else none), d.attributes.defect with
      | some place, _ => u.siblingsFrom seen fuel place depth
      | none, some defect => return .found seen (some defect)
      | none, none => u.siblingsFrom seen fuel d.next (if d.hasChildren then depth + 1 else depth)

/-- The children of an entry of the unit, in order. -/
def children (u : CompiledUnit) (d : Die) : Script (Readable Die) :=
  if d.hasChildren then
    match d.attributes.defect with
    | some defect => return .broken defect
    | none => u.siblingsFrom [] (u.length + 1) d.next 0
  else return .nil

end CompiledUnit

/-! ## Outlines -/

/-- The entries of a unit as far as the decoding of types asks for them. -/
structure Outline where
  /-- All entries in order, each with the levels by which it stands below the one before it. -/
  walk : Script (Readable (Int × Die))
  children : Die → Script (Readable Die)

def CompiledUnit.outline (u : CompiledUnit) : Outline := ⟨u.walk, u.children⟩

end LayoutGraph.Dwarf
