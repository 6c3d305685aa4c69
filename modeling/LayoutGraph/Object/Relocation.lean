-- Relocations as object files state them, and what they make of the numbers
-- in a section. Where one of them cannot be applied, none is.
import LayoutGraph.Dwarf.Reader
import LayoutGraph.Object.Fault

namespace LayoutGraph.Object

/-- What a relocation asks for, as far as debug sections use it. -/
inductive RelocationKind
  /-- The address of the target is stored. -/
  | absolute
  | other
deriving DecidableEq, Repr, Inhabited

inductive RelocationTarget
  | ofSymbol (index : Nat)
  | ofSection (index : Nat)
  | nothing
deriving DecidableEq, Repr, Inhabited

/-- One relocation as it is stated. -/
structure StatedRelocation where
  place : Nat
  kind : RelocationKind
  target : RelocationTarget
  /-- A number of 64 bits that is added to the address of the target. -/
  addend : Nat
  /-- Whether the number at the place is added too. -/
  addsToStored : Bool
deriving DecidableEq, Repr, Inhabited

/-- The addresses that targets stand for. -/
structure Addresses where
  ofSymbol? : Nat → Option Nat
  /-- The address of a section; that of a debug section is zero. -/
  ofSection? : Nat → Option Nat

namespace Addresses

/-- The address of a target. -/
def ofTarget (addresses : Addresses) : RelocationTarget → Except RelocationDefect Nat
  | .ofSymbol index => (addresses.ofSymbol? index).elim (.error .unknownSymbol) .ok
  | .ofSection index => (addresses.ofSection? index).elim (.error .unknownSection) .ok
  | .nothing => .error .unsupportedTarget

/-- What a relocation makes of the number at its place. -/
def resolve (addresses : Addresses) (r : StatedRelocation) :
    Except RelocationDefect Dwarf.Relocation :=
  match r.kind with
  | .other => .error .unsupportedType
  | .absolute => do
    let address ← addresses.ofTarget r.target
    return ⟨Word.wrap (address + r.addend), r.addsToStored⟩

/-- The relocations by their places, after those of `known`. -/
def resolveFrom (addresses : Addresses) (known : List (Nat × Dwarf.Relocation)) :
    List StatedRelocation → Except RelocationDefect (List (Nat × Dwarf.Relocation))
  | [] => .ok known
  | r :: rest => do
    let resolved ← addresses.resolve r
    if (known.lookup r.place).isSome then throw .repeatedPlace
    else addresses.resolveFrom ((r.place, resolved) :: known) rest

/-- The relocations of a section by their places. -/
def resolveAll (addresses : Addresses) (rs : List StatedRelocation) :
    Except RelocationDefect (List (Nat × Dwarf.Relocation)) :=
  addresses.resolveFrom [] rs

end Addresses

end LayoutGraph.Object
