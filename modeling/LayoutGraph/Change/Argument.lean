-- Changes as they are written by hand: a mapping `OLD=NEW`, a field
-- `SYMBOL.FIELD`, a constant `NAME=VALUE`. Blanks around a part are cut off.
import LayoutGraph.Failure
import LayoutGraph.Text.Blank
import LayoutGraph.Text.Cut

namespace LayoutGraph.Change

open Text

/-- Two trimmed names, neither of them empty. -/
def namePair? (parts : List Char × List Char) : Option (String × String) :=
  let first := trimChars parts.1
  let second := trimChars parts.2
  if first = [] ∨ second = [] then none else some (String.ofList first, String.ofList second)

/-- The old and the new name of a mapping, cut at the first `=`. -/
def parseMapping (given : String) : Except Failure (String × String) :=
  match cutFirst '=' given.toList with
  | none => .error (.invalidRemap (.notAPair given))
  | some parts => (namePair? parts).elim (.error (.invalidRemap (.emptyName given))) .ok

/-- The symbol and the field of a path, cut at the last point. -/
def parseFieldPath (given : String) : Except Failure (String × String) :=
  match cutLast '.' given.toList with
  | none => .error (.invalidOverride (.notAPath given))
  | some parts => (namePair? parts).elim (.error (.invalidOverride (.emptyPart given))) .ok

/-- The mark of a hexadecimal number, if the text starts with it. -/
def hexDigits? (cs : List Char) : Option (List Char) :=
  (dropLead? ['0', 'x'] cs).or (dropLead? ['0', 'X'] cs)

/-- A number in decimal or after a mark in hexadecimal; it may have a sign of its own. -/
def magnitude? (cs : List Char) : Option Int :=
  match hexDigits? cs with
  | some digits => signed? 16 digits
  | none => signed? 10 cs

/-- The negation of a number of 64 bits. -/
def negate (n : Int) : Except Failure Int :=
  if n = -Word.signedEnd then .error (.overflow .negate) else .ok (-n)

/-- The value of a constant: a number after at most one minus. -/
def parseValue (invalid : Failure) : List Char → Except Failure Int
  | '-' :: cs => (magnitude? cs).elim (.error invalid) negate
  | cs => (magnitude? cs).elim (.error invalid) .ok

/-- The name and the value of a constant, cut at the first `=`. -/
def parseConstant (given : String) : Except Failure Constant := do
  let invalid : Failure := .invalidOverride (.notAConstant given)
  match cutFirst '=' given.toList with
  | none => throw invalid
  | some (before, after) =>
    let name := trimChars before
    if name = [] then throw invalid
    else
      let value ← parseValue invalid (trimChars after)
      return ⟨String.ofList name, value⟩

end LayoutGraph.Change
