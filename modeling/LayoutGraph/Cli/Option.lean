-- The options of the program and the values that they take.
import LayoutGraph.Change.Argument
import LayoutGraph.Change.Remap
import LayoutGraph.Cli.Usage

namespace LayoutGraph.Cli

/-! ## Options -/

inductive OptionName
  | verbosity
  | input
  | output
  | mode
  | map
  | field
  | type
  | enum
deriving DecidableEq, Repr, Inhabited

namespace OptionName

def long : OptionName → String
  | .verbosity => "verbosity"
  | .input => "input"
  | .output => "output"
  | .mode => "mode"
  | .map => "map"
  | .field => "field"
  | .type => "type"
  | .enum => "enum"

def short? : OptionName → Option Char
  | .verbosity => some 'v'
  | .input => some 'i'
  | .output => some 'o'
  | .mode => some 'm'
  | _ => none

/-- Whether the option can be given more than once. -/
def repeats : OptionName → Bool
  | .input | .map | .enum => true
  | _ => false

def text (o : OptionName) : String := "--" ++ o.long

end OptionName

/-! ## Values -/

inductive Value
  | level (n : Nat)
  | path (p : String)
  | mode
  | mapping (m : Change.Mapping)
  | field (symbol name : String)
  | name (s : String)
  | constant (c : Constant)
deriving DecidableEq, Repr, Inhabited

/-- Why reading arguments ends: they are no command, or a number in them left its 64 bits. -/
inductive Refusal
  | usage (u : Usage)
  | failure (f : Failure)
deriving DecidableEq, Repr, Inhabited

namespace Value

/-- A value that has a form of its own. Only an overflow is not the fault of the value. -/
def refusing {α : Type} (o : OptionName) (given : String) : Except Failure α → Except Refusal α
  | .ok a => .ok a
  | .error (.overflow operation) => .error (.failure (.overflow operation))
  | .error _ => .error (.usage (.refusedValue o.text given))

/-- A verbosity from one to four. -/
def readLevel (given : String) : Except Refusal Value :=
  match Text.signed? 10 given.toList with
  | some n =>
    if 1 ≤ n ∧ n ≤ 4 then .ok (.level n.toNat)
    else .error (.usage (.refusedValue OptionName.verbosity.text given))
  | none => .error (.usage (.refusedValue OptionName.verbosity.text given))

/-- The value of an option. -/
def read (o : OptionName) (given : String) : Except Refusal Value :=
  match o with
  | .verbosity => readLevel given
  | .input | .output =>
    if given.isEmpty then .error (.usage (.wrongChoice o.text)) else .ok (.path given)
  | .mode => if given = "sqlite" then .ok .mode else .error (.usage (.wrongChoice o.text))
  | .map => (refusing o given (Change.parseMapping given)).map fun (old, new) => .mapping ⟨old, new⟩
  | .field =>
    (refusing o given (Change.parseFieldPath given)).map fun (symbol, part) => .field symbol part
  | .type => .ok (.name given)
  | .enum => (refusing o given (Change.parseConstant given)).map .constant

end Value

end LayoutGraph.Cli
