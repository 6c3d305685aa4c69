-- The commands of the program, and how they are written as arguments.
import LayoutGraph.Change.Override
import LayoutGraph.Cli.Scan
import LayoutGraph.Log.Level

namespace LayoutGraph.Cli

inductive Command
  /-- Object files are parsed into a database. -/
  | parse (inputs : List String) (output : String)
  | remap (output : String) (mappings : List Change.Mapping)
  | override (output : String) (request : Change.Override)
  | layout (output name : String)
deriving DecidableEq, Repr, Inhabited

/-- A command and how much of the log is wanted with it. -/
structure Invocation where
  verbosity : Option Nat
  command : Command
deriving DecidableEq, Repr, Inhabited

/-! ## Values by option -/

namespace Scan

def paths (s : Scan) (o : OptionName) : List String :=
  s.values.filterMap fun
    | (p, .path path) => if p = o then some path else none
    | _ => none

def mappings (s : Scan) : List Change.Mapping :=
  s.values.filterMap fun
    | (_, .mapping m) => some m
    | _ => none

def constants (s : Scan) : List Constant :=
  s.values.filterMap fun
    | (_, .constant c) => some c
    | _ => none

def field? (s : Scan) : Option (String × String) :=
  s.values.findSome? fun
    | (_, .field symbol name) => some (symbol, name)
    | _ => none

def type? (s : Scan) : Option String :=
  s.values.findSome? fun
    | (_, .name name) => some name
    | _ => none

def verbosity? (s : Scan) : Option Nat :=
  s.values.findSome? fun
    | (_, .level n) => some n
    | _ => none

end Scan

/-! ## The commands -/

/-- The names of the commands, and what can be given to each. -/
def levels : List (String × Level) :=
  [("parse", { options := [.input, .output, .mode, .verbosity] }),
   ("remap", { options := [.output, .map, .verbosity] }),
   ("override", { options := [.output, .field, .type, .enum, .verbosity] }),
   ("show", { options := [.output, .verbosity], positional := some "NAME" })]

/-- What can be given to the program itself. -/
def root : Level := { options := [.verbosity], commands := levels.map Prod.fst, hasVersion := true }

def missing (o : OptionName) : Refusal := .usage (.missingArguments [o.text])

def requiredPath (s : Scan) (o : OptionName) : Except Refusal String :=
  ((s.paths o).head?).elim (.error (missing o)) .ok

/-- The replacement of an override. Without constants it is a named type. -/
def replacement (s : Scan) : Except Refusal Change.Replacement :=
  match s.constants, s.type? with
  | [], some name => .ok (.named name)
  | [], none => .error (missing .type)
  | constants, name => .ok (.enumeration name constants)

/-- The command of a name, from what is given to it. -/
def commandOf (name : String) (s : Scan) : Except Refusal Command := do
  let output ← requiredPath s .output
  match name with
  | "parse" =>
    let inputs := s.paths .input
    if inputs.isEmpty then throw (missing .input) else return .parse inputs output
  | "remap" => if s.mappings.isEmpty then throw (missing .map) else return .remap output s.mappings
  | "override" =>
    match s.field? with
    | none => throw (missing .field)
    | some (symbol, field) => return .override output ⟨symbol, field, ← replacement s⟩
  | _ =>
    match s.positional with
    | none => throw (.usage (.missingArguments ["NAME"]))
    | some shown => return .layout output shown

/-- The command in arguments. What is given to the command is checked before what is given to the
program, and a verbosity given to the command counts for more. -/
def Invocation.ofArguments (arguments : List String) : Except Refusal Invocation := do
  match ← root.scan {} false arguments with
  | .finished s =>
    let s ← s.settle
    throw (.usage (if s.values.isEmpty then .nothingGiven else .missingCommand))
  | .command name rest s =>
    let level := (levels.lookup name).getD default
    match ← level.scan {} false rest with
    | .command other _ _ => throw (.usage (.unknownCommand other))
    | .finished own =>
      let own ← own.settle
      let command ← commandOf name own
      let s ← s.settle
      return ⟨own.verbosity?.orElse fun _ => s.verbosity?, command⟩

end LayoutGraph.Cli
