-- Arguments, read from left to right. An option takes its value from the
-- same argument or from the next; its value is checked when the next option
-- or the end is met, so that faults show in the order of the arguments.
import LayoutGraph.Cli.Option
import LayoutGraph.Text.Cut

namespace LayoutGraph.Cli

/-! ## Levels -/

/-- What can be given in one place: to the program, or to one of its commands. -/
structure Level where
  options : List OptionName
  commands : List String := []
  /-- The argument without an option, if there is one. -/
  positional : Option String := none
  hasVersion : Bool := false
deriving Repr, Inhabited

/-- The command that tells about others. -/
def helpCommand : String := "help"

/-! ## What is read so far -/

/-- The latest option, whose value is not checked yet. -/
inductive Pending
  | nothing
  /-- The option has no value yet. -/
  | awaiting (o : OptionName)
  | holding (o : OptionName) (value : String)
deriving DecidableEq, Repr, Inhabited

structure Scan where
  values : List (OptionName × Value) := []
  positional : Option String := none
  pending : Pending := .nothing
deriving Repr, Inhabited

namespace Scan

/-- Adds a value to those of an option. -/
def add (s : Scan) (o : OptionName) (given : String) : Except Refusal Scan := do
  if !o.repeats && s.values.any fun v => v.1 = o then throw (.usage (.repeated o.text))
  return { s with values := s.values ++ [(o, ← Value.read o given)] }

/-- Checks the value of the latest option. -/
def settle (s : Scan) : Except Refusal Scan :=
  match s.pending with
  | .nothing => .ok s
  | .awaiting o => .error (.usage (.wrongChoice o.text))
  | .holding o value => ({ s with pending := .nothing } : Scan).add o value

/-- Takes an option, with its value if that stands in the same argument. -/
def option (s : Scan) (o : OptionName) (attached : Option String) : Except Refusal Scan := do
  let s ← s.settle
  match attached with
  | some value => s.add o value
  | none => return { s with pending := .awaiting o }

/-- Takes a wish for help, once all before it is in order. -/
def wish (s : Scan) (u : Usage) : Except Refusal Scan := do
  let _ ← s.settle
  throw (.usage u)

end Scan

/-! ## Arguments with dashes -/

namespace Level

/-- An argument after two dashes: a name, and a value after a sign of equality. -/
def long (level : Level) (s : Scan) (body : List Char) : Except Refusal Scan :=
  let (name, value) := match Text.cutFirst '=' body with
    | some (name, value) => (String.ofList name, some (String.ofList value))
    | none => (String.ofList body, none)
  let flag (u : Usage) : Except Refusal Scan :=
    if value.isSome then .error (.usage (.unwantedValue ("--" ++ name))) else s.wish u
  match level.options.find? fun o => o.long = name with
  | some o => s.option o value
  | none =>
    if name = "help" then flag .help
    else if name = "version" ∧ level.hasVersion then flag .version
    else .error (.usage (.unknownArgument ("--" ++ name)))

/-- An argument after one dash: a letter, and a value that can follow at once. -/
def short (level : Level) (s : Scan) (letter : Char) (rest : List Char) : Except Refusal Scan :=
  let value := match rest with
    | [] => none
    | '=' :: value => some (String.ofList value)
    | value => some (String.ofList value)
  match level.options.find? fun o => o.short? = some letter with
  | some o => s.option o value
  | none =>
    if letter = 'h' then s.wish .help
    else if letter = 'V' ∧ level.hasVersion then s.wish .version
    else .error (.usage (.unknownArgument ("-" ++ letter.toString)))

/-- An argument without an option. -/
def plain (level : Level) (s : Scan) (trailing : Bool) (given : String) : Except Refusal Scan :=
  if level.positional.isSome ∧ s.positional.isNone then do
    return { (← s.settle) with positional := some given }
  else if level.commands.isEmpty ∨ (trailing ∧ given ∈ helpCommand :: level.commands) then
    .error (.usage (.unknownArgument given))
  else .error (.usage (.unknownCommand given))

/-! ## All arguments -/

/-- The end of a scan: all arguments are read, or a command stands in front of the rest. -/
inductive Outcome
  | finished (s : Scan)
  | command (name : String) (rest : List String) (s : Scan)
deriving Repr, Inhabited

/-- Help about a command must name one. -/
def help (level : Level) : List String → Usage
  | [] => .help
  | name :: rest =>
    if name ∈ helpCommand :: level.commands then
      match rest with
      | [] => .help
      | other :: _ => .unknownCommand other
    else .unknownCommand name

/-- Whether an argument is the value that the latest option waits for. -/
def awaits (s : Scan) : Option OptionName :=
  match s.pending with
  | .awaiting o => some o
  | _ => none

/-- Reads arguments; after a pair of dashes alone none of them is an option. -/
def scan (level : Level) (s : Scan) (trailing : Bool) : List String → Except Refusal Outcome
  | [] => .ok (.finished s)
  | given :: rest => do
    if trailing then level.scan (← level.plain s true given) true rest
    else if (awaits s).isNone ∧ level.commands ≠ [] ∧ given = helpCommand then
      throw (.usage (level.help rest))
    else if (awaits s).isNone ∧ given ∈ level.commands then return .command given rest s
    else
      match given.toList, awaits s with
      | ['-', '-'], _ => level.scan s true rest
      | '-' :: '-' :: body, _ => level.scan (← level.long s body) false rest
      | '-' :: letter :: body, _ => level.scan (← level.short s letter body) false rest
      | _, some o => level.scan { s with pending := .holding o given } false rest
      | _, none => level.scan (← level.plain s false given) false rest

end Level

end LayoutGraph.Cli
