-- How a program sets its log up: the format and the filter come from the
-- environment, unless a verbosity is given, and a log file may be named.
import LayoutGraph.Files
import LayoutGraph.Log.Line

namespace LayoutGraph.Log

/-- What the environment says about the log. -/
structure Environment where
  filter : Option String := none
  format : Option String := none
  file : Option String := none
deriving DecidableEq, Repr, Inhabited

namespace Environment

/-- The format that is named. With a verbosity a word that is no format counts for nothing. -/
def chosenFormat (env : Environment) (verbosity : Option Level) : Except SetupFault Format :=
  match env.format, verbosity with
  | none, _ => .ok .pretty
  | some word, none => Format.parse word
  | some word, some _ => .ok ((Format.ofText? word).getD .pretty)

/-- The filter that is named. Without a sound one, events are shown up to `info`. -/
def chosenFilter (env : Environment) (verbosity : Option Level) : Filter :=
  match verbosity with
  | some level => .upTo level
  | none => (env.filter.bind Filter.ofText?).getD (.upTo .info)

/-- The parts of a path that lead somewhere. -/
def stepsOf (path : String) : List String := (pathParts path).filter fun p => p ≠ "" && p ≠ "."

/-- Makes the directory of a log file. The last part of its path must be a name. -/
def makeLogDirectory (files : Files) (path : String) : Except SetupFault Files :=
  match (stepsOf path).getLast? with
  | none | some ".." => .error (.noFileName path)
  | some _ =>
    match files.makeDirectories (files.startOf path).1 (stepsOf path).dropLast with
    | .ok files => .ok files
    | .error fault => .error (.file fault.text)

/-- The log as the environment and the verbosity set it up. -/
def setUp (env : Environment) (verbosity : Option Level) (files : Files) :
    Except SetupFault (Setup × Files) := do
  let format ← env.chosenFormat verbosity
  let files ← match env.file.filter fun path => !path.isEmpty with
    | some path => makeLogDirectory files path
    | none => pure files
  return (⟨format, env.chosenFilter verbosity⟩, files)

end Environment

end LayoutGraph.Log
