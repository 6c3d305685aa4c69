-- Why arguments are no command: a fault of theirs, or a wish for help.

namespace LayoutGraph.Cli

inductive Usage
  /-- A value is not of the form that its option takes. -/
  | refusedValue (option value : String)
  /-- A value is missing, or is none of those that its option knows. -/
  | wrongChoice (option : String)
  | missingArguments (names : List String)
  | unknownArgument (given : String)
  | unknownCommand (given : String)
  /-- An option with one value is given twice. -/
  | repeated (option : String)
  | unwantedValue (option : String)
  | nothingGiven
  | missingCommand
  | help
  | version
deriving DecidableEq, Repr, Inhabited

namespace Usage

/-- The name of the program and its version. -/
def programName : String := "juicer"
def programVersion : String := "0.0.0"

/-- What the program is for and which commands it has. -/
def helpText : String :=
  "Extracts type layouts from DWARF debug information into a database\n\n"
    ++ "Usage: " ++ programName ++ " [-v LEVEL] COMMAND\n\n"
    ++ "  parse -i FILE... -o DATABASE [-m sqlite]\n"
    ++ "  remap -o DATABASE --map OLD=NEW...\n"
    ++ "  override -o DATABASE --field SYMBOL.FIELD [--type NAME] [--enum NAME=VALUE...]\n"
    ++ "  show -o DATABASE NAME\n"
    ++ "  help [COMMAND]\n"

def text : Usage → String
  | .refusedValue option value => "invalid value '" ++ value ++ "' for '" ++ option ++ "'"
  | .wrongChoice option => "no value that '" ++ option ++ "' takes is given"
  | .missingArguments names => "required arguments are missing: " ++ " ".intercalate names
  | .unknownArgument given => "unexpected argument '" ++ given ++ "'"
  | .unknownCommand given => "unrecognized command '" ++ given ++ "'"
  | .repeated option => "'" ++ option ++ "' cannot be given twice"
  | .unwantedValue option => "'" ++ option ++ "' takes no value"
  | .nothingGiven | .help => helpText
  | .missingCommand => "a command is missing"
  | .version => programName ++ " " ++ programVersion ++ "\n"

/-- Help and the version are no faults. -/
def exitCode : Usage → Nat
  | .help | .version => 0
  | _ => 2

end Usage

end LayoutGraph.Cli
