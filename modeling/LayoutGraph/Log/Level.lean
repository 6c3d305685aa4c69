-- Log levels and log formats, and the words that name them.
import LayoutGraph.Text.Letter

namespace LayoutGraph.Log

/-! ## Levels -/

inductive Level
  | error
  | warn
  | info
  | debug
  | trace
deriving DecidableEq, Repr, Inhabited

namespace Level

/-- Zero for the most severe level; a filter admits the levels up to its own. -/
def rank : Level → Nat
  | .error => 1
  | .warn => 2
  | .info => 3
  | .debug => 4
  | .trace => 5

/-- A level in capitals, as in a log line. -/
def capitals : Level → String
  | .error => "ERROR"
  | .warn => "WARN"
  | .info => "INFO"
  | .debug => "DEBUG"
  | .trace => "TRACE"

/-- A level by its word or its short word, in any case. -/
def ofText? (s : String) : Option Level :=
  match Text.lower s with
  | "error" | "err" => some .error
  | "warn" | "warning" => some .warn
  | "info" => some .info
  | "debug" | "dbg" => some .debug
  | "trace" => some .trace
  | _ => none

/-- The level of a verbosity from one to four. -/
def ofVerbosity? : Nat → Option Level
  | 1 => some .error
  | 2 => some .warn
  | 3 => some .info
  | 4 => some .debug
  | _ => none

end Level

/-! ## Formats -/

inductive Format
  | pretty
  | json
deriving DecidableEq, Repr, Inhabited

/-- A format by one of its words, in any case. -/
def Format.ofText? (s : String) : Option Format :=
  match Text.lower s with
  | "pretty" | "dev" | "development" => some .pretty
  | "json" | "prod" | "production" => some .json
  | _ => none

/-! ## Failures -/

/-- Why a log cannot be set up. -/
inductive SetupFault
  | unknownFormat (given : String)
  | unknownLevel (given : String)
  | verbosity (given : Nat)
  | noFileName (path : String)
  | file (reason : String)
deriving DecidableEq, Repr, Inhabited

namespace SetupFault

/-- The wording of the fault alone. -/
def reason : SetupFault → String
  | .unknownFormat given => "Unknown log format: " ++ given ++ ". Use 'pretty' or 'json'"
  | .unknownLevel given =>
    "Unknown log level: " ++ given ++ ". Use 'error', 'warn', 'info', 'debug', or 'trace'"
  | .verbosity given => "verbosity " ++ toString given ++ " is not in 1..=4"
  | .noFileName path => path
  | .file reason => reason

/-- The wording of the fault with its kind. -/
def message (f : SetupFault) : String :=
  (match f with
    | .unknownFormat _ => "Invalid log format: "
    | .unknownLevel _ | .verbosity _ => "Invalid log level: "
    | .noFileName _ => "Invalid log file path: "
    | .file _ => "File logging error: ") ++ f.reason

end SetupFault

def Level.parse (s : String) : Except SetupFault Level :=
  (Level.ofText? s).elim (.error (.unknownLevel s)) .ok

def Level.ofVerbosity (n : Nat) : Except SetupFault Level :=
  (Level.ofVerbosity? n).elim (.error (.verbosity n)) .ok

def Format.parse (s : String) : Except SetupFault Format :=
  (Format.ofText? s).elim (.error (.unknownFormat s)) .ok

end LayoutGraph.Log
