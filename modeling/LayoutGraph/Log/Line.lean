-- Log lines: an event and the span around it as one line, in colours for a
-- reader or as an object of JSON. Lines carry no time.
import LayoutGraph.Log.Event
import LayoutGraph.Log.Filter
import LayoutGraph.Text.Escaped

namespace LayoutGraph.Log

/-- An event, and the input of the call to parse that it happened in. -/
structure Record where
  event : Event
  origin : Option String
deriving DecidableEq, Repr, Inhabited

/-! ## Colours -/

/-- A text in a style, which ends after it. -/
def styled (style : String) (s : String) : String := "\x1b[" ++ style ++ "m" ++ s ++ "\x1b[0m"

def bold : String → String := styled "1"
def dimmed : String → String := styled "2"
def italic : String → String := styled "3"

/-- A level in its colour, five characters wide. -/
def colouredLevel : Level → String
  | .error => styled "31" "ERROR"
  | .warn => styled "33" " WARN"
  | .info => styled "32" " INFO"
  | .debug => styled "34" "DEBUG"
  | .trace => styled "35" "TRACE"

namespace Value

/-- A value on a line for a reader. -/
def pretty : Value → String
  | .number n => toString n
  | .flag b => if b then "true" else "false"
  | .text s => Text.quoted s
  | .plain s => s

/-- A value in JSON. -/
def json : Value → String
  | .number n => toString n
  | .flag b => if b then "true" else "false"
  | .text s | .plain s => Text.json s

end Value

namespace Record

/-- The details of the span. -/
def spanDetails (origin : String) : List (String × Value) := [("origin", .plain origin)]

/-- A detail on a line for a reader. -/
def prettyDetail (detail : String × Value) : String :=
  italic detail.1 ++ dimmed "=" ++ detail.2.pretty

/-- A line for a reader: level, span, speaker, message, details. -/
def pretty (e : Record) : String :=
  let span := e.origin.elim "" fun origin =>
    bold parseSpan ++ bold "\x7b" ++ " ".intercalate ((spanDetails origin).map prettyDetail)
      ++ bold "\x7d" ++ dimmed ":" ++ " "
  let details := String.join (e.event.details.map fun detail => " " ++ prettyDetail detail)
  colouredLevel e.event.level ++ " " ++ span ++ dimmed e.event.speaker ++ dimmed ":" ++ " "
    ++ e.event.message ++ details

/-- An object of JSON, from members that are JSON already. -/
def jsonObject (members : List (String × String)) : String :=
  let written := members.map fun (name, value) => Text.json name ++ ":" ++ value
  "\x7b" ++ ",".intercalate written ++ "\x7d"

/-- A line in JSON. The span appears alone and in the list of all spans. -/
def json (e : Record) : String :=
  let details := e.event.details.map fun (name, value) => (name, value.json)
  let span := match e.origin with
    | none => []
    | some origin =>
      let members := (spanDetails origin).map fun (name, value) => (name, value.json)
      let object := jsonObject (members ++ [("name", Text.json parseSpan)])
      [("span", object), ("spans", "[" ++ object ++ "]")]
  jsonObject ([("level", Text.json e.event.level.capitals),
    ("fields", jsonObject (("message", Text.json e.event.message) :: details)),
    ("target", Text.json e.event.speaker)] ++ span)

end Record

/-! ## The log of a program -/

/-- How a program shows its log. -/
structure Setup where
  format : Format
  filter : Filter
deriving DecidableEq, Repr, Inhabited

/-- The line of an event, if it is shown. A span that is not shown itself is left off. -/
def Setup.line? (setup : Setup) (e : Record) : Option String :=
  if setup.filter.admits e.event.speaker e.event.level e.event.detailNames e.origin then
    let e := if setup.filter.showsSpan then e else { e with origin := none }
    some (match setup.format with
      | .pretty => e.pretty
      | .json => e.json)
  else none

end LayoutGraph.Log
