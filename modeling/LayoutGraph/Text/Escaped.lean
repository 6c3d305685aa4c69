-- Texts between quotes, where some characters are written as escapes: for a
-- reader of a log line, and for a reader of JSON.
import LayoutGraph.Text.Numeral
import LayoutGraph.Text.Unprinted

namespace LayoutGraph.Text

/-! ## JSON -/

/-- Zeros in front of hexadecimal digits until there are four. -/
def fourDigits (n : Nat) : String :=
  String.ofList ((hex n).toList.leftpad 4 '0')

/-- A character within a string of JSON. -/
def jsonChar (c : Char) : String :=
  match c with
  | '"' => "\\\""
  | '\\' => "\\\\"
  | '\x08' => "\\b"
  | '\x0c' => "\\f"
  | '\n' => "\\n"
  | '\r' => "\\r"
  | '\t' => "\\t"
  | c => if c.toNat < 0x20 then "\\u" ++ fourDigits c.toNat else c.toString

/-- A string of JSON. -/
def json (s : String) : String := "\"" ++ String.join (s.toList.map jsonChar) ++ "\""

/-! ## Log lines -/

/-- A character within quotes on a log line. -/
def quotedChar (c : Char) : String :=
  match c with
  | '"' => "\\\""
  | '\\' => "\\\\"
  | '\x00' => "\\0"
  | '\n' => "\\n"
  | '\r' => "\\r"
  | '\t' => "\\t"
  | c => if isUnprinted c then "\\u\x7b" ++ hex c.toNat ++ "\x7d" else c.toString

/-- A text between quotes on a log line. -/
def quoted (s : String) : String := "\"" ++ String.join (s.toList.map quotedChar) ++ "\""

end LayoutGraph.Text
