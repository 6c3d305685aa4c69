-- Directives of a log filter. Each admits the events of one part of the
-- program, of one span, or with one detail, up to a level.
import LayoutGraph.Log.Level
import LayoutGraph.Text.Alphanumeric
import LayoutGraph.Text.Blank
import LayoutGraph.Text.Cut
import LayoutGraph.Text.Numeral
import LayoutGraph.Text.Pattern.Reader

namespace LayoutGraph.Log

/-! ## Directives -/

/-- What the value of a detail must be. -/
inductive Wanted
  /-- A text that matches. -/
  | pattern (p : Text.Pattern)
  /-- A truth value or a number, which no text is. -/
  | notText
deriving DecidableEq, Repr, Inhabited

/-- A detail that is meant, whatever its value or with a value. -/
structure Detail where
  name : String
  value : Option Wanted := none
deriving DecidableEq, Repr, Inhabited

/-- What a directive means. Absent parts mean everything. -/
structure Scope where
  /-- The start of the names of the parts of the program. -/
  target : Option String := none
  span : Option String := none
  detail : Option Detail := none
deriving DecidableEq, Repr, Inhabited

structure Directive where
  scope : Scope := {}
  /-- The last level that is admitted, if any is. -/
  limit : Option Level
deriving DecidableEq, Repr, Inhabited

/-- How far a limit goes; zero where no level is admitted. -/
def reach (limit : Option Level) : Nat := limit.elim 0 Level.rank

namespace Directive

/-! ## Words -/

/-- The limit of a word: a number from zero to five, or a level or `off` in any case. -/
def limitOfWord? (s : String) : Option (Option Level) :=
  let number := if s.startsWith "-" then none else Text.signed? 10 s.toList
  match number, String.ofList (s.toList.map Char.toLower) with
  | some 0, _ | none, "off" => some none
  | some 1, _ | none, "error" => some (some .error)
  | some 2, _ | none, "warn" => some (some .warn)
  | some 3, _ | none, "info" => some (some .info)
  | some 4, _ | none, "debug" => some (some .debug)
  | some 5, _ | none, "trace" => some (some .trace)
  | _, _ => none

/-- The limit after the sign of equality. Nothing stands for all levels. -/
def limitOfText? (s : String) : Option (Option Level) :=
  if s.isEmpty then some (some .trace) else limitOfWord? s

/-- What a value must be, by its text. -/
def wanted? (s : String) : Option Wanted :=
  if s = "true" ∨ s = "false" ∨ Text.isReal s.toList then some .notText
  else (Text.Pattern.ofText? s).map .pattern

/-- A detail by its text, `name` or `name=value`. A second sign of equality ends the value. -/
def detail? (s : String) : Option Detail :=
  match Text.pieces '=' s.toList with
  | name :: value :: _ => do
    let wanted ← wanted? (String.ofList value)
    return ⟨String.ofList name, some wanted⟩
  | _ => if s.isEmpty then none else some ⟨s, none⟩

/-! ## Reading -/

/-- The part of a directive that a character belongs to, with the place of its first character. -/
inductive Part
  | lead
  | word (start : Nat)
  | span (start : Nat)
  | detail (start : Nat)
  | afterDetail
  | afterSpan
  | limit (start : Nat)
deriving DecidableEq, Repr, Inhabited

/-- Whether a directive can start with a character. -/
def canStart (c : Char) : Bool := c = '-' || c = ':' || c = '_' || Text.isAlphanumeric c

/-- The part after a character at a place, and the scope as far as it is told. -/
def step (cut : Nat → Nat → String) (here : Nat) (c : Char) (scope : Scope) :
    Part → Option (Part × Scope)
  | .lead =>
    if c = '[' then some (.span (here + 1), scope)
    else if canStart c then some (.word here, scope)
    else none
  | .word start =>
    let told := { scope with target := some (cut start here) }
    if c = '=' then some (.limit (here + 1), told)
    else if c = '[' then some (.span (here + 1), told)
    else some (.word start, scope)
  | .span start =>
    let name := cut start here
    if c = ']' then some (.afterSpan, { scope with span := some name })
    else if c = '\x7b' then
      some (.detail (here + 1), if name.isEmpty then scope else { scope with span := some name })
    else some (.span start, scope)
  | .detail start =>
    if c = '\x7d' then do
      let detail ← detail? (cut start here)
      return (.afterDetail, { scope with detail := some detail })
    else some (.detail start, scope)
  | .afterDetail => if c = ']' then some (.afterSpan, scope) else none
  | .afterSpan => if c = '=' then some (.limit (here + 1), scope) else none
  | .limit start => some (.limit start, scope)

/-- The parts of the characters from a place on. -/
def stepsFrom (cut : Nat → Nat → String) :
    (here : Nat) → List Char → Part × Scope → Option (Part × Scope)
  | _, [], told => some told
  | here, c :: cs, (part, scope) => do
    stepsFrom cut (here + c.utf8Size) cs (← step cut here c scope part)

/-- The directive that ends in a part. A word alone is a limit, or else a target. -/
def ofEnd? (cut : Nat → Nat → String) (stop : Nat) (scope : Scope) : Part → Option Directive
  | .word start =>
    let word := cut start stop
    match limitOfWord? word with
    | some limit => some { limit }
    | none => some { scope := { target := some word }, limit := some .trace }
  | .limit start => (limitOfText? (cut start stop)).map fun limit => { scope, limit }
  | .afterSpan => some { scope, limit := some .trace }
  | _ => none

/-- A directive by its text: `limit`, `target`, `target=limit`, or one of these with `[span]`,
`[span{detail}]` or `[{detail}]` after the target. The parts are told apart in the text without the
blanks around it and cut from the text with them, so blanks in front move all parts. -/
def ofText? (s : String) : Option Directive := do
  let cut (start stop : Nat) : String := String.ofList (Text.between start stop 0 s.toList)
  let (part, scope) ← stepsFrom cut 0 (Text.trimChars s.toList) (.lead, {})
  ofEnd? cut s.utf8ByteSize scope part

/-! ## What a directive means -/

/-- Whether a directive means a part of the program. -/
def means (d : Directive) (speaker : String) : Bool :=
  d.scope.target.all fun target => target.toList.isPrefixOf speaker.toList

/-- Whether a directive asks for a detail of a value. -/
def hasValue (d : Directive) : Bool := d.scope.detail.any fun detail => detail.value.isSome

/-- Whether a directive admits events wherever they happen. -/
def isEverywhere (d : Directive) : Bool := d.scope.span.isNone && !d.hasValue

/-- Whether a directive admits events that happen within a span. -/
def isWithinSpan (d : Directive) : Bool := d.scope.span.isSome || d.scope.detail.isSome

end Directive

end LayoutGraph.Log
