-- Patterns by their text: characters, classes in brackets, groups in
-- parentheses, alternatives between bars, and marks of repetition.
import LayoutGraph.Text.Pattern

namespace LayoutGraph.Text.Pattern

/-! ## Tokens -/

inductive Token
  | atom (p : Pattern)
  | opening
  | closing
  | bar
  /-- A mark after what is repeated: from none or from one on, up to one or without an end. -/
  | repetition (fromOne upToOne isGreedy : Bool)
deriving DecidableEq, Repr, Inhabited

def literal (c : Char) : Token := .atom (char (.only c))

/-- Whether a character stands for itself after a backslash. -/
def isEscapable (c : Char) : Bool :=
  decide (c.toNat < 0x80) && !c.isAlphanum && c ≠ '<' && c ≠ '>'

/-- The character that a letter after a backslash stands for. -/
def controlOf? : Char → Option Char
  | 'a' => some '\x07'
  | 'f' => some '\x0c'
  | 'n' => some '\n'
  | 'r' => some '\r'
  | 't' => some '\t'
  | 'v' => some '\x0b'
  | _ => none

/-- The character that is written with a backslash. -/
def escaped? (c : Char) : Option Char := if isEscapable c then some c else controlOf? c

/-- A token that is written with a backslash. Classes by letter are not known. -/
def escapedToken? : Char → Option Token
  | 'A' => some (.atom textStart)
  | 'z' => some (.atom textEnd)
  | c => (escaped? c).map literal

/-- What follows the name of a group. -/
def afterName? : List Char → Option (List Char)
  | [] => none
  | '>' :: cs => some cs
  | c :: cs => if c.isAlphanum || c = '_' then afterName? cs else none

/-- What follows the start of a group. -/
def afterOpening? : List Char → Option (List Char)
  | '?' :: ':' :: cs => some cs
  | '?' :: 'P' :: '<' :: cs | '?' :: '<' :: cs => afterName? cs
  | '?' :: _ => none
  | cs => some cs

/-- A mark of repetition, which a question mark behind it makes prefer less. -/
def repetition (fromOne upToOne : Bool) (cs : List Char) : Token × List Char :=
  match cs with
  | '?' :: cs => (.repetition fromOne upToOne false, cs)
  | cs => (.repetition fromOne upToOne true, cs)

/-! ## Classes -/

/-- One character of a class, and what follows it. -/
def classChar? : List Char → Option (Char × List Char)
  | '\\' :: c :: cs => (escaped? c).map fun c => (c, cs)
  | '\\' :: [] | '[' :: _ => none
  | '&' :: '&' :: _ | '-' :: '-' :: _ | '~' :: '~' :: _ => none
  | c :: cs => some (c, cs)
  | [] => none

/-- The ranges of a class up to its bracket, and what follows. -/
def rangesFrom? : (fuel : Nat) → List Char → Option (List (Nat × Nat) × List Char)
  | 0, _ => none
  | fuel + 1, cs =>
    match cs with
    | ']' :: cs => some ([], cs)
    | cs => do
      let (low, cs) ← classChar? cs
      let (high, cs) ← match cs with
        | '-' :: ']' :: _ => some (low, cs)
        | '-' :: cs => classChar? cs
        | cs => some (low, cs)
      if high < low then none
      else
        let (ranges, cs) ← rangesFrom? fuel cs
        return ((low.toNat, high.toNat) :: ranges, cs)

/-- A class after its opening bracket, and what follows it. A bracket at its start belongs to it. -/
def class? (cs : List Char) : Option (CharClass × List Char) := do
  let (isInverted, cs) := match cs with
    | '^' :: cs => (true, cs)
    | cs => (false, cs)
  let (first, cs) := match cs with
    | ']' :: cs => ([(']'.toNat, ']'.toNat)], cs)
    | cs => ([], cs)
  let (ranges, cs) ← rangesFrom? (cs.length + 1) cs
  return (⟨isInverted, first ++ ranges⟩, cs)

/-! ## The tokens of a text -/

/-- The first token, and what follows it. -/
def token? (c : Char) (cs : List Char) : Option (Token × List Char) :=
  match c with
  | '.' => some (.atom (char .allButNewline), cs)
  | '^' => some (.atom textStart, cs)
  | '$' => some (.atom textEnd, cs)
  | '|' => some (.bar, cs)
  | ')' => some (.closing, cs)
  | '(' => (afterOpening? cs).map fun cs => (.opening, cs)
  | '*' => some (repetition false false cs)
  | '+' => some (repetition true false cs)
  | '?' => some (repetition false true cs)
  | '[' => (class? cs).map fun (k, cs) => (.atom (char k), cs)
  | '\x7b' => none
  | '\\' => cs.head?.bind escapedToken? |>.map fun t => (t, cs.tail)
  | c => some (literal c, cs)

def tokensFrom? : (fuel : Nat) → List Char → Option (List Token)
  | _, [] => some []
  | 0, _ => none
  | fuel + 1, c :: cs => do
    let (token, cs) ← token? c cs
    return token :: (← tokensFrom? fuel cs)

/-! ## Groups -/

/-- What is read of a group: the alternatives before the last bar, and what follows that, the last
first. -/
structure Group where
  earlier : Option Pattern := none
  items : List Pattern := []
deriving Repr, Inhabited

namespace Group

/-- The alternative that is being read. -/
def current (g : Group) : Pattern := g.items.foldl (fun rest item => item.andThen rest) empty

/-- All that is read. -/
def whole (g : Group) : Pattern := g.earlier.elim g.current fun e => either e g.current

def add (g : Group) (p : Pattern) : Group := { g with items := p :: g.items }

end Group

/-- A pattern with its mark of repetition. -/
def repeated (fromOne upToOne isGreedy : Bool) (p : Pattern) : Pattern :=
  if upToOne then if isGreedy then either p empty else either empty p
  else if fromOne then seq p (star isGreedy p)
  else star isGreedy p

/-- The open groups after a token, the innermost first. -/
def withToken : List Group → Token → Option (List Group)
  | [], _ => none
  | g :: outer, .atom p => some (g.add p :: outer)
  | g :: outer, .opening => some ({} :: g :: outer)
  | g :: outer, .bar => some ({ earlier := some g.whole } :: outer)
  | g :: g' :: outer, .closing => some (g'.add g.whole :: outer)
  | [_], .closing => none
  | g :: outer, .repetition fromOne upToOne isGreedy =>
    match g.items with
    | [] => none
    | p :: items => some ({ g with items := repeated fromOne upToOne isGreedy p :: items } :: outer)

/-- A pattern by its text. -/
def ofText? (s : String) : Option Pattern := do
  let tokens ← tokensFrom? (s.length + 1) s.toList
  match ← tokens.foldlM withToken [{}] with
  | [g] => some g.whole
  | _ => none

end LayoutGraph.Text.Pattern
