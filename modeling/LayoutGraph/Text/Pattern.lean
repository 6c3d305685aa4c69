-- Patterns of characters. A pattern can match in several ways, of which it
-- prefers some to others. A text matches where the way that is preferred
-- ends with the text, whatever stands in front of it.
import LayoutGraph.Text.Range

namespace LayoutGraph.Text

/-! ## Patterns -/

/-- A class of characters: those in some ranges of code points, or all others. -/
structure CharClass where
  isInverted : Bool
  ranges : List (Nat × Nat)
deriving DecidableEq, Repr, Inhabited

namespace CharClass

def holds (k : CharClass) (c : Char) : Bool := isWithin k.ranges c != k.isInverted

def only (c : Char) : CharClass := ⟨false, [(c.toNat, c.toNat)]⟩
def all : CharClass := ⟨true, []⟩
def allButNewline : CharClass := ⟨true, [(0x0a, 0x0a)]⟩

end CharClass

inductive Pattern
  | empty
  | char (k : CharClass)
  | textStart
  | textEnd
  | seq (first second : Pattern)
  /-- One of two patterns, the first by preference. -/
  | either (first second : Pattern)
  /-- Repetitions, as many as can be by preference, or as few. -/
  | star (isGreedy : Bool) (body : Pattern)
deriving DecidableEq, Repr, Inhabited

namespace Pattern

/-! ## Ways to match -/

/-- A way to go on from a place: the pattern is at its end, or it takes a character. -/
inductive Way
  | done
  | take (k : CharClass) (rest : Pattern)
deriving DecidableEq, Repr, Inhabited

/-- One pattern after another, of which the first can be at its end. -/
def andThen (first second : Pattern) : Pattern :=
  if first = empty then second else seq first second

/-- The ways to go on, by preference, at the start of the text or not, at its end or not. -/
def ways (atStart atEnd : Bool) : Pattern → List Way
  | empty => [.done]
  | char k => [.take k empty]
  | textStart => if atStart then [.done] else []
  | textEnd => if atEnd then [.done] else []
  | seq first second =>
    (ways atStart atEnd first).flatMap fun
      | .done => ways atStart atEnd second
      | .take k rest => [.take k (andThen rest second)]
  | either first second => ways atStart atEnd first ++ ways atStart atEnd second
  | star isGreedy body =>
    let again := (ways atStart atEnd body).filterMap fun
      | .done => none
      | .take k rest => some (.take k (andThen rest (star isGreedy body)))
    if isGreedy then again ++ [.done] else .done :: again

/-- What is left of a way after a character that it takes. -/
def Way.after? (c : Char) : Way → Option Pattern
  | .done => none
  | .take k rest => if k.holds c then some rest else none

/-! ## Texts that match -/

/-- Whether one of some patterns, given by preference, ends with the text. Where a pattern is at its
end before that, those after it are given up. -/
def anyEnds (patterns : List Pattern) (atStart : Bool) : List Char → Bool
  | [] => (patterns.flatMap (ways atStart true)).contains .done
  | c :: cs =>
    let live := (patterns.flatMap (ways atStart false)).takeWhile (· ≠ .done)
    anyEnds (live.filterMap (Way.after? c)).eraseDups false cs

/-- Whether a text matches. The pattern starts as early as it can. -/
def isMatch (p : Pattern) (s : String) : Bool :=
  anyEnds [seq (star false (char .all)) p] true s.toList

end Pattern

end LayoutGraph.Text
