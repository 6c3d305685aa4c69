-- Cutting a text in two at a separator: at its first place, as in
-- `OLD=NEW`, or at its last, as in `SYMBOL.FIELD`.

namespace LayoutGraph.Text

/-- What stands before and after the first `sep`. -/
def cutFirst (sep : Char) : List Char → Option (List Char × List Char)
  | [] => none
  | c :: rest =>
    if c = sep then some ([], rest)
    else (cutFirst sep rest).map fun (before, after) => (c :: before, after)

/-- What stands before and after the last `sep`. -/
def cutLast (sep : Char) (cs : List Char) : Option (List Char × List Char) :=
  (cutFirst sep cs.reverse).map fun (after, before) => (before.reverse, after.reverse)

/-- The pieces between the separators; a text without one is one piece. -/
def pieces (sep : Char) : List Char → List (List Char)
  | [] => [[]]
  | c :: rest =>
    if c = sep then [] :: pieces sep rest
    else match pieces sep rest with
      | [] => [[c]]
      | piece :: more => (c :: piece) :: more

/-- The characters that start at the bytes from `start` on and before `stop`, where the text itself
starts at `here`. -/
def between (start stop : Nat) : (here : Nat) → List Char → List Char
  | _, [] => []
  | here, c :: cs =>
    if start ≤ here ∧ here < stop then c :: between start stop (here + c.utf8Size) cs
    else between start stop (here + c.utf8Size) cs

/-- The text after `lead`, if it starts with it. -/
def dropLead? : List Char → List Char → Option (List Char)
  | [], cs => some cs
  | _ :: _, [] => none
  | l :: lead, c :: cs => if l = c then dropLead? lead cs else none

end LayoutGraph.Text
