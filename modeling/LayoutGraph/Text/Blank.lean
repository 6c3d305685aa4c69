-- Blank characters and trimming. A name given by hand loses the blanks at
-- both its ends, and "blank" is the property White_Space of Unicode, so
-- U+00A0 is cut off and U+200B is not.
import LayoutGraph.Text.Range

namespace LayoutGraph.Text

/-! ## The blank characters -/

/-- The code points with the property White_Space, as closed ranges. -/
def blankRanges : List (Nat × Nat) :=
  [(0x0009, 0x000D), (0x0020, 0x0020), (0x0085, 0x0085), (0x00A0, 0x00A0), (0x1680, 0x1680),
   (0x2000, 0x200A), (0x2028, 0x2029), (0x202F, 0x202F), (0x205F, 0x205F), (0x3000, 0x3000)]

def isBlank (c : Char) : Bool := isWithin blankRanges c

/-! ## Trimming -/

/-- The characters without the blanks at either end. -/
def trimChars (cs : List Char) : List Char :=
  ((cs.dropWhile isBlank).reverse.dropWhile isBlank).reverse

/-- A text of blanks alone, or of nothing. -/
def isBlankText (s : String) : Bool := s.toList.all isBlank

end LayoutGraph.Text
