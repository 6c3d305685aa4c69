-- Letter case. Words such as log levels are read in any case, so a text
-- is put into small letters before it is compared with a word in ASCII.

namespace LayoutGraph.Text

/-- The small letter of a character whose small letter is in ASCII, and any
other character itself. The Kelvin sign is the one such capital outside ASCII. -/
def small (c : Char) : Char :=
  if c.toNat = 0x212A then 'k' else c.toLower

/-- The text in small letters. -/
def lower (s : String) : String := String.ofList (s.toList.map small)

end LayoutGraph.Text
