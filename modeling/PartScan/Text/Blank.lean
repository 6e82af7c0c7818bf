import PartScan.Text.Ranges

/-! # Blank characters

The characters that separate words: tabs, line breaks, the four information separators and
every space of Unicode.
-/

namespace PartScan.Text

def blankRanges : Ranges :=
  [(0x9, 0xd), (0x1c, 0x20), (0x85, 0x85), (0xa0, 0xa0), (0x1680, 0x1680), (0x2000, 0x200a),
   (0x2028, 0x2029), (0x202f, 0x202f), (0x205f, 0x205f), (0x3000, 0x3000)]

/-- A blank separates words and is trimmed at the ends of a text. -/
def isBlank (c : Char) : Bool := blankRanges.contains c.toNat

end PartScan.Text
