import PartScan.Parenthesis
import PartScan.Text.Blank

/-! # Rules of a scan

What a scan needs to know: the quote, how parentheses are paired, and how deep they may nest.
-/

namespace PartScan

open Text

/-- Valid rules: the quote is neither a parenthesis nor a blank, and the depth is between 1 and
256. -/
structure Rules where
  quote : Char := '"'
  pairing : Pairing := .nested
  maxDepth : Nat := 64
  quote_ne_open : quote ≠ '(' := by decide
  quote_ne_close : quote ≠ ')' := by decide
  quote_not_blank : isBlank quote = false := by decide
  maxDepth_pos : 0 < maxDepth := by decide
  maxDepth_le : maxDepth ≤ 256 := by decide
  deriving DecidableEq, Repr

instance : Inhabited Rules := ⟨{}⟩

end PartScan
