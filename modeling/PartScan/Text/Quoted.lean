import PartScan.Number.Digits
import PartScan.Text.Printable

/-! # Quoted texts

A text in quotes on one line: the quote in use, the backslash, line breaks and every character
that does not show by itself are written as escapes.
-/

namespace PartScan.Text

open Number

/-- Double quotes are used for a text that holds single quotes and no double ones. -/
def delimiter (s : List Char) : Char := if '\'' ∈ s ∧ '"' ∉ s then '"' else '\''

/-- The written form of one character between the quotes `quote`. -/
def escape (quote c : Char) : List Char :=
  if c = quote ∨ c = '\\' then ['\\', c]
  else if c = '\n' then ['\\', 'n']
  else if c = '\r' then ['\\', 'r']
  else if c = '\t' then ['\\', 't']
  else if isPrintable c then [c]
  else if c.toNat < 0x100 then '\\' :: 'x' :: hexText 2 c.toNat
  else if c.toNat < 0x10000 then '\\' :: 'u' :: hexText 4 c.toNat
  else '\\' :: 'U' :: hexText 8 c.toNat

def quoted (s : List Char) : List Char :=
  delimiter s :: s.flatMap (escape (delimiter s)) ++ [delimiter s]

end PartScan.Text
