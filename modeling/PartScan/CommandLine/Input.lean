import PartScan.Text.Blank
import PartScan.Text.Split

/-! # Input

Expressions are given as arguments, or else on the lines of the standard input. Lines end at line
feeds only; blank lines are left out.
-/

namespace PartScan.CommandLine

open Text

/-- The lines of a text that are not blank. -/
def inputLines (input : List Char) : List (List Char) :=
  (splitOn '\n' input).filter fun line => !line.all isBlank

/-- The expressions of a call: its arguments if there are any. -/
def readExpressions (arguments : List (List Char)) (input : List Char) : List (List Char) :=
  if arguments = [] then inputLines input else arguments

end PartScan.CommandLine
