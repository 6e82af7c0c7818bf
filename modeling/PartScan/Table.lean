import PartScan.Part

/-! # Tables of parts

The expression on a line of its own, then one line for each part with its number, its kind, its
quoted text and its offsets.
-/

namespace PartScan

open Number Text

def padLeft (width : Nat) (cs : List Char) : List Char :=
  List.replicate (width - cs.length) ' ' ++ cs

def padRight (width : Nat) (cs : List Char) : List Char :=
  cs ++ List.replicate (width - cs.length) ' '

def rowText (i : Nat) (p : Part) : List Char :=
  padLeft 3 (natText i) ++ ' ' :: ' ' :: padRight 14 p.kind.label ++
    ' ' :: padLeft 20 (quoted p.text) ++ ' ' :: ' ' :: '[' :: intText p.start ++
    ',' :: intText p.stop ++ [')', '\n']

def rowsText (i : Nat) : List Part → List Char
  | [] => []
  | p :: rest => rowText i p ++ rowsText (i + 1) rest

def tableText (expression : List Char) (parts : List Part) : List Char :=
  expression ++ '\n' :: rowsText 0 parts

end PartScan
