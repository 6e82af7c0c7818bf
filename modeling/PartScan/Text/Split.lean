/-! # Splitting texts

A text is cut at every occurrence of a character; there is one piece more than there are cuts.
-/

namespace PartScan.Text

/-- The pieces between the occurrences of a character. -/
def splitOn (sep : Char) : List Char → List (List Char)
  | [] => [[]]
  | c :: rest =>
    match splitOn sep rest with
    | [] => [[]]
    | piece :: pieces => if c = sep then [] :: piece :: pieces else (c :: piece) :: pieces

end PartScan.Text
