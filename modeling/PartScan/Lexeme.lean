import PartScan.Text.Blank
import PartScan.Text.Digit
import PartScan.Text.Letter
import PartScan.Text.Numeral

/-! # Lexemes of a word

A text is cut into numbers, names and single other characters; at each position they are tried in
this order. Blanks belong to no lexeme. A text is a number when one number covers all of it.
-/

namespace PartScan

open Text

inductive LexemeKind where
  | number
  | name
  | other
  deriving DecidableEq, Repr

/-- A lexeme with the offset of its first character. -/
structure Lexeme where
  kind : LexemeKind
  text : List Char
  index : Nat
  deriving DecidableEq, Repr

/-- What stands at a position: a lexeme, or a blank that is skipped. -/
inductive Lexed where
  | lexeme (l : Lexeme)
  | skipped (c : Char)
  deriving DecidableEq, Repr

/-- The characters of names after the first. -/
def isNameChar (c : Char) : Bool := isLetter c || isDigit c || isNumeral c || c = '_'

/-- The longest number at the front: digits with at most one point, at least one digit. -/
def numberPrefix (cs : List Char) : List Char :=
  let whole := cs.takeWhile isDigit
  match cs.dropWhile isDigit with
  | '.' :: rest =>
    let places := rest.takeWhile isDigit
    if whole = [] ∧ places = [] then [] else whole ++ '.' :: places
  | _ => whole

/-- The longest name at the front; a name does not start with a digit. -/
def namePrefix : List Char → List Char
  | [] => []
  | c :: rest => if isNameChar c && !isDigit c then c :: rest.takeWhile isNameChar else []

/-- The kind and the text of what stands at the front of a text, blanks excepted. -/
def lexemeAt (c : Char) (rest : List Char) : Option (LexemeKind × List Char) :=
  if numberPrefix (c :: rest) ≠ [] then some (.number, numberPrefix (c :: rest))
  else if namePrefix (c :: rest) ≠ [] then some (.name, namePrefix (c :: rest))
  else if isBlank c then none
  else some (.other, [c])

/-- Cut a text whose first character has the offset `index`. -/
def lexFrom (index : Nat) : List Char → List Lexed
  | [] => []
  | c :: rest =>
    match lexemeAt c rest with
    | some (kind, text) =>
      .lexeme ⟨kind, text, index⟩ ::
        lexFrom (index + 1 + (text.length - 1)) (rest.drop (text.length - 1))
    | none => .skipped c :: lexFrom (index + 1) rest
  termination_by cs => cs.length
  decreasing_by all_goals simp [List.length_drop]; try omega

/-- The lexemes and the skipped blanks of a text, in order. -/
def lex (cs : List Char) : List Lexed := lexFrom 0 cs

def Lexed.lexeme? : Lexed → Option Lexeme
  | .lexeme l => some l
  | .skipped _ => none

def Lexed.skipped? : Lexed → Option Char
  | .lexeme _ => none
  | .skipped c => some c

/-- A single number lexeme covers the whole of the text. -/
def isNumber (cs : List Char) : Bool :=
  match (lex cs).filterMap Lexed.lexeme? with
  | [l] => l.kind = .number && l.text = cs
  | _ => false

end PartScan
