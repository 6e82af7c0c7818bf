import PartScan.Lexeme
import PartScan.Part

/-! # Words

Words are runs of word characters. A word buffer collects the pieces of a word until it is built
into a part; the kind of the part follows from its first character and from what follows the word.
-/

namespace PartScan

open Number Text

/-- Word characters are the quote, the point, the underscore, digits and letters. -/
def isWordChar (quote c : Char) : Bool :=
  c = quote || c = '.' || c = '_' || isDigit c || isLetter c

/-- A text counts as a word character if it equals the quote, the point or the underscore, or has
only digits or only letters. -/
def isWordText (quote s : List Char) : Bool :=
  s = quote || s = ['.'] || s = ['_'] || (s ≠ [] && s.all isDigit) || (s ≠ [] && s.all isLetter)

theorem isWordText_singleton (quote c : Char) : isWordText [quote] [c] = isWordChar quote c := by
  simp [isWordText, isWordChar]

/-- The kind of a word that no parenthesis follows. -/
def PartKind.ofWord (quote word : List Char) : PartKind :=
  if word.take 1 = quote then .string
  else if isNumber word then .number
  else .var

/-- The part of a word that ends before the offset `stop`. -/
def Part.ofWord (quote word : List Char) (stop : Int) : Part :=
  ⟨.ofWord quote word, stop - word.length, stop, word⟩

/-- The part of a word whose opening parenthesis stands at the offset `stop`. -/
def Part.ofCall (word : List Char) (stop : Int) : Part :=
  ⟨.function, stop - word.length, stop, word⟩

/-- Why a word buffer gives no part. -/
inductive BuildError where
  | nothingAccumulated (call : Bool)
  | emptyText
  deriving DecidableEq, Repr

def BuildError.message : BuildError → List Char
  | .nothingAccumulated call =>
    (if call then "build_function" else "build").toList ++
      "() called with nothing accumulated".toList
  | .emptyText => "string index out of range".toList

/-- Pieces of the word in progress, in the order in which they were appended. -/
structure WordBuffer where
  quote : List Char
  pieces : List (List Char) := []
  deriving DecidableEq, Repr

namespace WordBuffer

def append (b : WordBuffer) (piece : List Char) : WordBuffer :=
  { b with pieces := b.pieces ++ [piece] }

/-- An appended piece counts even if it is empty. -/
def hasValue (b : WordBuffer) : Bool := !b.pieces.isEmpty

def text (b : WordBuffer) : List Char := b.pieces.flatten

def clear (b : WordBuffer) : WordBuffer := { b with pieces := [] }

/-- The kind that a text would get; an empty text has none. -/
def classify? (b : WordBuffer) : List Char → Except BuildError PartKind
  | [] => .error .emptyText
  | word => .ok (.ofWord b.quote word)

/-- Build the part that ends before `stop` and clear the buffer. The buffer is cleared before the
text is classified, so also where that fails. -/
def build (b : WordBuffer) (stop : Int) : Except BuildError Part × WordBuffer :=
  if b.hasValue then
    ((b.classify? b.text).map fun _ => .ofWord b.quote b.text stop, b.clear)
  else (.error (.nothingAccumulated false), b)

/-- Build the function whose opening parenthesis stands at `offset` and clear the buffer. -/
def buildCall (b : WordBuffer) (offset : Int) : Except BuildError Part × WordBuffer :=
  if b.hasValue then (.ok (.ofCall b.text offset), b.clear)
  else (.error (.nothingAccumulated true), b)

def describe (b : WordBuffer) : List Char :=
  "ExpressionPartBuilder(".toList ++ quoted b.text ++ [')']

end WordBuffer

end PartScan
