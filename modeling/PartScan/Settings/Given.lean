import PartScan.Settings.Basic

/-! # Given values

A setting may be given as a number, a truth value or a text. Each field reads what it accepts and
names the problem of what it refuses.
-/

namespace PartScan

open Number Text

/-- A value given for a setting. Bytes come with the text that they encode, if they encode one;
`other` is every value that no field reads. -/
inductive Given where
  | bool (b : Bool)
  | int (i : Int)
  | float (x : Binary64)
  | text (s : List Char)
  | bytes (decoded : Option (List Char))
  | other
  deriving DecidableEq, Repr, Inhabited

/-- What is wrong with a given value. -/
inductive Problem where
  | numberType
  | numberText
  | belowZero
  | integerType
  | integerText
  | integerSize
  | fractional
  | notFinite
  | notPositive
  | aboveLimit
  | unknownPairing
  | textType
  | textEncoding
  | quoteLength
  | quoteReserved
  deriving DecidableEq, Repr

namespace Problem

def tag : Problem → List Char
  | .numberType => "float_type".toList
  | .numberText => "float_parsing".toList
  | .belowZero => "greater_than_equal".toList
  | .integerType => "int_type".toList
  | .integerText => "int_parsing".toList
  | .integerSize => "int_parsing_size".toList
  | .fractional => "int_from_float".toList
  | .notFinite => "finite_number".toList
  | .notPositive => "greater_than".toList
  | .aboveLimit => "less_than_equal".toList
  | .unknownPairing => "literal_error".toList
  | .textType => "string_type".toList
  | .textEncoding => "string_unicode".toList
  | .quoteLength => "value_error".toList
  | .quoteReserved => "value_error".toList

def message : Problem → List Char
  | .numberType => "Input should be a valid number".toList
  | .numberText => "Input should be a valid number, unable to parse string as a number".toList
  | .belowZero => "Input should be greater than or equal to 0".toList
  | .integerType => "Input should be a valid integer".toList
  | .integerText => "Input should be a valid integer, unable to parse string as an integer".toList
  | .integerSize => "Unable to parse input string as an integer, exceeded maximum size".toList
  | .fractional => "Input should be a valid integer, got a number with a fractional part".toList
  | .notFinite => "Input should be a finite number".toList
  | .notPositive => "Input should be greater than 0".toList
  | .aboveLimit => "Input should be less than or equal to 256".toList
  | .unknownPairing => "Input should be 'nested' or 'first'".toList
  | .textType => "Input should be a valid string".toList
  | .textEncoding =>
    "Input should be a valid string, unable to parse raw data as a unicode string".toList
  | .quoteLength => "Value error, quote_char must be exactly one character".toList
  | .quoteReserved => "Value error, quote_char cannot be a parenthesis or whitespace".toList

end Problem

namespace Given

/-- The blanks that may surround a number; the information separators are none of them. -/
def isMargin (c : Char) : Bool := isBlank c && !('\x1c' ≤ c && c ≤ '\x1f')

def trim (cs : List Char) : List Char :=
  ((cs.dropWhile isMargin).reverse.dropWhile isMargin).reverse

/-- Digits with single underscores between them. -/
def isGrouped : List Char → Bool
  | [] => false
  | [c] => isAsciiDigit c
  | c :: '_' :: rest => isAsciiDigit c && isGrouped rest
  | c :: rest => isAsciiDigit c && isGrouped rest

/-- Two underscores side by side. -/
def hasDouble : List Char → Bool
  | '_' :: '_' :: _ => true
  | _ :: rest => hasDouble rest
  | [] => false

/-- Remove underscores that stand neither at an end nor side by side. -/
def dropUnderscores (cs : List Char) : Option (List Char) :=
  if cs.head? = some '_' ∨ cs.getLast? = some '_' ∨ hasDouble cs then none
  else some (cs.filter (· ≠ '_'))

/-- A number or one of the words for infinity and for the undefined value, in any case. -/
def readWord (cs : List Char) : Option Binary64 :=
  let (negative, rest) := Decimal.splitSign cs
  let word := rest.map Char.toLower
  if word = "inf".toList ∨ word = "infinity".toList then some (.infinity negative)
  else if word = "nan".toList then some .nan
  else (Decimal.readFinite cs).map .ofDecimal

/-- Read a number from a text, blanks around it and underscores inside allowed. -/
def readNumber (cs : List Char) : Option Binary64 :=
  (readWord (trim cs)).or ((dropUnderscores (trim cs)).bind readWord)

/-- Texts with more digits are not read as integers. -/
def digitLimit : Nat := 4300

/-- Read an integer from a text; a point may follow it with zeros only. -/
def readInteger (cs : List Char) : Except Problem Int :=
  let (negative, rest) := Decimal.splitSign (trim cs)
  let whole := rest.takeWhile (· ≠ '.')
  let fraction := rest.dropWhile (· ≠ '.')
  if isGrouped whole ∧ (fraction = [] ∨ (2 ≤ fraction.length ∧ fraction.tail.all (· = '0'))) then
    let digits := whole.filter (· ≠ '_')
    if digitLimit < digits.length then .error .integerSize
    else .ok (if negative then -(natOfDigits digits : Int) else natOfDigits digits)
  else .error .integerText

def number : Given → Except Problem Binary64
  | .bool b => .ok (.ofInt (if b then 1 else 0))
  | .int i =>
    match Binary64.ofInt i with
    | .finite n m e => .ok (.finite n m e)
    | _ => .error .numberType
  | .float x => .ok x
  | .text s => (readNumber s).elim (.error .numberText) .ok
  | .bytes decoded => (decoded.bind readNumber).elim (.error .numberText) .ok
  | .other => .error .numberType

def delay (g : Given) : Except Problem Delay := do
  let x ← g.number
  if h : x.isNonneg = true then .ok ⟨x, h⟩ else .error .belowZero

/-- The integer that a number without fraction stands for, within 64 bits. -/
def integerOfFloat (x : Binary64) : Except Problem Int :=
  match x with
  | .finite .. =>
    match x.toInt? with
    | none => .error .fractional
    | some i =>
      if -9223372036854775808 < i ∧ i < 9223372036854775808 then .ok i else .error .integerSize
  | _ => .error .notFinite

def integer : Given → Except Problem Int
  | .bool b => .ok (if b then 1 else 0)
  | .int i => .ok i
  | .float x => integerOfFloat x
  | .text s => readInteger s
  | .bytes (some s) => readInteger s
  | .bytes none => .error .integerText
  | .other => .error .integerType

/-- A depth is an integer from 1 to 256. -/
def depth (g : Given) : Except Problem { n : Nat // 0 < n ∧ n ≤ 256 } := do
  let i ← g.integer
  if h₁ : 0 < i then
    if h₂ : i ≤ 256 then .ok ⟨i.toNat, by omega, by omega⟩ else .error .aboveLimit
  else .error .notPositive

/-- A pairing is given by its word, exactly. -/
def pairing : Given → Except Problem Pairing
  | .text s =>
    if s = Pairing.nested.label then .ok .nested
    else if s = Pairing.first.label then .ok .first
    else .error .unknownPairing
  | _ => .error .unknownPairing

def string : Given → Except Problem (List Char)
  | .text s => .ok s
  | .bytes (some s) => .ok s
  | .bytes none => .error .textEncoding
  | _ => .error .textType

/-- A quote is one character that is neither a parenthesis nor a blank. -/
def quote (g : Given) :
    Except Problem { c : Char // c ≠ '(' ∧ c ≠ ')' ∧ isBlank c = false } := do
  match ← g.string with
  | [c] => if h : c ≠ '(' ∧ c ≠ ')' ∧ isBlank c = false then .ok ⟨c, h⟩ else .error .quoteReserved
  | _ => .error .quoteLength

end Given

end PartScan
