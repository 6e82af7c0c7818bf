import PartScan.Number.Digits

/-! # Decimal numbers

A decimal number is a coefficient with a power of ten. Equal values with different exponents are
different decimals, and the written form keeps the difference.
-/

namespace PartScan.Number

/-- A decimal floating number; the exponent counts powers of ten. -/
inductive Decimal where
  | finite (negative : Bool) (coefficient : Nat) (exponent : Int)
  | infinity (negative : Bool)
  | nan (negative signalling : Bool) (payload : Nat)
  deriving DecidableEq, Repr, Inhabited

namespace Decimal

def ofNat (n : Nat) : Decimal := .finite false n 0

def signText (negative : Bool) : List Char := if negative then ['-'] else []

/-- Put the point before the last `places` digits, filling with zeros on the left. -/
def pointed (digits : List Char) (places : Nat) : List Char :=
  let padded := List.replicate (places + 1 - digits.length) '0' ++ digits
  padded.take (padded.length - places) ++ '.' :: padded.drop (padded.length - places)

def leading : List Char → List Char
  | d :: rest@(_ :: _) => d :: '.' :: rest
  | digits => digits

def magnitudeText (coefficient : Nat) (exponent : Int) : List Char :=
  let digits := natText coefficient
  let adjusted := exponent + digits.length - 1
  if exponent = 0 then digits
  else if exponent < 0 ∧ -6 ≤ adjusted then pointed digits exponent.natAbs
  else leading digits ++ 'E' :: (if adjusted < 0 then '-' else '+') :: natText adjusted.natAbs

/-- Positional notation while the exponent is at most zero and the first digit stands at most six
places behind the point, scientific notation otherwise. -/
def toText : Decimal → List Char
  | .finite negative c e => signText negative ++ magnitudeText c e
  | .infinity negative => signText negative ++ "Infinity".toList
  | .nan negative signalling payload =>
    signText negative ++ (if signalling then ['s'] else []) ++ "NaN".toList ++
      (if payload = 0 then [] else natText payload)

def splitSign : List Char → Bool × List Char
  | '-' :: rest => (true, rest)
  | '+' :: rest => (false, rest)
  | cs => (false, cs)

/-- The value of an exponent part such as `e-7`, or zero where there is none. -/
def readExponent : List Char → Option Int
  | [] => some 0
  | e :: rest =>
    if e = 'e' ∨ e = 'E' then
      let (negative, ds) := splitSign rest
      if ds ≠ [] ∧ ds.all isAsciiDigit then
        some (if negative then -(natOfDigits ds : Int) else natOfDigits ds)
      else none
    else none

/-- Digits with at most one point, at least one digit, and an optional exponent. -/
def readMagnitude (cs : List Char) : Option (Nat × Int) :=
  let whole := cs.takeWhile isAsciiDigit
  let (fraction, rest) := match cs.dropWhile isAsciiDigit with
    | '.' :: r => (r.takeWhile isAsciiDigit, r.dropWhile isAsciiDigit)
    | r => ([], r)
  if whole = [] ∧ fraction = [] then none
  else (readExponent rest).map fun e => (natOfDigits (whole ++ fraction), e - fraction.length)

/-- Read a finite decimal: an optional sign, digits with an optional point, an optional
exponent. -/
def readFinite (cs : List Char) : Option Decimal :=
  let (negative, rest) := splitSign cs
  (readMagnitude rest).map fun (c, e) => .finite negative c e

def readNaN (negative signalling : Bool) (digits : List Char) : Option Decimal :=
  if digits.all isAsciiDigit then some (.nan negative signalling (natOfDigits digits)) else none

/-- Read a decimal, the words for infinity and for the undefined values included. -/
def ofText? (cs : List Char) : Option Decimal :=
  let (negative, rest) := splitSign cs
  let word := rest.map Char.toLower
  if word = "inf".toList ∨ word = "infinity".toList then some (.infinity negative)
  else if word.take 3 = "nan".toList then readNaN negative false (word.drop 3)
  else if word.take 4 = "snan".toList then readNaN negative true (word.drop 4)
  else readFinite cs

end Decimal

end PartScan.Number
