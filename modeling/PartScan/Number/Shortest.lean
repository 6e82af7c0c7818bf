import PartScan.Number.Binary64
import PartScan.Number.Percent

/-! # Shortest decimals

The fewest decimal digits that read back to a double, found by exact arithmetic on its mantissa and
exponent: for one digit, two digits and so on, the neighbours of the value on that decimal grid are
tried, the nearer one first.
-/

namespace PartScan.Number

namespace Binary64

/-- Whether `d * 10 ^ k` rounds to the double `m * 2 ^ e`. It does between the halfway points to
the two neighbours, which themselves round to an even mantissa. -/
def readsBack (m : Nat) (e : Int) (d : Nat) (k : Int) : Bool :=
  let low := if m = pow2 52 ∧ e > leastExponent then 4 * m - 1 else 4 * m - 2
  let high := 4 * m + 2
  let u := e - 2
  let written := d * pow10 k.toNat * pow2 (-u).toNat
  let bound := fun x => x * pow10 (-k).toNat * pow2 u.toNat
  if m % 2 = 0 then bound low ≤ written && written ≤ bound high
  else bound low < written && written < bound high

/-- The least `p` with `num / den < 10 ^ p`, for a positive quotient. -/
def pointPosition (num den : Nat) : Int :=
  if den ≤ num then digitCount (num / den) else 1 - digitCount ((den - 1) / num)

/-- The coefficient with `n` digits that stands for the value `num / den` best, where one of the
two neighbours on the grid reads back. -/
def gridHit (m : Nat) (e : Int) (num den : Nat) (k : Int) : Option Nat :=
  let a := num * pow10 (-k).toNat
  let b := den * pow10 k.toNat
  [roundDiv a b, a / b, a / b + 1].find? fun d => readsBack m e d k

/-- The digits of the shortest decimal of a positive finite double, and where its point stands
relative to the first of them. -/
def shortest (m : Nat) (e : Int) : List Char × Int :=
  let (num, den) := ratio m e
  let p := pointPosition num den
  let hit := (List.range 17).findSome? fun (n : Nat) =>
    (gridHit m e num den (p - (n + 1))).map fun d => (d, p - (n + 1))
  let (d, k) := hit.getD (num * pow10 (17 - p).toNat / (den * pow10 (p - 17).toNat), p - 17)
  let digits := natText (dropZeros d 17).1
  (digits, digitCount d + k)

/-- How a double is laid out: the words for its special values. Finite values are positional from
`0.0001` up to sixteen digits before the point. -/
structure Words where
  infinity : List Char
  nan : List Char

/-- The digits with the point at `p`; at least one digit stands on either side of it. -/
def positional (digits : List Char) (p : Int) : List Char :=
  if p ≤ 0 then '0' :: '.' :: List.replicate p.natAbs '0' ++ digits
  else if digits.length ≤ p.toNat then
    digits ++ List.replicate (p.toNat - digits.length) '0' ++ ['.', '0']
  else digits.take p.toNat ++ '.' :: digits.drop p.toNat

/-- A signed exponent of at least two digits behind the digits. -/
def scientific (digits : List Char) (p : Int) : List Char :=
  let x := p - 1
  let ds := natText x.natAbs
  Decimal.leading digits ++ 'e' :: (if x < 0 then '-' else '+') ::
    (List.replicate (2 - ds.length) '0' ++ ds)

def magnitudeText (m : Nat) (e : Int) : List Char :=
  if m = 0 then ['0', '.', '0']
  else
    let (digits, p) := shortest m e
    if -4 < p ∧ p ≤ 16 then positional digits p else scientific digits p

/-- The shortest text that reads back to the same double. -/
def toText (words : Words) : Binary64 → List Char
  | .finite negative m e => Decimal.signText negative ++ magnitudeText m e
  | .infinity negative => Decimal.signText negative ++ words.infinity
  | .nan => words.nan

/-- Settings and log lines write the special values in lower case. -/
def plainWords : Words := ⟨"inf".toList, "nan".toList⟩

/-- The text with a set number of places behind the point. -/
def fixedText (places : Nat) : Binary64 → List Char
  | .finite negative m e =>
    let (num, den) := ratio m e
    Decimal.signText negative ++
      Decimal.pointed (natText (roundDiv (num * pow10 places) den)) places
  | .infinity negative => Decimal.signText negative ++ plainWords.infinity
  | .nan => plainWords.nan

end Binary64

end PartScan.Number
