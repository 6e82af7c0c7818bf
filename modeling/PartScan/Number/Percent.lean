import PartScan.Number.Decimal
import PartScan.Number.Power
import PartScan.Number.Rounding

/-! # Percentages

The share of a whole in hundredths, as a decimal of 28 significant digits. The hundredfold of the
part is rounded first and then divided by the whole, so both steps can round.
-/

namespace PartScan.Number

/-- The significant digits that a computed decimal keeps. -/
def precision : Nat := 28

/-- Round a coefficient to the kept digits; the second part counts the digits that it lost. -/
def keepDigits (coefficient : Nat) : Nat × Nat :=
  let lost := digitCount coefficient - precision
  let kept := roundDiv coefficient (pow10 lost)
  if kept = pow10 precision then (pow10 (precision - 1), lost + 1) else (kept, lost)

/-- Drop trailing zeros, at most `places` of them; the second part counts the places left. -/
def dropZeros : Nat → Nat → Nat × Nat
  | c, 0 => (c, 0)
  | c, places + 1 => if c % 10 = 0 then dropZeros (c / 10) places else (c, places + 1)

/-- The places behind the point that give `c / n` its full number of digits. -/
def quotientPlaces (c n : Nat) : Nat :=
  let places := precision - 1 + digitCount n - digitCount c
  if n * pow10 (precision - 1) ≤ c * pow10 places then places else places + 1

/-- Divide a coefficient by a positive natural: the coefficient of the quotient and its places.
An exact quotient keeps no zeros behind the point, any other keeps all its digits. -/
def quotient (c n : Nat) : Nat × Int :=
  let places := quotientPlaces c n
  if c * pow10 places % n = 0 then
    let (q, left) := dropZeros (c * pow10 places / n) places
    (q, left)
  else
    let q := roundDiv (c * pow10 places) n
    if q = pow10 precision then (pow10 (precision - 1), (places : Int) - 1) else (q, places)

/-- The share of `index` in `length` as a percentage; all of an empty whole. -/
def percentOf (index : Int) (length : Nat) : Decimal :=
  if length = 0 then .ofNat 100
  else if index = 0 then .ofNat 0
  else
    let (c, lost) := keepDigits (100 * index.natAbs)
    let (q, places) := quotient c length
    .finite (index < 0) q (lost - places)

end PartScan.Number
