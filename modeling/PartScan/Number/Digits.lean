/-! # Decimal digits of integers

The written form of naturals and integers, and the value of a run of digits.
-/

namespace PartScan.Number

/-- The decimal digits of a natural, most significant first; zero has the one digit `0`. -/
def natText (n : Nat) : List Char := Nat.toDigits 10 n

/-- A minus sign stands before the digits of a negative integer. -/
def intText : Int → List Char
  | .ofNat n => natText n
  | .negSucc n => '-' :: natText (n + 1)

/-- How many decimal digits a natural has; zero has one. -/
def digitCount (n : Nat) : Nat := (natText n).length

def isAsciiDigit (c : Char) : Bool := '0' ≤ c && c ≤ '9'

def natOfDigits (cs : List Char) : Nat :=
  cs.foldl (fun n c => 10 * n + (c.toNat - '0'.toNat)) 0

/-- Digits in the base `base`, read with letters for the digits above nine, in either case. -/
def natOfDigitsBase (base : Nat) (cs : List Char) : Nat :=
  cs.foldl (fun n c => base * n + digitValue c) 0
where
  digitValue (c : Char) : Nat :=
    if c ≤ '9' then c.toNat - '0'.toNat
    else if c ≤ 'Z' then c.toNat - 'A'.toNat + 10
    else c.toNat - 'a'.toNat + 10

/-- Lower-case hexadecimal digits, exactly `width` of them. -/
def hexText : Nat → Nat → List Char
  | 0, _ => []
  | width + 1, n => hexText width (n / 16) ++ [Nat.digitChar (n % 16)]

@[simp] theorem length_hexText (width n : Nat) : (hexText width n).length = width := by
  induction width generalizing n with
  | zero => rfl
  | succ w ih => simp [hexText, ih]

end PartScan.Number
