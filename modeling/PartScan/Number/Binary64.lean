import PartScan.Number.Decimal
import PartScan.Number.Power
import PartScan.Number.Rounding

/-! # Double precision numbers

A double is a mantissa below `2 ^ 53` with a power of two. Quotients and decimals are rounded to
the nearest double, a tie going to the even mantissa.
-/

namespace PartScan.Number

/-- A double; the value of a finite one is its mantissa times two to its exponent. -/
inductive Binary64 where
  | finite (negative : Bool) (mantissa : Nat) (exponent : Int)
  | infinity (negative : Bool)
  | nan
  deriving DecidableEq, Repr, Inhabited

namespace Binary64

def leastExponent : Int := -1074

def greatestExponent : Int := 971

def zero (negative : Bool) : Binary64 := .finite negative 0 leastExponent

/-- `num / den` divided by `2 ^ e`, as a quotient of naturals. -/
def scaled (num den : Nat) (e : Int) : Nat × Nat :=
  (num * pow2 (-e).toNat, den * pow2 e.toNat)

/-- The exponent that gives `num / den` a mantissa of 53 bits, or the least exponent. -/
def exponentFor (num den : Nat) : Int :=
  let e : Int := (num.log2 : Int) - den.log2 - 52
  let (n, d) := scaled num den e
  max (if n < d * pow2 52 then e - 1 else e) leastExponent

def ofRatio (negative : Bool) (num den : Nat) : Binary64 :=
  if num = 0 then zero negative
  else
    let e := exponentFor num den
    let (n, d) := scaled num den e
    let m := roundDiv n d
    let (m, e) := if m = pow2 53 then (pow2 52, e + 1) else (m, e)
    if e > greatestExponent then .infinity negative else .finite negative m e

/-- The double nearest to a decimal. Powers of ten beyond every double are not computed. -/
def ofDecimal : Decimal → Binary64
  | .infinity negative => .infinity negative
  | .nan .. => .nan
  | .finite negative c e =>
    if c = 0 then zero negative
    else if e + digitCount c > 310 then .infinity negative
    else if e + digitCount c < -330 then zero negative
    else ofRatio negative (c * pow10 e.toNat) (pow10 (-e).toNat)

def ofInt (i : Int) : Binary64 := ofRatio (i < 0) i.natAbs 1

/-- The magnitude of a finite double as a quotient of naturals. -/
def ratio (mantissa : Nat) (exponent : Int) : Nat × Nat :=
  (mantissa * pow2 exponent.toNat, pow2 (-exponent).toNat)

/-- At least zero; no order holds of an undefined value. -/
def isNonneg : Binary64 → Bool
  | .finite negative m _ => !negative || m = 0
  | .infinity negative => !negative
  | .nan => false

/-- The integer that a double stands for, where it stands for one. -/
def toInt? : Binary64 → Option Int
  | .finite negative m e =>
    let (n, d) := ratio m e
    if n % d = 0 then some (if negative then -(n / d : Nat) else (n / d : Nat)) else none
  | _ => none

def toRat (negative : Bool) (mantissa : Nat) (exponent : Int) : Rat :=
  let (n, d) := ratio mantissa exponent
  mkRat (if negative then -n else n) d

/-- The double nearest to a rational number; `negative` is the sign of a zero. -/
def ofRat (negative : Bool) (q : Rat) : Binary64 :=
  ofRatio (if q = 0 then negative else q < 0) q.num.natAbs q.den

def add : Binary64 → Binary64 → Binary64
  | .finite s m e, .finite t n f => ofRat (s && t) (toRat s m e + toRat t n f)
  | .infinity s, .infinity t => if s = t then .infinity s else .nan
  | .infinity s, .finite .. => .infinity s
  | .finite .., .infinity t => .infinity t
  | _, _ => .nan

def mul : Binary64 → Binary64 → Binary64
  | .finite s m e, .finite t n f => ofRat (s != t) (toRat s m e * toRat t n f)
  | .infinity s, .infinity t => .infinity (s != t)
  | .infinity s, .finite t n _ => if n = 0 then .nan else .infinity (s != t)
  | .finite s m _, .infinity t => if m = 0 then .nan else .infinity (s != t)
  | _, _ => .nan

end Binary64

end PartScan.Number
