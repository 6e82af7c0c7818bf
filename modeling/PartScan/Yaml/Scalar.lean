import PartScan.Number.Binary64
import PartScan.Text.Blank
import PartScan.Text.Digit
import PartScan.Text.Split
import PartScan.Yaml.Fault

/-! # Values of scalars

A scalar without a tag of its own stands for a truth value, a number, a date or nothing where its
text has the form of one, and for its text otherwise. A tag makes it stand for a value of one sort,
whatever its form.
-/

namespace PartScan.Yaml

open Number Text

/-- The sort of a node. Tags of any other name are `unknown`. -/
inductive Tag where
  | null
  | bool
  | int
  | float
  | binary
  | timestamp
  | omap
  | pairs
  | set
  | str
  | seq
  | map
  | merge
  | value
  | unknown
  deriving DecidableEq, Repr

def tagNames : List (Tag × List Char) :=
  [(.null, "null".toList), (.bool, "bool".toList), (.int, "int".toList),
   (.float, "float".toList), (.binary, "binary".toList), (.timestamp, "timestamp".toList),
   (.omap, "omap".toList), (.pairs, "pairs".toList), (.set, "set".toList), (.str, "str".toList),
   (.seq, "seq".toList), (.map, "map".toList), (.merge, "merge".toList),
   (.value, "value".toList)]

/-- What the full names of the sorts begin with. -/
def tagLead : List Char := "tag:yaml.org,2002:".toList

def Tag.ofName (name : List Char) : Tag :=
  match tagNames.find? fun t => tagLead ++ t.2 = name with
  | some t => t.1
  | none => .unknown

/-- Whether values of a sort hold others, so that they are no keys. -/
def Tag.isContainer : Tag → Bool
  | .omap | .pairs | .set | .seq | .map => true
  | _ => false

/-- The value of a scalar. Bytes come with the text that they encode, if they encode one. -/
inductive Scalar where
  | null
  | bool (b : Bool)
  | int (i : Int)
  | float (x : Binary64)
  | text (s : List Char)
  | bytes (length : Nat) (decoded : Option (List Char))
  | date
  | dateTime
  deriving Repr

/-! ## Forms of plain texts -/

def dropSign : List Char → List Char
  | '-' :: cs => cs
  | '+' :: cs => cs
  | cs => cs

def isDigitOrLow (c : Char) : Bool := isAsciiDigit c || c = '_'

def isWhole : List Char → Bool
  | [] => false
  | c :: rest => isAsciiDigit c && rest.all isDigitOrLow

/-- One or two digits that make a number below sixty. -/
def isSixty : List Char → Bool
  | [c] => isAsciiDigit c
  | [c, d] => '0' ≤ c && c ≤ '5' && isAsciiDigit d
  | _ => false

def isExponent : List Char → Bool
  | [] => true
  | e :: sign :: ds =>
    (e = 'e' || e = 'E') && (sign = '-' || sign = '+') && ds ≠ [] && ds.all isAsciiDigit
  | _ => false

/-- Digits and underscores, then perhaps an exponent. -/
def isFraction (cs : List Char) : Bool := isExponent (cs.dropWhile isDigitOrLow)

def isTruthWord (cs : List Char) : Bool :=
  ["yes", "Yes", "YES", "no", "No", "NO", "true", "True", "TRUE", "false", "False", "FALSE", "on",
   "On", "ON", "off", "Off", "OFF"].any fun w => w.toList = cs

def isNullWord (cs : List Char) : Bool :=
  ["~", "null", "Null", "NULL", ""].any fun w => w.toList = cs

/-- Numbers with a point, with an exponent, in base sixty, and the words for infinity and for the
undefined value. -/
def isFloatForm (cs : List Char) : Bool :=
  let body := dropSign cs
  let pieces := splitOn ':' body
  let decimal :=
    let whole := body.takeWhile isDigitOrLow
    match body.dropWhile isDigitOrLow with
    | '.' :: rest => isWhole whole && isFraction rest
    | _ => false
  let bare := match cs with
    | '.' :: d :: rest => isAsciiDigit d && isFraction rest
    | _ => false
  let sixties := match pieces, pieces.getLast? with
    | first :: _ :: _, some last =>
      let seconds := last.takeWhile (· ≠ '.')
      isWhole first && (pieces.tail.dropLast).all isSixty && isSixty seconds &&
        match last.dropWhile (· ≠ '.') with
        | '.' :: rest => rest.all isDigitOrLow
        | _ => false
    | _, _ => false
  decimal || bare || sixties || [".inf", ".Inf", ".INF"].any (fun w => w.toList = body) ||
    [".nan", ".NaN", ".NAN"].any (fun w => w.toList = cs)

/-- Numbers in base two, eight, ten, sixteen and sixty. -/
def isIntForm (cs : List Char) : Bool :=
  let body := dropSign cs
  let positive := fun (w : List Char) =>
    match w with
    | c :: rest => '1' ≤ c && c ≤ '9' && rest.all isDigitOrLow
    | [] => false
  match body with
  | ['0'] => true
  | '0' :: 'b' :: c :: rest => (c :: rest).all fun d => d = '0' || d = '1' || d = '_'
  | '0' :: 'x' :: c :: rest =>
    (c :: rest).all fun d =>
      isDigitOrLow d || ('a' ≤ d && d ≤ 'f') || ('A' ≤ d && d ≤ 'F')
  | '0' :: c :: rest => (c :: rest).all fun d => ('0' ≤ d && d ≤ '7') || d = '_'
  | _ =>
    match splitOn ':' body with
    | first :: sixties => positive first && sixties.all isSixty
    | [] => false

/-! ## Dates -/

/-- The zone of a time: universal time, or an offset in hours and minutes. -/
inductive Zone where
  | universal
  | offset (negative : Bool) (hours minutes : Nat)
  deriving Repr

structure Clock where
  hour : Nat
  minute : Nat
  second : Nat
  zone : Option Zone
  deriving Repr

structure Stamp where
  year : Nat
  month : Nat
  day : Nat
  clock : Option Clock
  /-- Month and day have two digits each. -/
  padded : Bool
  deriving Repr

def shortNumber (cs : List Char) : Option (Nat × Nat × List Char) :=
  let ds := (cs.take 2).takeWhile isAsciiDigit
  if ds = [] then none else some (natOfDigits ds, ds.length, cs.drop ds.length)

def twoDigits (cs : List Char) : Option (Nat × List Char) :=
  match shortNumber cs with
  | some (n, 2, rest) => some (n, rest)
  | _ => none

def expect (c : Char) : List Char → Option (List Char)
  | d :: rest => if c = d then some rest else none
  | [] => none

def isTabOrSpace (c : Char) : Bool := c = ' ' || c = '\t'

def zone? (cs : List Char) : Option (Option Zone) :=
  match cs with
  | [] => some none
  | _ =>
    match cs.dropWhile isTabOrSpace with
    | ['Z'] => some (some .universal)
    | sign :: rest =>
      if sign = '+' ∨ sign = '-' then
        match shortNumber rest with
        | none => none
        | some (h, _, []) => some (some (.offset (sign = '-') h 0))
        | some (h, _, ':' :: more) =>
          match twoDigits more with
          | some (m, []) => some (some (.offset (sign = '-') h m))
          | _ => none
        | _ => none
      else none
    | [] => none

def clock? (cs : List Char) : Option Clock := do
  let (hour, _, cs) ← shortNumber cs
  let (minute, cs) ← twoDigits (← expect ':' cs)
  let (second, cs) ← twoDigits (← expect ':' cs)
  let cs := match cs with
    | '.' :: rest => rest.dropWhile isAsciiDigit
    | _ => cs
  let zone ← zone? cs
  some { hour, minute, second, zone }

/-- A date, perhaps with a time behind a `T` or blanks. -/
def stamp? (cs : List Char) : Option Stamp := do
  let digits := cs.take 4
  if digits.length ≠ 4 ∨ !digits.all isAsciiDigit then none
  else
    let (month, m, cs) ← shortNumber (← expect '-' (cs.drop 4))
    let (day, d, cs) ← shortNumber (← expect '-' cs)
    let padded := m = 2 && d = 2
    match cs with
    | [] => some { year := natOfDigits digits, month, day, clock := none, padded }
    | c :: rest =>
      let time ←
        if c = 'T' ∨ c = 't' then some rest
        else if isTabOrSpace c then some (rest.dropWhile isTabOrSpace)
        else none
      let clock ← clock? time
      some { year := natOfDigits digits, month, day, clock := some clock, padded }

/-- Dates have two digits for month and day, unless a time follows. -/
def isStampForm (cs : List Char) : Bool :=
  match stamp? cs with
  | some s => s.clock.isSome || s.padded
  | none => false

def isLeap (year : Nat) : Bool := year % 4 = 0 && (year % 100 ≠ 0 || year % 400 = 0)

def daysOfMonth (year month : Nat) : Nat :=
  if month = 2 then (if isLeap year then 29 else 28)
  else if month = 4 ∨ month = 6 ∨ month = 9 ∨ month = 11 then 30
  else 31

def checkDate (s : Stamp) : Except Fault Unit :=
  if s.year = 0 then .error .year
  else if s.month = 0 ∨ 12 < s.month then .error .month
  else if s.day = 0 ∨ daysOfMonth s.year s.month < s.day then .error .day
  else .ok ()

/-- An offset lies strictly within a day. -/
def checkZone : Zone → Except Fault Unit
  | .universal => .ok ()
  | .offset negative h m =>
    let minutes : Int := if negative then -(60 * h + m : Nat) else (60 * h + m : Nat)
    if -1440 < minutes ∧ minutes < 1440 then .ok ()
    else .error (.offset ⟨minutes / 1440, (minutes % 1440).toNat * 60⟩)

def Stamp.check (s : Stamp) : Except Fault Scalar := do
  match s.clock with
  | none =>
    checkDate s
    .ok .date
  | some c =>
    match c.zone with
    | some z => checkZone z
    | none => .ok ()
    checkDate s
    if 23 < c.hour then .error .hour
    else if 59 < c.minute then .error .minute
    else if 59 < c.second then .error .second
    else .ok .dateTime

def dropLineFeed (cs : List Char) : List Char :=
  if cs.getLast? = some '\n' then cs.dropLast else cs

def isMarkWord (cs : List Char) : Bool := cs = ['!'] || cs = ['&'] || cs = ['*']

/-- The sort that the form of a plain text gives. -/
def formTag (cs : List Char) : Tag :=
  if isTruthWord cs then .bool
  else if isFloatForm cs then .float
  else if isIntForm cs then .int
  else if cs = ['<', '<'] then .merge
  else if isNullWord cs then .null
  else if isStampForm cs then .timestamp
  else if cs = ['='] then .value
  else if isMarkWord cs then .unknown
  else .str

/-- The sort of a text that is read as if it were plain. A line feed at its end is no part of its
form. -/
def plainTag (cs : List Char) : Tag :=
  if cs = ['\n'] then .str else formTag (dropLineFeed cs)

/-! ## Values -/

def trim (cs : List Char) : List Char :=
  ((cs.dropWhile isBlank).reverse.dropWhile isBlank).reverse

/-- Digits of all scripts are read as those of ASCII. -/
def asciiDigits (cs : List Char) : List Char :=
  cs.map fun c => if isDigit c then Char.ofNat ('0'.toNat + digitValue c) else c

def isDigitBelow (base : Nat) (c : Char) : Bool :=
  (isAsciiDigit c || ('a' ≤ c && c ≤ 'z') || ('A' ≤ c && c ≤ 'Z')) &&
    natOfDigitsBase 36 [c] < base

/-- Drop the two characters that mark a base. -/
def dropBaseMark (base : Nat) : List Char → List Char
  | '0' :: m :: rest =>
    let mark := m.toLower
    if (base = 2 ∧ mark = 'b') ∨ (base = 8 ∧ mark = 'o') ∨ (base = 16 ∧ mark = 'x') then rest
    else '0' :: m :: rest
  | cs => cs

/-- An integer in a base, with an optional sign and blanks around it. -/
def integerIn (base : Nat) (cs : List Char) : Except Fault Int :=
  let (negative, body) := Decimal.splitSign (asciiDigits (trim cs))
  let digits := dropBaseMark base body
  if digits = [] ∨ !digits.all (isDigitBelow base) then .error (.integerText base cs)
  else if base = 10 ∧ 4300 < digits.length then .error (.integerSize digits.length)
  else
    let n := natOfDigitsBase base digits
    .ok (if negative then -(n : Int) else n)

/-- Numbers in base sixty, most significant first. -/
def sixties (ns : List Int) : Int := ns.foldl (fun n d => 60 * n + d) 0

def intValue (text : List Char) : Except Fault Int :=
  match text.filter (· ≠ '_') with
  | [] => .error .emptyNumber
  | c :: rest =>
    let body := if c = '-' ∨ c = '+' then rest else c :: rest
    let signed := fun (n : Int) => if c = '-' then -n else n
    match body with
    | [] => .error .emptyNumber
    | ['0'] => .ok 0
    | '0' :: 'b' :: ds => (integerIn 2 ds).map signed
    | '0' :: 'x' :: ds => (integerIn 16 ds).map signed
    | '0' :: _ => (integerIn 8 body).map signed
    | _ =>
      if ':' ∈ body then ((splitOn ':' body).mapM (integerIn 10)).map fun ns => signed (sixties ns)
      else (integerIn 10 body).map signed

/-- A number in decimal notation or one of the words for special values. -/
def numberIn (cs : List Char) : Except Fault Binary64 :=
  let (negative, body) := Decimal.splitSign (asciiDigits (trim cs))
  let word := body.map Char.toLower
  if word = "inf".toList ∨ word = "infinity".toList then .ok (.infinity negative)
  else if word = "nan".toList then .ok .nan
  else
    match Decimal.readMagnitude body with
    | some (c, e) => .ok (.ofDecimal (.finite negative c e))
    | none => .error (.numberText cs)

def negate : Binary64 → Binary64
  | .finite negative m e => .finite (!negative) m e
  | .infinity negative => .infinity !negative
  | .nan => .nan

/-- The sum of numbers in base sixty, rounded at every step from the least significant on. -/
def sixtiesFloat (xs : List Binary64) : Binary64 :=
  (xs.reverse.foldl (fun (sum, base) x => (sum.add (x.mul (.ofInt base)), 60 * base))
    (Binary64.zero false, (1 : Int))).1

def floatValue (text : List Char) : Except Fault Binary64 :=
  match (text.filter (· ≠ '_')).map Char.toLower with
  | [] => .error .emptyNumber
  | c :: rest =>
    let body := if c = '-' ∨ c = '+' then rest else c :: rest
    let signed := fun (x : Binary64) => if c = '-' then negate x else x
    if body = ".inf".toList then .ok (signed (.infinity false))
    else if body = ".nan".toList then .ok .nan
    else if ':' ∈ body then
      ((splitOn ':' body).mapM numberIn).map fun xs => signed (sixtiesFloat xs)
    else (numberIn body).map signed

def truthValue (text : List Char) : Except Fault Bool :=
  let word := text.map Char.toLower
  if ["yes", "true", "on"].any fun w => w.toList = word then .ok true
  else if ["no", "false", "off"].any fun w => w.toList = word then .ok false
  else .error (.truthText word)

/-- The six bits of a character of encoded bytes. -/
def sixBits? (c : Char) : Option Nat :=
  if 'A' ≤ c ∧ c ≤ 'Z' then some (c.toNat - 'A'.toNat)
  else if 'a' ≤ c ∧ c ≤ 'z' then some (c.toNat - 'a'.toNat + 26)
  else if isAsciiDigit c then some (c.toNat - '0'.toNat + 52)
  else if c = '+' then some 62
  else if c = '/' then some 63
  else none

/-- Decode bytes: four characters make three of them. Other characters are skipped; padding ends
the bytes where it completes a group. -/
def decodeBytes (bits : List Nat) (pads : Nat) : List Char → Option (List UInt8)
  | [] => if bits = [] then some [] else none
  | c :: rest =>
    if c = '=' then
      if 2 ≤ bits.length then
        if 4 ≤ bits.length + (pads + 1) then some (groupBytes bits)
        else decodeBytes bits (pads + 1) rest
      else decodeBytes bits pads rest
    else
      match sixBits? c with
      | none => decodeBytes bits pads rest
      | some b =>
        if bits.length = 3 then
          (decodeBytes [] 0 rest).map (groupBytes (bits ++ [b]) ++ ·)
        else decodeBytes (bits ++ [b]) 0 rest
where
  groupBytes : List Nat → List UInt8
    | [a, b] => [(4 * a + b / 16).toUInt8]
    | [a, b, c] => [(4 * a + b / 16).toUInt8, (16 * (b % 16) + c / 4).toUInt8]
    | [a, b, c, d] =>
      [(4 * a + b / 16).toUInt8, (16 * (b % 16) + c / 4).toUInt8, (64 * (c % 4) + d).toUInt8]
    | _ => []

def bytesValue (text : List Char) : Except Fault Scalar :=
  if text.all fun c => c.toNat < 0x80 then
    match decodeBytes [] 0 text with
    | some bs =>
      .ok (.bytes bs.length ((String.fromUTF8? (ByteArray.mk bs.toArray)).map String.toList))
    | none => .error .malformed
  else .error .malformed

def scalarValue (tag : Tag) (text : List Char) : Except Fault Scalar :=
  match tag with
  | .null => .ok .null
  | .bool => (truthValue text).map .bool
  | .int => (intValue text).map .int
  | .float => (floatValue text).map .float
  | .binary => bytesValue text
  | .timestamp =>
    match stamp? (dropLineFeed text) with
    | some s => s.check
    | none => .error .timestampText
  | .str => .ok (.text text)
  | _ => .error .malformed

end PartScan.Yaml
