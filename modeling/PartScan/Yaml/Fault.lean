import PartScan.Number.Digits
import PartScan.Text.Quoted

/-! # Faults of a document

A document is malformed where it breaks a rule of the format. Scalars may also stand for values that
do not exist, such as the thirtieth of February.
-/

namespace PartScan.Yaml

open Number Text

/-- A length of time that is no offset of a time zone, in days and seconds. -/
structure Offset where
  days : Int
  seconds : Nat
  deriving DecidableEq, Repr

inductive Fault where
  | malformed
  | codePoint
  | codeSize
  | integerText (base : Nat) (text : List Char)
  | integerSize (digits : Nat)
  | numberText (text : List Char)
  | emptyNumber
  | truthText (text : List Char)
  | timestampText
  | timestampMap
  | year
  | month
  | day
  | hour
  | minute
  | second
  | offset (o : Offset)
  deriving DecidableEq, Repr

namespace Fault

def offsetText (o : Offset) : List Char :=
  "datetime.timedelta(days=".toList ++ intText o.days ++
    (if o.seconds = 0 then [] else ", seconds=".toList ++ natText o.seconds) ++ [')']

def message : Fault → List Char
  | .malformed => []
  | .codePoint => "chr() arg not in range(0x110000)".toList
  | .codeSize => "Python int too large to convert to C int".toList
  | .integerText base text =>
    "invalid literal for int() with base ".toList ++ natText base ++ ": ".toList ++ quoted text
  | .integerSize digits =>
    "Exceeds the limit (4300 digits) for integer string conversion: value has ".toList ++
      natText digits ++ " digits; use sys.set_int_max_str_digits() to increase the limit".toList
  | .numberText text => "could not convert string to float: ".toList ++ quoted text
  | .emptyNumber => "string index out of range".toList
  | .truthText text => quoted text
  | .timestampText => "'NoneType' object has no attribute 'groupdict'".toList
  | .timestampMap => "expected string or bytes-like object, got 'list'".toList
  | .year => "year 0 is out of range".toList
  | .month => "month must be in 1..12".toList
  | .day => "day is out of range for month".toList
  | .hour => "hour must be in 0..23".toList
  | .minute => "minute must be in 0..59".toList
  | .second => "second must be in 0..59".toList
  | .offset o =>
    "offset must be a timedelta strictly between -timedelta(hours=24) and ".toList ++
      "timedelta(hours=24), not ".toList ++ offsetText o ++ ['.']

end Fault

end PartScan.Yaml
