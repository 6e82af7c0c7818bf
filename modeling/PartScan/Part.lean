import PartScan.Number.Digits
import PartScan.Text.Quoted

/-! # Parts of an expression

A part is a run of word characters with its kind and its offsets in the whole expression.
-/

namespace PartScan

open Number Text

/-- What a word stands for. -/
inductive PartKind where
  | function
  | var
  | number
  | string
  deriving DecidableEq, Repr, Inhabited

namespace PartKind

def all : List PartKind := [.function, .var, .number, .string]

/-- The name under which a kind is printed and exchanged. -/
def label : PartKind → List Char
  | .function => "Function".toList
  | .var => "Variable".toList
  | .number => "NumberLiteral".toList
  | .string => "StringLiteral".toList

/-- The name of the kind in descriptions of a part. -/
def constant : PartKind → List Char
  | .function => "FUNCTION".toList
  | .var => "VARIABLE".toList
  | .number => "NUMBER_LITERAL".toList
  | .string => "STRING_LITERAL".toList

def ofLabel? (s : List Char) : Option PartKind := all.find? fun k => k.label = s

@[simp] theorem ofLabel?_label (kind : PartKind) : ofLabel? kind.label = some kind := by
  cases kind <;> rfl

end PartKind

/-- A classified word. The offset `stop` is exclusive; for a function it is that of its opening
parenthesis. -/
structure Part where
  kind : PartKind
  start : Int
  stop : Int
  text : List Char
  deriving DecidableEq, Repr, Inhabited

inductive LengthError where
  | negative
  | tooLarge
  deriving DecidableEq, Repr

namespace Part

def isVariable (p : Part) : Bool := p.kind = .var

/-- The distance between the offsets, where it is neither negative nor beyond 63 bits. -/
def length? (p : Part) : Except LengthError Nat :=
  if p.stop - p.start < 0 then .error .negative
  else if 9223372036854775808 ≤ p.stop - p.start then .error .tooLarge
  else .ok (p.stop - p.start).toNat

def describe (p : Part) : List Char :=
  "ExpressionPart(type=<PartType.".toList ++ p.kind.constant ++ ": ".toList ++
    quoted p.kind.label ++ ">, start=".toList ++ intText p.start ++ ", end=".toList ++
    intText p.stop ++ ", text=".toList ++ quoted p.text ++ [')']

end Part

end PartScan
