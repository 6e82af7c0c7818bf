import PartScan.Number.Digits
import PartScan.Text.Quoted

/-! # Faults of an expression

An expression is refused where an opening parenthesis is not closed or stands too deep.
-/

namespace PartScan

open Number Text

/-- Why an expression is refused. An unclosed parenthesis may come without its offset, or with a
wording of its own. -/
inductive Fault where
  | unclosed (expression : List Char) (offset : Option Int) (wording : Option (List Char))
  | tooDeep (expression : List Char) (offset maxDepth : Int)
  deriving DecidableEq, Repr

namespace Fault

def expression : Fault → List Char
  | .unclosed e .. => e
  | .tooDeep e .. => e

def offset : Fault → Option Int
  | .unclosed _ o _ => o
  | .tooDeep _ o _ => some o

def offsetText : Option Int → List Char
  | some o => intText o
  | none => "None".toList

def message : Fault → List Char
  | .unclosed _ _ (some wording) => wording
  | .unclosed e o none =>
    "No closing parenthesis for '(' at offset ".toList ++ offsetText o ++ " in ".toList ++ quoted e
  | .tooDeep e o m =>
    "Parentheses nested deeper than ".toList ++ intText m ++ " at offset ".toList ++ intText o ++
      " in ".toList ++ quoted e

end Fault

end PartScan
