import PartScan.Json.Basic
import PartScan.Json.Layout

/-! # Writing data values

The text of a data value under a layout. The one thing that can fail is a number that is infinite
or undefined, where the layout does not allow it.
-/

namespace PartScan.Json

open Number

inductive EncodeError where
  | outOfRange
  | notSerializable
  | signalling
  deriving DecidableEq, Repr

def EncodeError.message : EncodeError → List Char
  | .outOfRange => "Out of range float values are not JSON compliant".toList
  | .notSerializable => "Object of type set is not JSON serializable".toList
  | .signalling => "cannot convert signaling NaN to float".toList

/-- The text of a number, unless it is a word and words are not allowed. -/
def floatText (l : Layout) (x : Binary64) : Except EncodeError (List Char) :=
  match x with
  | .finite .. => .ok (x.toText numberWords)
  | _ => if l.allowUndefined then .ok (x.toText numberWords) else .error .outOfRange

def boolText (b : Bool) : List Char := (if b then "true" else "false").toList

/-- Fields whose texts are all there, in the order in which they are written. -/
def Layout.collect (l : Layout) (fields : List (List Char × Except EncodeError (List Char))) :
    Except EncodeError (List (List Char × List Char)) :=
  (l.fieldOrder fields).mapM fun f => f.2.map fun t => (f.1, t)

mutual

def render (l : Layout) (depth : Nat) : Json → Except EncodeError (List Char)
  | .null => .ok "null".toList
  | .bool b => .ok (boolText b)
  | .int i => .ok (intText i)
  | .float x => floatText l x
  | .string s => .ok (stringText l.ascii s)
  | .list items => (renderItems l (depth + 1) items).map (l.arrayText depth)
  | .object fields => (l.collect (renderFields l (depth + 1) fields)).map (l.objectText depth)

def renderItems (l : Layout) (depth : Nat) : List Json → Except EncodeError (List (List Char))
  | [] => .ok []
  | v :: rest => do
    let t ← render l depth v
    let ts ← renderItems l depth rest
    .ok (t :: ts)

def renderFields (l : Layout) (depth : Nat) :
    List (List Char × Json) → List (List Char × Except EncodeError (List Char))
  | [] => []
  | (k, v) :: rest => (k, render l depth v) :: renderFields l depth rest

end

end PartScan.Json
