import PartScan.Event
import PartScan.Json.Printer

/-! # Payloads

A payload is a data value that may also hold parts, kinds, decimals and events. Each of these is
written in the form of a plain data value; a set has no such form.
-/

namespace PartScan

open Number

inductive Payload where
  | null
  | bool (b : Bool)
  | int (i : Int)
  | float (x : Binary64)
  | string (s : List Char)
  | list (items : List Payload)
  | object (fields : List (List Char × Payload))
  | part (p : Part)
  | kind (k : PartKind)
  | decimal (d : Decimal)
  | event (e : Event)
  | set (items : List Payload)
  deriving Repr, Inhabited

namespace Payload

open Json

/-- Decimals are written as the nearest double. -/
def decimalText (l : Layout) : Decimal → Except EncodeError (List Char)
  | .nan _ true _ => .error .signalling
  | d => floatText l (.ofDecimal d)

def partFields (l : Layout) (p : Part) : List (List Char × List Char) :=
  [("type".toList, stringText l.ascii p.kind.label), ("start".toList, intText p.start),
   ("end".toList, intText p.stop), ("text".toList, stringText l.ascii p.text)]

def partText (l : Layout) (depth : Nat) (p : Part) : List Char :=
  l.objectText depth (l.fieldOrder (partFields l p))

def eventFields (l : Layout) (depth : Nat) :
    Event → List (List Char × Except EncodeError (List Char))
  | .progress e d =>
    [("expression".toList, .ok (stringText l.ascii e)), ("percent".toList, decimalText l d)]
  | .completed e vs =>
    [("expression".toList, .ok (stringText l.ascii e)),
     ("variables".toList, .ok (l.arrayText depth (vs.map (partText l (depth + 1)))))]

mutual

def render (l : Layout) (depth : Nat) : Payload → Except EncodeError (List Char)
  | .null => .ok "null".toList
  | .bool b => .ok (boolText b)
  | .int i => .ok (intText i)
  | .float x => floatText l x
  | .string s => .ok (stringText l.ascii s)
  | .list items => (renderItems l (depth + 1) items).map (l.arrayText depth)
  | .object fields => (l.collect (renderFields l (depth + 1) fields)).map (l.objectText depth)
  | .part p => .ok (partText l depth p)
  | .kind k => .ok (stringText l.ascii k.label)
  | .decimal d => decimalText l d
  | .event e => (l.collect (eventFields l (depth + 1) e)).map (l.objectText depth)
  | .set _ => .error .notSerializable

def renderItems (l : Layout) (depth : Nat) : List Payload → Except EncodeError (List (List Char))
  | [] => .ok []
  | v :: rest => do
    let t ← render l depth v
    let ts ← renderItems l depth rest
    .ok (t :: ts)

def renderFields (l : Layout) (depth : Nat) :
    List (List Char × Payload) → List (List Char × Except EncodeError (List Char))
  | [] => []
  | (k, v) :: rest => (k, render l depth v) :: renderFields l depth rest

end

/-- The name of the sort of a payload, in the message on payloads that have no items. -/
def sortName : Payload → List Char
  | .null => "NoneType".toList
  | .bool _ => "bool".toList
  | .int _ => "int".toList
  | .float _ => "float".toList
  | .string _ => "str".toList
  | .list _ => "list".toList
  | .object _ => "dict".toList
  | .part _ => "ExpressionPart".toList
  | .kind _ => "PartType".toList
  | .decimal _ => "decimal.Decimal".toList
  | .event (.progress ..) => "ProgressUpdated".toList
  | .event (.completed ..) => "ProcessCompleted".toList
  | .set _ => "set".toList

/-- The items of a payload: those of a list or a set, the characters of a text, the names of an
object's fields. -/
def items? : Payload → Option (List Payload)
  | .list items => some items
  | .set items => some items
  | .string s => some (s.map fun c => .string [c])
  | .object fields => some (fields.map fun f => .string f.1)
  | _ => none

def notIterableText (v : Payload) : List Char :=
  ['\''] ++ v.sortName ++ "' object is not iterable".toList

end Payload

def partsText (ps : List Part) : List Char :=
  Json.Layout.arrayText {} 0 (ps.map (Payload.partText {} 1))

end PartScan
