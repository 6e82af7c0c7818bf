import PartScan.Json.Payload

/-! # Stand-ins

A payload that is no data value by itself has another payload that is written in its place. A part
is handed over by its own object; an event by its fields as they are held, in which the kinds of its
parts still want a stand-in of their own.
-/

namespace PartScan.Payload

open Json Number

/-- The object of a part, its kind by name. -/
def objectOfPart (p : Part) : Payload :=
  .object [("type".toList, .string p.kind.label), ("start".toList, .int p.start),
    ("end".toList, .int p.stop), ("text".toList, .string p.text)]

/-- The fields of a part as they are held. -/
def recordOfPart (p : Part) : Payload :=
  .object [("type".toList, .kind p.kind), ("start".toList, .int p.start),
    ("end".toList, .int p.stop), ("text".toList, .string p.text)]

/-- The fields of a record, and of the records in it, as they are held. -/
def record? : Payload → Option Payload
  | .part p => some (recordOfPart p)
  | .event (.progress e d) =>
    some (.object [("expression".toList, .string e), ("percent".toList, .decimal d)])
  | .event (.completed e vs) =>
    some (.object [("expression".toList, .string e),
      ("variables".toList, .list (vs.map recordOfPart))])
  | _ => none

/-- Whether a payload is written as it is. -/
def isPlain : Payload → Bool
  | .null | .bool _ | .int _ | .float _ | .string _ | .list _ | .object _ => true
  | _ => false

/-- What is written in place of a payload that is not written as it is. A part is a record too, but
its own object goes first. -/
def standIn : Payload → Except EncodeError Payload
  | .part p => .ok (objectOfPart p)
  | v =>
    match v.record? with
    | some w => .ok w
    | none =>
      match v with
      | .kind k => .ok (.string k.label)
      | .decimal (.nan _ true _) => .error .signalling
      | .decimal d => .ok (.float (.ofDecimal d))
      | _ => .error .notSerializable

end PartScan.Payload
