import PartScan.Number.Binary64

/-! # Data values

Values of the interchange format: scalars, lists, and objects whose fields keep their order.
-/

namespace PartScan

open Number

inductive Json where
  | null
  | bool (b : Bool)
  | int (i : Int)
  | float (x : Binary64)
  | string (s : List Char)
  | list (items : List Json)
  | object (fields : List (List Char × Json))
  deriving Repr, Inhabited

/-- The field with the given name; the last one counts. -/
def Json.field? (name : List Char) : Json → Option Json
  | .object fields => (fields.reverse.find? fun f => f.1 = name).map (·.2)
  | _ => none

end PartScan
