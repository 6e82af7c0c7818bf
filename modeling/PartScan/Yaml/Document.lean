import PartScan.Yaml.Node

/-! # Documents

A document is its root with the nodes that its aliases name. The parts of collections are made level
by level: the first fault is the leftmost of the highest level that has one.
-/

namespace PartScan.Yaml

namespace Node

def anchor? : Node → Option (List Char)
  | .alias _ => none
  | .scalar a .. => a
  | .list a .. => a
  | .map a .. => a

/-- Whether the parts of a node are made on the next level. -/
def isContainer : Node → Bool
  | .alias _ => false
  | .scalar _ tag _ => tag.isContainer
  | .list _ tag _ => tag.isContainer
  | .map _ tag _ => tag.isContainer

def isMerge : Node → Bool
  | .scalar _ .merge _ => true
  | .list _ .merge _ => true
  | .map _ .merge _ => true
  | _ => false

def isValue : Node → Bool
  | .scalar _ .value _ => true
  | .list _ .value _ => true
  | .map _ .value _ => true
  | _ => false

/-- The mark for the text of a map is a text as a key. -/
def asKey : Node → Node
  | .scalar a .value text => .scalar a .str text
  | n => n

mutual
def size : Node → Nat
  | .alias _ => 1
  | .scalar .. => 1
  | .list _ _ items => 1 + sizeItems items
  | .map _ _ entries => 1 + sizeEntries entries

def sizeItems : List Node → Nat
  | [] => 0
  | n :: ns => n.size + sizeItems ns

def sizeEntries : List (Node × Node) → Nat
  | [] => 0
  | (k, v) :: rest => k.size + v.size + sizeEntries rest
end

mutual
def named : Node → List (List Char × Node)
  | .alias _ => []
  | .scalar a tag text => (a.map (·, .scalar a tag text)).toList
  | .list a tag items => (a.map (·, .list a tag items)).toList ++ namedItems items
  | .map a tag entries => (a.map (·, .map a tag entries)).toList ++ namedEntries entries

def namedItems : List Node → List (List Char × Node)
  | [] => []
  | n :: ns => n.named ++ namedItems ns

def namedEntries : List (Node × Node) → List (List Char × Node)
  | [] => []
  | (k, v) :: rest => k.named ++ v.named ++ namedEntries rest
end

end Node

/-- A root with the nodes that its aliases name. -/
structure Document where
  root : Node
  named : List (List Char × Node)

namespace Document

def ofRoot (root : Node) : Document := ⟨root, root.named⟩

def resolve (d : Document) : Node → Node
  | .alias name => (d.named.lookup name).getD .blank
  | n => n

/-- The entries of a map, those of the maps that it merges in front. Of several merged maps in a
list the first comes last. A map merged into itself adds only its own entries. -/
def merged (d : Document) : Nat → List (List Char) → List (Node × Node) →
    Except Fault (List (Node × Node))
  | 0, _, entries => .ok (entries.filter fun e => !(d.resolve e.1).isMerge)
  | fuel + 1, busy, entries => do
    let other := fun (n : Node) =>
      match d.resolve n with
      | .map a _ inner =>
        match a with
        | some name =>
          if name ∈ busy then .ok (inner.filter fun e => !(d.resolve e.1).isMerge)
          else d.merged fuel (name :: busy) inner
        | none => d.merged fuel busy inner
      | _ => .error .malformed
    let front ← (entries.filter fun e => (d.resolve e.1).isMerge).mapM fun e =>
      match d.resolve e.2 with
      | .map a tag inner => other (.map a tag inner)
      | .list _ _ items => (items.mapM other).map fun parts => parts.reverse.flatten
      | _ => .error .malformed
    .ok (front.flatten ++ entries.filter fun e => !(d.resolve e.1).isMerge)

def size (d : Document) : Nat := d.root.size + 1

/-- The entries of a map with those that it merges. -/
def entries (d : Document) (n : Node) : Except Fault (List (Node × Node)) :=
  match n with
  | .map a _ inner => d.merged d.size a.toList inner
  | _ => .error .malformed

/-- The text of a node: a scalar's own, or that of a map's entry for it. -/
def textOf? (d : Document) : Nat → Node → Option (List Char)
  | 0, _ => none
  | fuel + 1, n =>
    match d.resolve n with
    | .scalar _ _ text => some text
    | .map _ _ inner =>
      (inner.find? fun e => (d.resolve e.1).isValue).bind fun e => d.textOf? fuel e.2
    | _ => none

/-- The scalar that a node outside the containers stands for. -/
def scalar (d : Document) (n : Node) : Except Fault Scalar :=
  match n, d.textOf? d.size n with
  | .scalar _ tag _, some text => scalarValue tag text
  | .map _ .timestamp _, some _ => .error .timestampMap
  | .map _ tag _, some text => scalarValue tag text
  | _, _ => .error .malformed

/-- The parts of a container in the order in which they are made, a fault where one cannot be. -/
def parts (d : Document) : Node → List (Except Fault Node)
  | .list _ .seq items => items.map fun n => .ok (d.resolve n)
  | .list _ tag items =>
    if tag = .omap ∨ tag = .pairs then
      items.flatMap fun n =>
        match d.resolve n with
        | .map _ _ [(k, v)] => [.ok (d.resolve k), .ok (d.resolve v)]
        | _ => [.error .malformed]
    else [.error .malformed]
  | .map a tag inner =>
    if tag = .map ∨ tag = .set then
      match d.entries (.map a tag inner) with
      | .error f => [.error f]
      | .ok entries =>
        entries.flatMap fun (k, v) =>
          let key := (d.resolve k).asKey
          .ok key :: (if key.isContainer then [.error .malformed] else []) ++ [.ok (d.resolve v)]
    else [.error .malformed]
  | _ => [.error .malformed]

/-- What is wrong with a part when it is met. -/
def partFault? (d : Document) : Except Fault Node → Option Fault
  | .error f => some f
  | .ok n =>
    if n.isContainer then none
    else
      match d.scalar n with
      | .ok _ => none
      | .error f => some f

/-- The containers of the next level, each named one once. -/
def nextLevel (seen : List (List Char)) : List Node → List (List Char) × List Node
  | [] => (seen, [])
  | n :: ns =>
    match n.isContainer, n.anchor? with
    | false, _ => nextLevel seen ns
    | true, none => let (seen, level) := nextLevel seen ns; (seen, n :: level)
    | true, some a =>
      if a ∈ seen then nextLevel seen ns
      else let (seen, level) := nextLevel (a :: seen) ns; (seen, n :: level)

/-- The first fault of the containers of a level and all below. -/
def levelFault? (d : Document) : Nat → List (List Char) → List Node → Option Fault
  | 0, _, _ => none
  | fuel + 1, seen, level =>
    let parts := level.flatMap d.parts
    match parts.findSome? d.partFault? with
    | some f => some f
    | none =>
      match nextLevel seen (parts.filterMap Except.toOption) with
      | (_, []) => none
      | (seen, level) => d.levelFault? fuel seen level

def fault? (d : Document) : Option Fault :=
  (d.partFault? (.ok d.root)).or
    (let (seen, level) := nextLevel [] [d.root]
     d.levelFault? d.size seen level)

def read (text : List Char) : Except Fault (Option Document) := do
  match ← parse text with
  | none => .ok none
  | some root =>
    let d := ofRoot root
    match d.fault? with
    | some f => .error f
    | none => .ok (some d)

end Document

/-! ## Values -/

/-- The value of a node. The parts of a collection stay nodes; keys that are no texts have no
name. -/
inductive Value where
  | scalar (s : Scalar)
  | list (items : List Node)
  | set (entries : List (Node × Node))
  | mapping (entries : List (Option (List Char) × Node))

/-- Nothing, false, zero and empty texts. -/
def Scalar.isVoid : Scalar → Bool
  | .null => true
  | .bool b => !b
  | .int i => i = 0
  | .float (.finite _ m _) => m = 0
  | .text s => s = []
  | .bytes n _ => n = 0
  | _ => false

def Scalar.sortText : Scalar → List Char
  | .null => "NoneType".toList
  | .bool _ => "bool".toList
  | .int _ => "int".toList
  | .float _ => "float".toList
  | .text _ => "str".toList
  | .bytes .. => "bytes".toList
  | .date => "datetime.date".toList
  | .dateTime => "datetime.datetime".toList

namespace Value

/-- Whether a value counts as nothing: a void scalar or an empty collection. -/
def isVoid : Value → Bool
  | .scalar s => s.isVoid
  | .list items => items.isEmpty
  | .set entries => entries.isEmpty
  | .mapping entries => entries.isEmpty

def sortText : Value → List Char
  | .scalar s => s.sortText
  | .list _ => "list".toList
  | .set _ => "set".toList
  | .mapping _ => "dict".toList

end Value

namespace Document

def value (d : Document) (n : Node) : Value :=
  match d.resolve n with
  | .list _ _ items => .list items
  | .map a tag inner =>
    if tag.isContainer then
      let entries := (d.entries (.map a tag inner)).toOption.getD []
      if tag = .set then .set entries
      else .mapping (entries.map fun (k, v) => (keyText? (d.resolve k).asKey, v))
    else .scalar ((d.scalar (.map a tag inner)).toOption.getD .null)
  | n => .scalar ((d.scalar n).toOption.getD .null)
where
  keyText? (k : Node) : Option (List Char) :=
    match k.isContainer, d.scalar k with
    | false, .ok (.text s) => some s
    | _, _ => none

end Document

end PartScan.Yaml
