import PartScan.Settings.Check
import PartScan.Yaml.Document

/-! # Layers of settings

Settings come from a document, and variables of the environment go over them. A mapping under the
name `extraction` takes the place of the whole document; what has no field is ignored. Each layer is
checked on its own, the document first.
-/

namespace PartScan

open Text

/-- Where settings are looked for if no other place is named. -/
def defaultPath : List Char := "configs/default.yaml".toList

/-- What stands at a place. -/
inductive Source where
  | missing
  | directory
  | file (bytes : ByteArray)

/-- Why there are no settings. -/
inductive LoadError where
  | directory
  | encoding
  | malformed (path : List Char)
  | fault (f : Yaml.Fault)
  | noMapping (sort : List Char)
  | keyNames
  | refused (problems : List (Field × Problem))
  deriving DecidableEq, Repr

def LoadError.message : LoadError → List Char
  | .malformed path => "Failed to parse YAML at ".toList ++ path
  | .fault f => f.message
  | .noMapping sort => ['\''] ++ sort ++ "' object has no attribute 'get'".toList
  | .keyNames => "keywords must be strings".toList
  | .directory => "Is a directory".toList
  | .encoding => "Invalid encoding".toList
  | .refused ps => [';', ' '].intercalate (ps.map fun (f, p) => f.name ++ ": ".toList ++ p.message)

/-- Names with given values; keys that are no texts have no name. Of several values under one name
the last counts. -/
abbrev Entries := List (Option (List Char) × Given)

/-- A value at the top of a document: the value of a field, or entries of its own. -/
inductive Item where
  | single (g : Given)
  | entries (es : Entries)

def Item.given : Item → Given
  | .single g => g
  | .entries _ => .other

def lookupLast {α : Type} (name : List Char) (items : List (Option (List Char) × α)) : Option α :=
  items.reverse.lookup (some name)

/-- The entries that settings are taken from: those of the section, if there is one, or else those
of the whole. -/
def sectionOf (items : List (Option (List Char) × Item)) : Entries :=
  match lookupLast "extraction".toList items with
  | some (.entries es) => es
  | _ => items.map fun (name, item) => (name, item.given)

namespace Settings

/-- Check the settings among some entries. -/
def ofEntries (es : Entries) : Except LoadError Settings :=
  if es.any fun e => e.1.isNone then .error .keyNames
  else (check fun f => lookupLast f.name es).mapError .refused

end Settings

/-- A scalar as the value of a field. Dates are the value of none. -/
def Given.ofScalar : Yaml.Scalar → Given
  | .bool b => .bool b
  | .int i => .int i
  | .float x => .float x
  | .text s => .text s
  | .bytes _ decoded => .bytes decoded
  | _ => .other

namespace Yaml.Document

def given (d : Document) (n : Node) : Given :=
  match d.value n with
  | .scalar s => .ofScalar s
  | _ => .other

def item (d : Document) (n : Node) : Item :=
  match d.value n with
  | .mapping es => .entries (es.map fun (name, n) => (name, d.given n))
  | _ => .single (d.given n)

/-- The settings of a document. A value that counts as nothing gives none; any other value has to
be a mapping. -/
def settings (d : Document) : Except LoadError Settings :=
  match d.value d.root with
  | .mapping es => Settings.ofEntries (sectionOf (es.map fun (name, n) => (name, d.item n)))
  | v => if v.isVoid then Settings.ofEntries [] else .error (.noMapping v.sortText)

end Yaml.Document

/-- Read a line break of one or two characters as a line feed. -/
def unifyBreaks : List Char → List Char
  | '\r' :: '\n' :: rest => '\n' :: unifyBreaks rest
  | '\r' :: rest => '\n' :: unifyBreaks rest
  | c :: rest => c :: unifyBreaks rest
  | [] => []

namespace Settings

/-- The settings of the text of a document; `path` names it in messages. -/
def ofText (path text : List Char) : Except LoadError Settings :=
  match Yaml.Document.read (unifyBreaks text) with
  | .error .malformed => .error (.malformed path)
  | .error f => .error (.fault f)
  | .ok none => Settings.ofEntries []
  | .ok (some d) => d.settings

/-- The settings at a path, the defaults where nothing stands there or no path is given. -/
def ofPath (look : List Char → Source) : Option (List Char) → Except LoadError Settings
  | none | some [] => Settings.ofEntries []
  | some path =>
    match look path with
    | .missing => Settings.ofEntries []
    | .directory => .error .directory
    | .file bytes =>
      match String.fromUTF8? bytes with
      | some text => Settings.ofText path text.toList
      | none => .error .encoding

end Settings

/-- The variable of the environment that overrides a field. -/
def Field.variable (f : Field) : List Char := "EXPRPARTS_".toList ++ f.name.map Char.toUpper

/-- Load the settings at a path and put those of the environment over them. -/
def Settings.load (look : List Char → Source) (environment : List Char → Option (List Char))
    (path : Option (List Char)) : Except LoadError Settings := do
  let s ← Settings.ofPath look path
  (s.override fun f => environment f.variable).mapError .refused

end PartScan
