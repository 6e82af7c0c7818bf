import PartScan.Number.Shortest

/-! # Layout of data values

How texts, lists and objects are laid out: on one line, or one item a line under an indent.
-/

namespace PartScan.Json

open Number

/-- The choices in writing data values. -/
structure Layout where
  indent : Option (List Char) := none
  itemSeparator : List Char := [',', ' ']
  keySeparator : List Char := [':', ' ']
  ascii : Bool := true
  sortKeys : Bool := false
  allowUndefined : Bool := true
  deriving Repr, Inhabited

/-- Undefined and infinite numbers are written as words. -/
def numberWords : Binary64.Words := ⟨"Infinity".toList, "NaN".toList⟩

def unitEscape (n : Nat) : List Char := '\\' :: 'u' :: hexText 4 n

/-- The escape of a character, as one unit or as a pair of surrogates. -/
def charEscape (c : Char) : List Char :=
  if c.toNat < 0x10000 then unitEscape c.toNat
  else
    let n := c.toNat - 0x10000
    unitEscape (0xd800 + n / 0x400) ++ unitEscape (0xdc00 + n % 0x400)

def charText (ascii : Bool) (c : Char) : List Char :=
  if c = '"' ∨ c = '\\' then ['\\', c]
  else if c = '\n' then ['\\', 'n']
  else if c = '\r' then ['\\', 'r']
  else if c = '\t' then ['\\', 't']
  else if c = '\x0c' then ['\\', 'f']
  else if c = '\x08' then ['\\', 'b']
  else if c.toNat < 0x20 then charEscape c
  else if ascii ∧ 0x7f ≤ c.toNat then charEscape c
  else [c]

def stringText (ascii : Bool) (s : List Char) : List Char :=
  '"' :: s.flatMap (charText ascii) ++ ['"']

namespace Layout

def lineBreak (depth : Nat) (indent : List Char) : List Char :=
  '\n' :: (List.replicate depth indent).flatten

/-- Brackets around items that are already written. -/
def bracketed (l : Layout) (depth : Nat) (opening closing : Char) (items : List (List Char)) :
    List Char :=
  if items = [] then [opening, closing]
  else
    match l.indent with
    | none => opening :: l.itemSeparator.intercalate items ++ [closing]
    | some indent =>
      opening :: lineBreak (depth + 1) indent ++
        (l.itemSeparator ++ lineBreak (depth + 1) indent).intercalate items ++
        lineBreak depth indent ++ [closing]

def arrayText (l : Layout) (depth : Nat) (items : List (List Char)) : List Char :=
  l.bracketed depth '[' ']' items

/-- Whether a name is equal to another or stands before it, by code points. -/
def precedes : List Char → List Char → Bool
  | [], _ => true
  | _ :: _, [] => false
  | a :: as, b :: bs => if a = b then precedes as bs else a.toNat < b.toNat

def fieldOrder {α : Type} (l : Layout) (fields : List (List Char × α)) : List (List Char × α) :=
  if l.sortKeys then fields.mergeSort (fun a b => precedes a.1 b.1) else fields

def objectText (l : Layout) (depth : Nat) (fields : List (List Char × List Char)) : List Char :=
  l.bracketed depth '\x7b' '\x7d'
    (fields.map fun f => stringText l.ascii f.1 ++ l.keySeparator ++ f.2)

end Layout

end PartScan.Json
