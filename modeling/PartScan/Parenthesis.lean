/-! # Closing parentheses

The two ways to pair an opening parenthesis: with the closing one that brings the depth back to
zero, or with the first closing one after it.
-/

namespace PartScan

/-- How an opening parenthesis finds its partner. -/
inductive Pairing where
  | nested
  | first
  deriving DecidableEq, Repr, Inhabited

namespace Pairing

/-- Where the depth, now `depth`, first comes back to zero at a closing parenthesis. -/
def nestedClosing (depth : Int) : List Char → Option Nat
  | [] => none
  | c :: rest =>
    if c = '(' then (nestedClosing (depth + 1) rest).map (· + 1)
    else if c = ')' then
      if depth - 1 = 0 then some 0 else (nestedClosing (depth - 1) rest).map (· + 1)
    else (nestedClosing depth rest).map (· + 1)

/-- Where the first closing parenthesis stands. -/
def firstClosing : List Char → Option Nat
  | [] => none
  | c :: rest => if c = ')' then some 0 else (firstClosing rest).map (· + 1)

/-- Where the partner of the parenthesis at the front of a text stands. -/
def closing : Pairing → List Char → Option Nat
  | .nested, cs => nestedClosing 0 cs
  | .first, cs => firstClosing cs

theorem closing_pos {p : Pairing} {rest : List Char} {k : Nat}
    (h : p.closing ('(' :: rest) = some k) : 0 < k := by
  cases p <;> simp only [closing, nestedClosing, firstClosing] at h
  · obtain ⟨j, -, rfl⟩ := Option.map_eq_some_iff.1 h
    omega
  · obtain ⟨j, -, rfl⟩ := Option.map_eq_some_iff.1 h
    omega

theorem nestedClosing_lt {d : Int} {cs : List Char} {k : Nat}
    (h : nestedClosing d cs = some k) : k < cs.length := by
  induction cs generalizing d k with
  | nil => simp [nestedClosing] at h
  | cons c rest ih =>
    simp only [nestedClosing] at h
    split at h
    · obtain ⟨j, hj, rfl⟩ := Option.map_eq_some_iff.1 h
      exact Nat.succ_lt_succ (ih hj)
    · split at h
      · split at h
        · obtain rfl := Option.some.inj h
          exact Nat.succ_pos _
        · obtain ⟨j, hj, rfl⟩ := Option.map_eq_some_iff.1 h
          exact Nat.succ_lt_succ (ih hj)
      · obtain ⟨j, hj, rfl⟩ := Option.map_eq_some_iff.1 h
        exact Nat.succ_lt_succ (ih hj)

theorem firstClosing_lt {cs : List Char} {k : Nat} (h : firstClosing cs = some k) :
    k < cs.length := by
  induction cs generalizing k with
  | nil => simp [firstClosing] at h
  | cons c rest ih =>
    simp only [firstClosing] at h
    split at h
    · obtain rfl := Option.some.inj h
      exact Nat.succ_pos _
    · obtain ⟨j, hj, rfl⟩ := Option.map_eq_some_iff.1 h
      exact Nat.succ_lt_succ (ih hj)

theorem closing_lt {p : Pairing} {cs : List Char} {k : Nat} (h : p.closing cs = some k) :
    k < cs.length := by
  cases p
  · exact nestedClosing_lt h
  · exact firstClosing_lt h

end Pairing

/-- Where the search starts: positions below zero count from the end of the text, and the nested
search then goes on at its front. `none` stands for a position before the text. -/
def searchText (text : List Char) (start : Int) : Option (List Char) :=
  if 0 ≤ start then some (text.drop start.toNat)
  else if start.natAbs ≤ text.length then some (text.drop (text.length - start.natAbs) ++ text)
  else none

/-- The position of the parenthesis that closes the one at `start`, or -1. The search by depth
fails (`none`) where `start` lies before the text; the search for the first one starts at the
text's front then. -/
def findClosing (p : Pairing) (text : List Char) (start : Int) : Option Int :=
  match p with
  | .nested =>
    (searchText text start).map fun cs =>
      match p.closing cs with
      | some k => start + k
      | none => -1
  | .first =>
    let start := if start < 0 then max (start + text.length) 0 else start
    match p.closing (text.drop start.toNat) with
    | some k => some (start + k)
    | none => some (-1)

end PartScan
