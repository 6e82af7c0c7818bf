import PartScan.Proofs.Parenthesis.Depth

/-! # Partners of parentheses

An opening parenthesis is closed by the first later offset up to which equally many are opened and
closed, and its level counts the closed ones around it. The nested search finds the partner, and
pairs of partners lie inside one another or apart.
-/

namespace PartScan

/-- From `o` up to and including the later offset `j`, equally many parentheses are opened and
closed. -/
def Balances (e : List Char) (o j : Nat) : Prop :=
  o < j ∧ (e.extract o (j + 1)).count '(' = (e.extract o (j + 1)).count ')'

instance (e : List Char) (o j : Nat) : Decidable (Balances e o j) :=
  inferInstanceAs (Decidable (_ ∧ _))

/-- The partner of an opening parenthesis, if it is closed. -/
def partner? (e : List Char) (o : Nat) : Option Nat :=
  if e[o]? = some '(' then (List.range e.length).find? fun j => decide (Balances e o j) else none

/-- One more than the closed parentheses before `o` whose partners lie after it. -/
def nestingLevel (e : List Char) (o : Nat) : Nat :=
  1 + ((List.range o).filter fun i => (partner? e i).any fun j => decide (o < j)).length

/-- A parenthesis that is not closed or lies deeper than `m`. -/
def Misplaced (m : Nat) (e : List Char) (o : Nat) : Prop :=
  e[o]? = some '(' ∧ (partner? e o = none ∨ m < nestingLevel e o)

instance (m : Nat) (e : List Char) (o : Nat) : Decidable (Misplaced m e o) :=
  inferInstanceAs (Decidable (_ ∧ (_ ∨ _)))

variable {e : List Char} {o n p k : Nat}

open Pairing

theorem partner?_eq_some_iff : partner? e o = some p ↔
    e[o]? = some '(' ∧ p < e.length ∧ Balances e o p ∧ ∀ j < p, ¬ Balances e o j := by
  unfold partner?
  split
  · rename_i h
    simp [h]
    tauto
  · rename_i h
    simp [h]

theorem partner?_eq_none (h : e[o]? ≠ some '(') : partner? e o = none := if_neg h

theorem opens_of_partner? (h : partner? e o = some p) : e[o]? = some '(' :=
  (partner?_eq_some_iff.1 h).1

theorem lt_of_partner? (h : partner? e o = some p) : o < p :=
  (partner?_eq_some_iff.1 h).2.2.1.1

theorem drop_eq_cons_of_getElem {c : Char} (h : e[o]? = some c) :
    e.drop o = c :: e.drop (o + 1) := by
  obtain ⟨hlt, rfl⟩ := List.getElem?_eq_some_iff.1 h
  exact List.drop_eq_getElem_cons hlt

/-- Behind an opening parenthesis, the counts agree where the depth has fallen by one. -/
theorem balances_iff (h : e[o]? = some '(') (k : Nat) :
    Balances e o (o + 1 + k) ↔ 1 + depth ((e.drop (o + 1)).take (k + 1)) = 0 := by
  have hx : e.extract o (o + 1 + k + 1) = '(' :: (e.drop (o + 1)).take (k + 1) := by
    rw [List.extract_eq_take_drop, drop_eq_cons_of_getElem h,
      show o + 1 + k + 1 - o = k + 1 + 1 by omega, List.take_succ_cons]
  simp only [Balances, hx, depth, List.count_cons_self]
  rw [List.count_cons_of_ne (by decide)]
  omega

theorem partner?_eq_nestedClosing (h : e[o]? = some '(') :
    partner? e o = some (o + 1 + k) ↔ nestedClosing 1 (e.drop (o + 1)) = some k := by
  rw [partner?_eq_some_iff, nestedClosing_eq_some_iff (by decide), balances_iff h]
  constructor
  · rintro ⟨-, hlt, hb, hleast⟩
    refine ⟨by rw [List.length_drop]; omega, hb, fun j hj => ?_⟩
    rw [Ne, ← balances_iff h]
    exact hleast _ (by omega)
  · rintro ⟨hlt, hb, hleast⟩
    refine ⟨h, by rw [List.length_drop] at hlt; omega, hb, fun j hj hbal => ?_⟩
    obtain ⟨i, rfl⟩ := Nat.exists_eq_add_of_lt hbal.1
    rw [show o + i + 1 = o + 1 + i by omega] at hbal hj
    exact hleast i (by omega) ((balances_iff h i).1 hbal)

/-- The nested search from a parenthesis finds its partner. -/
theorem closing_drop_eq_some_iff (h : e[o]? = some '(') :
    Pairing.nested.closing (e.drop o) = some k ↔ partner? e o = some (o + k) := by
  rw [closing, drop_eq_cons_of_getElem h, nestedClosing_open, Int.zero_add,
    Option.map_eq_some_iff]
  constructor
  · rintro ⟨j, hj, rfl⟩
    rw [← Nat.add_assoc, Nat.add_right_comm, partner?_eq_nestedClosing h]
    exact hj
  · intro hp
    have := lt_of_partner? hp
    obtain ⟨j, rfl⟩ : ∃ j, k = j + 1 := ⟨k - 1, by omega⟩
    rw [← Nat.add_assoc, Nat.add_right_comm, partner?_eq_nestedClosing h] at hp
    exact ⟨j, hp, rfl⟩

/-- On the way to the end of a search the depth stays positive, and the search goes on from it. -/
theorem nestedClosing_drop {d : Int} (hd : 0 < d) {cs : List Char} (h : nestedClosing d cs = some k)
    {j : Nat} (hj : j ≤ k) : 0 < d + depth (cs.take j) ∧
      nestedClosing (d + depth (cs.take j)) (cs.drop j) = some (k - j) := by
  induction j generalizing d cs k with
  | zero => simpa using ⟨hd, h⟩
  | succ j ih =>
    cases cs with
    | nil => simp at h
    | cons c cs =>
      rw [nestedClosing_cons] at h
      split at h
      · cases h
        omega
      · rename_i hc
        obtain ⟨i, hi, rfl⟩ := Option.map_eq_some_iff.1 h
        have := ih (add_depth_pos hd hc) hi (Nat.le_of_succ_le_succ hj)
        rw [List.take_succ_cons, depth_cons, ← Int.add_assoc, List.drop_succ_cons,
          Nat.add_sub_add_right]
        exact this

/-- A parenthesis between partners has its own partner between them. -/
theorem partner?_inside (h : partner? e o = some p) (ho : o < n) (hn : n < p)
    (hopen : e[n]? = some '(') : ∃ j, partner? e n = some j ∧ j < p := by
  obtain ⟨k, rfl⟩ := Nat.exists_eq_add_of_lt (lt_of_partner? h)
  obtain ⟨i, rfl⟩ := Nat.exists_eq_add_of_lt ho
  rw [Nat.add_right_comm, partner?_eq_nestedClosing (opens_of_partner? h)] at h
  obtain ⟨hpos, hrest⟩ := nestedClosing_drop (by decide) h (j := i) (by omega)
  -- behind the inner parenthesis the depth is at least two, so it falls by one first
  rw [List.drop_drop, Nat.add_right_comm, drop_eq_cons_of_getElem hopen, nestedClosing_open,
    Option.map_eq_some_iff] at hrest
  obtain ⟨r, hr, hrk⟩ := hrest
  rw [Int.add_comm _ 1, nestedClosing_add (by decide) hpos] at hr
  obtain ⟨j, j', hj, -, rfl⟩ := hr
  exact ⟨o + i + 1 + 1 + j, (partner?_eq_nestedClosing hopen).2 hj, by omega⟩

end PartScan
