import Mathlib.Order.Bounds.Basic
import Mathlib.Order.Nat
import PartScan.Proofs.Parenthesis.Mate

/-! # The search for a closing parenthesis

A search that starts anywhere in a text stops at the first closing parenthesis up to which equally
many are opened and closed, or at the very first one, as the pairing says. It fails only where there
is none.
-/

namespace PartScan

/-- The closing parenthesis at `j` may end a search from `o`. Under the nested pairing, equally many
are opened and closed from `o` up to and including `j`. -/
def Closes (p : Pairing) (text : List Char) (o j : Nat) : Prop :=
  o ≤ j ∧ text[j]? = some ')' ∧
    (p = .nested → (text.extract o (j + 1)).count '(' = (text.extract o (j + 1)).count ')')

instance (p : Pairing) (text : List Char) (o j : Nat) : Decidable (Closes p text o j) :=
  inferInstanceAs (Decidable (_ ∧ _ ∧ (_ → _)))

variable {p : Pairing} {text cs : List Char} {c : Char} {d : Int} {o f i j k : Nat}

namespace Pairing

/-- A closing parenthesis at which the depth, in front `d`, has come to zero. -/
def Level (d : Int) (cs : List Char) (k : Nat) : Prop :=
  cs[k]? = some ')' ∧ d + depth (cs.take (k + 1)) = 0

theorem level_zero_iff : Level d (c :: cs) 0 ↔ c = ')' ∧ d = 1 := by
  rw [Level, List.getElem?_cons_zero, Option.some.injEq, List.take_succ_cons, List.take_zero]
  refine and_congr_right fun hc => ?_
  rw [hc, depth_close, depth_nil]
  omega

theorem level_succ_iff : Level d (c :: cs) (k + 1) ↔ Level (d + depth [c]) cs k := by
  rw [Level, Level, List.getElem?_cons_succ, List.take_succ_cons, depth_cons, Int.add_assoc]

/-- From any depth, the nested search finds the first closing parenthesis at which the depth has
come to zero. -/
theorem nestedClosing_least :
    nestedClosing d cs = some k ↔ Level d cs k ∧ ∀ j < k, ¬ Level d cs j := by
  induction cs generalizing d k with
  | nil => simp [Level]
  | cons c cs ih =>
    rw [nestedClosing_cons]
    split
    · rename_i h
      constructor
      · intro hk
        cases hk
        exact ⟨level_zero_iff.2 h, nofun⟩
      · rintro ⟨-, hleast⟩
        cases k with
        | zero => rfl
        | succ k => exact absurd (level_zero_iff.2 h) (hleast 0 (Nat.succ_pos k))
    · rename_i h
      rw [Option.map_eq_some_iff]
      cases k with
      | zero => simp [level_zero_iff, h]
      | succ k =>
        simp only [Nat.add_right_cancel_iff, exists_eq_right, ih, level_succ_iff,
          Nat.forall_lt_succ_left', level_zero_iff, h, not_false_eq_true, true_and]

end Pairing

theorem isLeast_iff {P : Nat → Prop} : IsLeast {j | P j} k ↔ P k ∧ ∀ j < k, ¬ P j :=
  and_congr_right fun _ =>
    ⟨fun h _ hj hP => Nat.not_le.2 hj (h hP), fun h j hP => Nat.not_lt.1 fun hj => h j hj hP⟩

theorem closes_zero_iff : Closes p cs 0 k ↔
    cs[k]? = some ')' ∧ (p = .nested → depth (cs.take (k + 1)) = 0) := by
  rw [Closes, and_iff_right (Nat.zero_le k), List.extract_eq_take_drop, List.drop_zero,
    Nat.sub_zero, depth]
  refine and_congr_right fun _ => imp_congr_right fun _ => ?_
  omega

/-- A search in a text from `o` on is one in what stands there. -/
theorem closes_drop_iff : Closes p (text.drop o) 0 k ↔ Closes p text o (o + k) := by
  simp only [Closes, Nat.zero_le, Nat.le_add_right, true_and, List.getElem?_drop,
    List.extract_eq_take_drop, List.drop_zero, Nat.sub_zero, Nat.add_assoc, Nat.add_sub_cancel_left]

theorem closing_isLeast : p.closing cs = some k ↔ IsLeast {j | Closes p cs 0 j} k := by
  rw [isLeast_iff]
  simp only [closes_zero_iff]
  cases p with
  | nested => simpa [Pairing.closing, Pairing.Level] using Pairing.nestedClosing_least (d := 0)
  | first => simp [Pairing.closing, Pairing.firstClosing_eq_some_iff]

theorem closing_drop_isLeast :
    p.closing (text.drop o) = some k ↔ IsLeast {j | Closes p text o j} (o + k) := by
  rw [closing_isLeast, isLeast_iff, isLeast_iff, closes_drop_iff]
  refine and_congr_right fun _ => ⟨fun h j hj hclose => ?_, fun h j hj hclose => ?_⟩
  · obtain ⟨i, rfl⟩ := Nat.exists_eq_add_of_le hclose.1
    exact h i (Nat.lt_of_add_lt_add_left hj) (closes_drop_iff.2 hclose)
  · exact h (o + j) (Nat.add_lt_add_left hj o) (closes_drop_iff.1 hclose)

theorem closing_drop_eq_none_iff :
    p.closing (text.drop o) = none ↔ ∀ j, ¬ Closes p text o j := by
  constructor
  · intro hnone j hj
    have hleast := Nat.isLeast_find ⟨j, hj⟩
    obtain ⟨k, hk⟩ := Nat.exists_eq_add_of_le hleast.1.1
    rw [hk, ← closing_drop_isLeast, hnone] at hleast
    cases hleast
  · intro hall
    cases h : p.closing (text.drop o) with
    | none => rfl
    | some k => exact absurd (closing_drop_isLeast.1 h).1 (hall _)

theorem findClosing_natCast (p : Pairing) (text : List Char) (o : Nat) :
    findClosing p text o =
      some ((p.closing (text.drop o)).elim (-1) fun k => ((o + k : Nat) : Int)) := by
  have hsign : ¬ (o : Int) < 0 := by omega
  cases p with
  | nested =>
    simp only [findClosing, searchText, if_pos (Int.natCast_nonneg o), Int.toNat_natCast,
      Option.map_some]
    cases Pairing.nested.closing (text.drop o) <;> rfl
  | first =>
    simp only [findClosing, if_neg hsign, Int.toNat_natCast]
    cases Pairing.first.closing (text.drop o) <;> rfl

theorem findClosing_eq_some_iff :
    findClosing p text o = some (j : Int) ↔ IsLeast {j | Closes p text o j} j := by
  rw [findClosing_natCast, Option.some.injEq]
  cases h : p.closing (text.drop o) with
  | none => exact iff_of_false nofun fun hleast => closing_drop_eq_none_iff.1 h j hleast.1
  | some k =>
    rw [IsLeast.isLeast_iff_eq (closing_drop_isLeast.1 h), Option.elim_some, Int.natCast_inj]

theorem findClosing_eq_neg_one_iff :
    findClosing p text o = some (-1) ↔ ∀ j, ¬ Closes p text o j := by
  rw [findClosing_natCast, Option.some.injEq, ← closing_drop_eq_none_iff]
  cases p.closing (text.drop o) with
  | none => exact iff_of_true rfl rfl
  | some k => exact iff_of_false nofun (Option.some_ne_none k)

/-! ## The two pairings -/

theorem mem_take_drop_iff :
    c ∈ (text.drop o).take k ↔ ∃ i, o ≤ i ∧ i < o + k ∧ text[i]? = some c := by
  simp only [List.mem_iff_getElem?, List.getElem?_take, List.getElem?_drop,
    Option.ite_none_right_eq_some]
  constructor
  · rintro ⟨i, hi, hget⟩
    exact ⟨o + i, Nat.le_add_right o i, Nat.add_lt_add_left hi o, hget⟩
  · rintro ⟨i, hoi, hi, hget⟩
    obtain ⟨j, rfl⟩ := Nat.exists_eq_add_of_le hoi
    exact ⟨j, Nat.lt_of_add_lt_add_left hi, hget⟩

theorem Closes.first (h : Closes p text o j) : Closes .first text o j :=
  ⟨h.1, h.2.1, nofun⟩

/-- A search from an opening parenthesis ends behind it. -/
theorem Closes.lt (h : Closes p text o j) (hopen : text[o]? = some '(') : o < j := by
  refine Nat.lt_of_le_of_ne h.1 fun heq => ?_
  have hclose := h.2.1
  rw [← heq, hopen] at hclose
  exact absurd hclose (by decide)

theorem extract_group (hopen : text[o]? = some '(') (hclose : text[o + 1 + k]? = some ')') :
    text.extract o (o + 1 + k + 1) = '(' :: ((text.drop (o + 1)).take k ++ [')']) := by
  rw [List.extract_eq_take_drop, drop_eq_cons_of_getElem hopen,
    show o + 1 + k + 1 - o = k + 1 + 1 by omega, List.take_succ_cons, List.take_add_one,
    List.getElem?_drop, hclose]
  rfl

/-- The first closing parenthesis closes the group if and only if nothing opens in between. -/
theorem closes_nested_iff (hopen : text[o]? = some '(')
    (h : IsLeast {j | Closes .first text o j} f) :
    Closes .nested text o f ↔ ∀ i, o < i → i < f → text[i]? ≠ some '(' := by
  have hclose : Closes .first text o f := h.1
  obtain ⟨k, rfl⟩ : ∃ k, f = o + 1 + k := Nat.exists_eq_add_of_le (hclose.lt hopen)
  have hnone : ((text.drop (o + 1)).take k).count ')' = 0 := by
    rw [List.count_eq_zero, mem_take_drop_iff]
    rintro ⟨i, hoi, hif, hi⟩
    exact Nat.not_le.2 hif (h.2 ⟨Nat.le_of_succ_le hoi, hi, nofun⟩)
  have hinner : ((text.drop (o + 1)).take k).count '(' = 0 ↔
      ∀ i, o < i → i < o + 1 + k → text[i]? ≠ some '(' := by
    rw [List.count_eq_zero, mem_take_drop_iff]
    simp only [not_exists, not_and]
    rfl
  rw [Closes, and_iff_right hclose.1, and_iff_right hclose.2.1, extract_group hopen hclose.2.1,
    imp_iff_right rfl, List.count_cons_self, List.count_cons_of_ne (by decide), List.count_append,
    List.count_append, hnone, ← hinner]
  simp

/-- A search from any offset ends at the first place that may end it, and fails if there is none.
From an opening parenthesis, the search for the first closing one ends no later than the one by
depth, and at the same place if and only if nothing opens in between. -/
theorem findClosing_least (text : List Char) (o : Nat) :
    (∀ p, (∀ j : Nat, findClosing p text o = some (j : Int) ↔ IsLeast {j | Closes p text o j} j) ∧
        (findClosing p text o = some (-1) ↔ ∀ j, ¬ Closes p text o j)) ∧
      (text[o]? = some '(' →
        (∀ j : Nat, findClosing .nested text o = some (j : Int) →
          ∃ f : Nat, findClosing .first text o = some (f : Int) ∧ o < f ∧ f ≤ j ∧
            (f = j ↔ ∀ i, o < i → i < f → text[i]? ≠ some '(')) ∧
        (findClosing .first text o = some (-1) → findClosing .nested text o = some (-1))) := by
  refine ⟨fun p => ⟨fun j => findClosing_eq_some_iff, findClosing_eq_neg_one_iff⟩, fun hopen =>
    ⟨fun j hj => ?_, ?_⟩⟩
  · have hnested := findClosing_eq_some_iff.1 hj
    obtain ⟨f, hfirst⟩ : ∃ f, IsLeast {j | Closes .first text o j} f :=
      ⟨_, Nat.isLeast_find ⟨j, hnested.1.first⟩⟩
    have hle : f ≤ j := hfirst.2 hnested.1.first
    refine ⟨f, findClosing_eq_some_iff.2 hfirst, hfirst.1.lt hopen, hle, ?_⟩
    rw [← closes_nested_iff hopen hfirst]
    constructor
    · rintro rfl
      exact hnested.1
    · intro hclose
      exact Nat.le_antisymm hle (hnested.2 hclose)
  · rw [findClosing_eq_neg_one_iff, findClosing_eq_neg_one_iff]
    exact fun hnone j hj => hnone j hj.first

theorem findClosing_least_inner :
    (['(', '(', ')', ')'] : List Char)[0]? = some '(' ∧
      findClosing .nested ['(', '(', ')', ')'] 0 = some 3 ∧
      IsLeast {j | Closes .nested ['(', '(', ')', ')'] 0 j} 3 ∧
      (∃ f : Nat, findClosing .first ['(', '(', ')', ')'] 0 = some (f : Int) ∧ f < 3) ∧
      findClosing .nested [')', '('] 1 = some (-1) := by
  obtain ⟨hleast, hmodes⟩ := findClosing_least ['(', '(', ')', ')'] 0
  have hnested : findClosing .nested ['(', '(', ')', ')'] 0 = some 3 := by decide
  obtain ⟨f, hf, -, hle, heq⟩ := (hmodes rfl).1 3 hnested
  refine ⟨rfl, hnested, ((hleast .nested).1 3).1 hnested, ⟨f, hf, ?_⟩, ?_⟩
  · refine Nat.lt_of_le_of_ne hle fun hthree => ?_
    exact heq.1 hthree 1 (by decide) (by omega) rfl
  · exact ((findClosing_least [')', '('] 1).2 rfl).2 (by decide)

end PartScan
