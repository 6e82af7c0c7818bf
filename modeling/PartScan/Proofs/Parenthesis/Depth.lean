import Mathlib.Data.List.Basic
import PartScan.Parenthesis

/-! # Depth of a text

The depth of a text is the surplus of its opening parentheses. The nested search finds the first
place where the depth returns to zero, and a search from a greater depth is one search after
another.
-/

namespace PartScan

/-- The surplus of opening parentheses. -/
def depth (cs : List Char) : Int := (cs.count '(' : Int) - cs.count ')'

@[simp] theorem depth_nil : depth [] = 0 := rfl

@[simp] theorem depth_open (cs : List Char) : depth ('(' :: cs) = depth cs + 1 := by
  simp [depth]; omega

@[simp] theorem depth_close (cs : List Char) : depth (')' :: cs) = depth cs - 1 := by
  simp [depth]; omega

theorem depth_other {c : Char} (ho : c ≠ '(') (hc : c ≠ ')') (cs : List Char) :
    depth (c :: cs) = depth cs := by
  simp [depth, ho, hc]

namespace Pairing

@[simp] theorem nestedClosing_nil (d : Int) : nestedClosing d [] = none := rfl

@[simp] theorem nestedClosing_open (d : Int) (cs : List Char) :
    nestedClosing d ('(' :: cs) = (nestedClosing (d + 1) cs).map (· + 1) := rfl

theorem nestedClosing_close (d : Int) (cs : List Char) :
    nestedClosing d (')' :: cs) =
      if d = 1 then some 0 else (nestedClosing (d - 1) cs).map (· + 1) := by
  have h : d - 1 = 0 ↔ d = 1 := by omega
  simp [nestedClosing, h]

theorem nestedClosing_other {c : Char} (ho : c ≠ '(') (hc : c ≠ ')') (d : Int) (cs : List Char) :
    nestedClosing d (c :: cs) = (nestedClosing d cs).map (· + 1) := by
  simp [nestedClosing, ho, hc]

/-- One step of the search, whatever the character. -/
theorem nestedClosing_cons (d : Int) (c : Char) (cs : List Char) :
    nestedClosing d (c :: cs) =
      if c = ')' ∧ d = 1 then some 0 else (nestedClosing (d + depth [c]) cs).map (· + 1) := by
  rcases eq_or_ne c '(' with rfl | ho
  · simp
  · rcases eq_or_ne c ')' with rfl | hc
    · simp [nestedClosing_close, Int.sub_eq_add_neg]
    · simp [nestedClosing_other ho hc, depth_other ho hc, hc]

theorem depth_cons (c : Char) (cs : List Char) : depth (c :: cs) = depth [c] + depth cs := by
  simp only [depth, List.count_cons, List.count_nil]
  omega

theorem nestedClosing_getElem {d : Int} {cs : List Char} {k : Nat}
    (h : nestedClosing d cs = some k) : cs[k]? = some ')' := by
  induction cs generalizing d k with
  | nil => simp at h
  | cons c cs ih =>
    rw [nestedClosing_cons] at h
    split at h
    · rename_i hc
      cases h
      simp [hc.1]
    · obtain ⟨j, hj, rfl⟩ := Option.map_eq_some_iff.1 h
      simpa using ih hj

theorem firstClosing_getElem {cs : List Char} {k : Nat} (h : firstClosing cs = some k) :
    cs[k]? = some ')' := by
  induction cs generalizing k with
  | nil => simp [firstClosing] at h
  | cons c cs ih =>
    simp only [firstClosing] at h
    split at h
    · rename_i hc
      cases h
      simp [hc]
    · obtain ⟨j, hj, rfl⟩ := Option.map_eq_some_iff.1 h
      simpa using ih hj

theorem closing_getElem {p : Pairing} {cs : List Char} {k : Nat} (h : p.closing cs = some k) :
    cs[k]? = some ')' := by
  cases p
  · exact nestedClosing_getElem h
  · exact firstClosing_getElem h

/-- A positive depth stays positive unless the last parenthesis is closed. -/
theorem add_depth_pos {d : Int} {c : Char} (hd : 0 < d) (h : ¬ (c = ')' ∧ d = 1)) :
    0 < d + depth [c] := by
  rcases eq_or_ne c '(' with rfl | ho
  · simp only [depth_open, depth_nil]
    omega
  · rcases eq_or_ne c ')' with rfl | hc
    · have : d ≠ 1 := fun hd => h ⟨rfl, hd⟩
      simp only [depth_close, depth_nil]
      omega
    · simpa [depth_other ho hc] using hd

/-- From a positive depth, the search finds the first place where the depth has come to zero. -/
theorem nestedClosing_eq_some_iff {d : Int} (hd : 0 < d) {cs : List Char} {k : Nat} :
    nestedClosing d cs = some k ↔ k < cs.length ∧ d + depth (cs.take (k + 1)) = 0 ∧
      ∀ j < k, d + depth (cs.take (j + 1)) ≠ 0 := by
  induction cs generalizing d k with
  | nil => simp
  | cons c cs ih =>
    have hstep (j : Nat) : d + depth ((c :: cs).take (j + 1)) =
        d + depth [c] + depth (cs.take j) := by
      rw [List.take_succ_cons, depth_cons]
      omega
    rw [nestedClosing_cons]
    split
    · rename_i hc
      obtain ⟨rfl, rfl⟩ := hc
      constructor
      · intro h
        cases h
        simp
      · rintro ⟨-, -, hk⟩
        rcases Nat.eq_zero_or_pos k with rfl | hpos
        · rfl
        · exact absurd (by simp) (hk 0 hpos)
    · rename_i hc
      have hd' : 0 < d + depth [c] := add_depth_pos hd hc
      cases k with
      | zero =>
        have : d + depth [c] ≠ 0 := by omega
        simp [this]
      | succ k =>
        simp only [Option.map_eq_some_iff, Nat.add_right_cancel_iff, exists_eq_right, ih hd',
          List.length_cons, Nat.add_lt_add_iff_right, hstep]
        refine and_congr_right fun _ => and_congr_right fun _ => ⟨fun h j hj => ?_, fun h j hj => ?_⟩
        · cases j with
          | zero => simpa using Int.ne_of_gt hd'
          | succ j => exact h j (by omega)
        · exact h (j + 1) (by omega)

/-- The search in a slice finds what the search in the whole text finds inside the slice. -/
theorem nestedClosing_take {d : Int} {cs : List Char} {n k : Nat} :
    nestedClosing d (cs.take n) = some k ↔ nestedClosing d cs = some k ∧ k < n := by
  induction cs generalizing d n k with
  | nil => simp
  | cons c cs ih =>
    cases n with
    | zero => simp
    | succ n =>
      rw [List.take_succ_cons, nestedClosing_cons, nestedClosing_cons]
      split
      · constructor
        · intro h
          cases h
          exact ⟨rfl, Nat.succ_pos n⟩
        · exact fun h => h.1
      · cases k with
        | zero => simp
        | succ k => simp [ih]

/-- To fall by `a + b` is to fall by `a` first and then by `b`. -/
theorem nestedClosing_add {a b : Int} (ha : 0 < a) (hb : 0 < b) {cs : List Char} {k : Nat} :
    nestedClosing (a + b) cs = some k ↔
      ∃ i j, nestedClosing a cs = some i ∧ nestedClosing b (cs.drop (i + 1)) = some j ∧
        k = i + 1 + j := by
  induction cs generalizing a k with
  | nil => simp
  | cons c cs ih =>
    rw [nestedClosing_cons, nestedClosing_cons, if_neg (by omega)]
    by_cases hc : c = ')' ∧ a = 1
    · obtain ⟨rfl, rfl⟩ := hc
      have h1 : 1 + b + depth [')'] = b := by
        rw [depth_close, depth_nil]
        omega
      rw [h1, Option.map_eq_some_iff]
      constructor
      · rintro ⟨j, hj, rfl⟩
        exact ⟨0, j, by simp, by simpa using hj, by omega⟩
      · rintro ⟨i, j, hi, hj, rfl⟩
        obtain rfl : i = 0 := by simpa using hi.symm
        exact ⟨j, by simpa using hj, by omega⟩
    · have ha' : 0 < a + depth [c] := add_depth_pos ha hc
      have h1 : a + b + depth [c] = a + depth [c] + b := by omega
      rw [if_neg hc, h1]
      simp only [Option.map_eq_some_iff, ih ha']
      constructor
      · rintro ⟨_, ⟨i, j, hi, hj, rfl⟩, rfl⟩
        exact ⟨i + 1, j, ⟨i, hi, rfl⟩, by simpa using hj, by omega⟩
      · rintro ⟨_, j, ⟨i, hi, rfl⟩, hj, rfl⟩
        exact ⟨i + 1 + j, ⟨i, j, hi, by simpa using hj, rfl⟩, by omega⟩

end Pairing

end PartScan
