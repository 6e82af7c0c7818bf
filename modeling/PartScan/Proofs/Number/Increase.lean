import Mathlib.Algebra.Order.Field.Basic
import Mathlib.Algebra.Order.Field.Power
import Mathlib.Data.Rat.Cast.Order
import Mathlib.Tactic.Linarith
import Mathlib.Tactic.NormNum
import Mathlib.Tactic.Ring
import PartScan.Proofs.Number.Percent

/-! # Percentages increase

A percentage of a natural below the bound of the precision differs from the exact share by at most
half a unit of its last place, and that place is the twenty-sixth behind the point or a later one.
Two shares of one whole are further apart, so a larger part has a larger percentage.
-/

namespace PartScan.Number

namespace Decimal

/-- Both decimals are finite, and the value of the first is less than that of the second. -/
def Below (a b : Decimal) : Prop := ∃ x y, a.value? = some x ∧ b.value? = some y ∧ x < y

end Decimal

variable {c n i j m : Nat}

theorem ten_ne_zero : (10 : ℚ) ≠ 0 := by norm_num

theorem pow10_cast (n : Nat) : ((pow10 n : Nat) : ℚ) = 10 ^ n := by
  rw [show pow10 n = 10 ^ n from rfl, Nat.cast_pow, Nat.cast_ofNat]

/-- A finite decimal without a sign stands for its coefficient times its power of ten. -/
theorem value?_finite (q : Nat) (e : Int) :
    (Decimal.finite false q e).value? = some ((q : ℚ) * (10 : ℚ) ^ e) := by
  rw [Decimal.value?, Rat.mkRat_eq_div]
  rcases Int.le_total 0 e with he | he
  · obtain ⟨k, rfl⟩ := Int.eq_ofNat_of_zero_le he
    have hdown : (-(k : Int)).toNat = 0 := by omega
    rw [hdown, Int.toNat_natCast]
    simp [pow10_cast]
  · obtain ⟨k, hk⟩ := Int.eq_ofNat_of_zero_le (Int.neg_nonneg_of_nonpos he)
    obtain rfl : e = -(k : Int) := by omega
    have hup : (-(k : Int)).toNat = 0 := by omega
    rw [hup, Int.neg_neg, Int.toNat_natCast]
    simp [pow10_cast, div_eq_mul_inv]

/-- Rounding a quotient moves it by half a unit at most. -/
theorem roundDiv_near (m : Nat) (hn : 0 < n) : 2 * |(roundDiv m n : ℚ) - m / n| ≤ 1 := by
  have hdiv : m / n * n + m % n = m := Nat.div_add_mod' m n
  have hmod : m % n < n := Nat.mod_lt m hn
  have hsucc : (m / n + 1) * n = m / n * n + n := Nat.succ_mul _ _
  have hnear : 2 * m ≤ 2 * (roundDiv m n * n) + n ∧ 2 * (roundDiv m n * n) ≤ 2 * m + n := by
    unfold roundDiv
    split
    · omega
    · split
      · omega
      · rcases Nat.mod_two_eq_zero_or_one (m / n) with h | h
        · rw [h, Nat.add_zero]
          omega
        · rw [h]
          omega
  have hn' : (0 : ℚ) < n := Nat.cast_pos.2 hn
  have hlow : (2 * m : ℚ) ≤ 2 * (roundDiv m n * n) + n := by exact_mod_cast hnear.1
  have hhigh : (2 * (roundDiv m n * n) : ℚ) ≤ 2 * m + n := by exact_mod_cast hnear.2
  have hm : (m : ℚ) / n * n = m := div_mul_cancel₀ _ hn'.ne'
  generalize (m : ℚ) / n = x at hm ⊢
  rw [← hm] at hlow hhigh
  have h2 : |(roundDiv m n : ℚ) - x| ≤ 1 / 2 := by
    rw [abs_le]
    constructor <;> nlinarith
  linarith

theorem pow10_digitCount_le (hm : 0 < m) : pow10 (digitCount m - 1) ≤ m := by
  by_contra hlt
  rcases Nat.eq_zero_or_pos (digitCount m - 1) with h0 | hpos
  · rw [h0] at hlt
    exact hlt hm
  · have := (digitCount_le_iff hpos).2 (Nat.lt_of_not_le hlt)
    omega

theorem lt_pow10_digitCount (m : Nat) : m < pow10 (digitCount m) :=
  (digitCount_le_iff Nat.length_toDigits_pos).1 (Nat.le_refl _)

/-- With its places, the coefficient is divided to the full number of digits. -/
theorem le_quotientPlaces (hc : 0 < c) :
    n * pow10 (precision - 1) ≤ c * pow10 (quotientPlaces c n) := by
  unfold quotientPlaces
  generalize hplaces : precision - 1 + digitCount n - digitCount c = places
  dsimp only
  split
  · assumption
  · have hcount : 0 < digitCount c := Nat.length_toDigits_pos
    have hlow := pow10_digitCount_le hc
    have hn : n ≤ pow10 (digitCount n) := Nat.le_of_lt (lt_pow10_digitCount n)
    calc n * pow10 (precision - 1)
        ≤ pow10 (digitCount n) * pow10 (precision - 1) := Nat.mul_le_mul_right _ hn
      _ = pow10 (digitCount n + (precision - 1)) := (pow10_add _ _).symm
      _ ≤ pow10 (digitCount c - 1 + (places + 1)) := Nat.pow_le_pow_right (by decide) (by omega)
      _ = pow10 (digitCount c - 1) * pow10 (places + 1) := pow10_add _ _
      _ ≤ c * pow10 (places + 1) := Nat.mul_le_mul_right _ hlow

theorem zpow_neg_mul_pow10 (k : Nat) : (10 : ℚ) ^ (-(k : Int)) * (pow10 k : Nat) = 1 := by
  rw [pow10_cast, zpow_neg, zpow_natCast]
  exact inv_mul_cancel₀ (pow_ne_zero k ten_ne_zero)

/-- A quotient stands for the rounded coefficient of all its digits, whether it keeps them or not. -/
theorem quotient_value {q : Nat} {places : Int} (hn : 0 < n) (hq : quotient c n = (q, places)) :
    (q : ℚ) * (10 : ℚ) ^ (-places) = (roundDiv (c * pow10 (quotientPlaces c n)) n : ℚ) *
      (10 : ℚ) ^ (-(quotientPlaces c n : Int)) := by
  rw [quotient] at hq
  generalize quotientPlaces c n = filled at hq ⊢
  split at hq
  · rename_i hexact
    obtain ⟨hle, hval⟩ := dropZeros_spec (c * pow10 filled / n) filled
    generalize dropZeros (c * pow10 filled / n) filled = d at hq hle hval
    obtain ⟨q, left⟩ := d
    cases hq
    have hfilled : (10 : ℚ) ^ (-(left : Int)) =
        (pow10 (filled - left) : Nat) * (10 : ℚ) ^ (-(filled : Int)) := by
      rw [pow10_cast, ← zpow_natCast, ← zpow_add₀ ten_ne_zero]
      congr 1
      omega
    rw [roundDiv_of_dvd hn hexact, ← hval, Nat.cast_mul, mul_assoc, ← hfilled]
  · generalize roundDiv (c * pow10 filled) n = rounded at hq ⊢
    dsimp only at hq
    split at hq
    · rename_i hcarry
      cases hq
      -- the carry moves one power of ten from the coefficient to the exponent
      have hten : pow10 precision = 10 * pow10 (precision - 1) := rfl
      rw [hcarry, hten, neg_sub, sub_eq_add_neg, zpow_add₀ ten_ne_zero, zpow_one]
      push_cast
      ring
    · cases hq
      rfl

/-- A quotient differs from the exact one by half a unit of its last place at most. -/
theorem quotient_near {q : Nat} {places : Int} (hn : 0 < n) (hq : quotient c n = (q, places)) :
    2 * |(q : ℚ) * (10 : ℚ) ^ (-places) - c / n| ≤ (10 : ℚ) ^ (-(quotientPlaces c n : Int)) := by
  rw [quotient_value hn hq]
  generalize quotientPlaces c n = filled
  have hunit : (0 : ℚ) ≤ (10 : ℚ) ^ (-(filled : Int)) := zpow_nonneg (by norm_num) _
  have hexact : (c : ℚ) / n = (c * pow10 filled : Nat) / n * (10 : ℚ) ^ (-(filled : Int)) := by
    rw [Nat.cast_mul, div_mul_eq_mul_div, mul_assoc, mul_comm (_ : ℚ) (10 ^ _),
      zpow_neg_mul_pow10, mul_one]
  rw [hexact, ← sub_mul, abs_mul, abs_of_nonneg hunit, ← mul_assoc]
  exact mul_le_of_le_one_left hunit (roundDiv_near _ hn)

/-- A share below the whole has its last place behind the twenty-fifth one. -/
theorem lastPlace_le {lost : Nat} (hc : 0 < c) (hlt : i < n)
    (hshare : c * pow10 lost = 100 * i) :
    (10 : ℚ) ^ ((lost : Int) - quotientPlaces c n) ≤ (10 : ℚ) ^ (-26 : Int) := by
  have hfull := le_quotientPlaces (n := n) hc
  generalize quotientPlaces c n = filled at hfull ⊢
  have hbound : n * pow10 (precision - 1) * pow10 lost < 100 * n * pow10 filled :=
    calc n * pow10 (precision - 1) * pow10 lost
        ≤ c * pow10 filled * pow10 lost := Nat.mul_le_mul_right _ hfull
      _ = 100 * i * pow10 filled := by rw [Nat.mul_right_comm, hshare]
      _ < 100 * n * pow10 filled :=
          Nat.mul_lt_mul_of_pos_right (by omega) (pow10_pos filled)
  have hpow : pow10 (25 + lost) < pow10 filled := by
    apply Nat.lt_of_mul_lt_mul_left (a := 100 * n)
    calc 100 * n * pow10 (25 + lost) = n * pow10 (precision - 1) * pow10 lost := by
          rw [pow10_add, show pow10 (precision - 1) = 100 * pow10 25 from rfl]
          ring
      _ < 100 * n * pow10 filled := hbound
  have hlast : 25 + lost < filled := (Nat.pow_lt_pow_iff_right (by decide)).1 hpow
  exact zpow_le_zpow_right₀ (by norm_num) (by omega)

theorem percentOf_zero (hn : 0 < n) : percentOf 0 n = .ofNat 0 := by
  rw [percentOf, if_neg (Nat.ne_of_gt hn), if_pos rfl]

/-- Below the bound of the precision, a percentage differs from the exact share by half a unit of
the twenty-sixth place at most. -/
theorem percentOf_near (h : n < pow10 precision) (hn : 0 < n) (hi : i ≤ n) :
    ∃ r : ℚ, (percentOf i n).value? = some r ∧
      2 * |r - 100 * i / n| ≤ (10 : ℚ) ^ (-26 : Int) := by
  have hn' : (n : ℚ) ≠ 0 := Nat.cast_ne_zero.2 (Nat.ne_of_gt hn)
  have hunit : (0 : ℚ) ≤ (10 : ℚ) ^ (-26 : Int) := zpow_nonneg (by norm_num) _
  rcases Nat.eq_zero_or_pos i with rfl | hpos
  · exact ⟨0, congrArg Decimal.value? (percentOf_zero hn), by simp⟩
  rcases Nat.eq_or_lt_of_le hi with rfl | hlt
  · refine ⟨100, value?_percentOf_self h, ?_⟩
    rw [mul_div_cancel_right₀ _ hn', sub_self, abs_zero, mul_zero]
    exact hunit
  obtain ⟨-, hval⟩ := keepDigits_hundredfold (n := i) (by omega)
  cases hk : keepDigits (100 * i) with
  | mk c lost =>
    cases hq : quotient c n with
    | mk q places =>
      rw [hk] at hval
      have hc : 0 < c := by
        apply Nat.pos_of_ne_zero
        rintro rfl
        rw [Nat.zero_mul] at hval
        omega
      have hshare : (100 * i / n : ℚ) = c / n * (10 : ℚ) ^ (lost : Int) := by
        rw [div_mul_eq_mul_div, zpow_natCast, ← pow10_cast, ← Nat.cast_mul, hval]
        push_cast
        rfl
      refine ⟨(q : ℚ) * (10 : ℚ) ^ ((lost : Int) - places), ?_, ?_⟩
      · rw [percentOf_natCast hn hpos hk hq, value?_finite]
      · have hscale : (0 : ℚ) ≤ (10 : ℚ) ^ (lost : Int) := zpow_nonneg (by norm_num) _
        calc 2 * |(q : ℚ) * (10 : ℚ) ^ ((lost : Int) - places) - 100 * i / n|
            = 2 * |(q : ℚ) * (10 : ℚ) ^ (-places) - c / n| * (10 : ℚ) ^ (lost : Int) := by
              rw [hshare, sub_eq_add_neg (lost : Int), add_comm (lost : Int),
                zpow_add₀ ten_ne_zero, ← mul_assoc, ← sub_mul, abs_mul, abs_of_nonneg hscale,
                mul_assoc]
          _ ≤ (10 : ℚ) ^ (-(quotientPlaces c n : Int)) * (10 : ℚ) ^ (lost : Int) :=
              mul_le_mul_of_nonneg_right (quotient_near hn hq) hscale
          _ = (10 : ℚ) ^ ((lost : Int) - quotientPlaces c n) := by
              rw [← zpow_add₀ ten_ne_zero, neg_add_eq_sub]
          _ ≤ (10 : ℚ) ^ (-26 : Int) := lastPlace_le hc hlt hval

/-- A larger part of a whole has a larger percentage. -/
theorem percentOf_below (h : n < pow10 precision) (hij : i < j) (hj : j ≤ n) :
    (percentOf i n).Below (percentOf j n) := by
  have hn : 0 < n := by omega
  obtain ⟨r, hr, hri⟩ := percentOf_near h hn (Nat.le_of_lt (Nat.lt_of_lt_of_le hij hj))
  obtain ⟨s, hs, hsj⟩ := percentOf_near h hn hj
  refine ⟨r, s, hr, hs, ?_⟩
  have hn' : (0 : ℚ) < n := Nat.cast_pos.2 hn
  have hgap : (10 : ℚ) ^ (-26 : Int) < 100 * j / n - 100 * i / n := by
    have hstep : (i : ℚ) + 1 ≤ j := by exact_mod_cast hij
    have hbound : (n : ℚ) < 10 ^ 28 := by
      have := pow10_cast precision ▸ Nat.cast_lt (α := ℚ).2 h
      exact this
    rw [← sub_div, ← mul_sub, lt_div_iff₀ hn']
    calc (10 : ℚ) ^ (-26 : Int) * n < (10 : ℚ) ^ (-26 : Int) * 10 ^ 28 :=
          mul_lt_mul_of_pos_left hbound (by norm_num)
      _ = 100 := by norm_num
      _ ≤ 100 * ((j : ℚ) - i) := by linarith
  have hupper := le_abs_self (r - 100 * i / n)
  have hlower := neg_abs_le (s - 100 * j / n)
  linarith

end PartScan.Number
