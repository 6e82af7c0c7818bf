import PartScan.Proofs.Number.Increase

/-! # Percentages are rounded twice

A number is rounded to the coefficient with the kept digits that is nearest to it, a tie going to
the even one. Rounding keeps the order of numbers, so percentages keep the order of the parts,
though the hundredfold of a part and its quotient by the whole are both rounded.
-/

namespace PartScan.Number

variable {c i j k l m n : ℕ} {x y r s : ℚ}

/-- The natural nearest to a number, and the even one where two are equally near. -/
structure Nearest (x : ℚ) (k : ℕ) : Prop where
  near : 2 * |(k : ℚ) - x| ≤ 1
  even : 2 * |(k : ℚ) - x| = 1 → k % 2 = 0

/-- The number `r` is `x` rounded to the kept digits: at the power of ten that gives `x` its full
number of digits, the nearest coefficient. -/
inductive Rounded (x r : ℚ) : Prop
  | zero (hx : x = 0) (hr : r = 0)
  | scaled {k : ℕ} (e : ℤ) (hlow : (10 : ℚ) ^ (precision - 1) * (10 : ℚ) ^ e ≤ x)
      (hhigh : x < (10 : ℚ) ^ precision * (10 : ℚ) ^ e) (hk : Nearest (x / (10 : ℚ) ^ e) k)
      (hr : r = k * (10 : ℚ) ^ e)

namespace Nearest

theorem mono (h : x ≤ y) (hk : Nearest x k) (hl : Nearest y l) : k ≤ l := by
  by_contra hlt
  have hstep : (l : ℚ) + 1 ≤ k := by exact_mod_cast Nat.not_le.1 hlt
  have hupper := le_abs_self ((k : ℚ) - x)
  have hlower := neg_abs_le ((l : ℚ) - y)
  have hk' := hk.near
  have hl' := hl.near
  -- both numbers lie halfway between the two naturals, so both of these are even
  have hnext : (k : ℚ) = l + 1 := by linarith
  have hnext' : k = l + 1 := by exact_mod_cast hnext
  have hkeven := hk.even (by linarith)
  have hleven := hl.even (by linarith)
  omega

theorem natCast (k : ℕ) : Nearest k k := by
  constructor <;> simp

theorem roundDiv (m : ℕ) (hn : 0 < n) : Nearest ((m : ℚ) / n) (roundDiv m n) := by
  refine ⟨roundDiv_near m hn, ?_⟩
  intro htie
  have hm : (m : ℚ) / n * n = m := div_mul_cancel₀ _ (Nat.cast_ne_zero.2 (Nat.ne_of_gt hn))
  have hhalf : |(Number.roundDiv m n : ℚ) - m / n| = 1 / 2 := by linarith
  have hsides : 2 * (Number.roundDiv m n * n) = 2 * m + n ∨
      2 * (Number.roundDiv m n * n) + n = 2 * m := by
    rcases (abs_eq (by norm_num)).1 hhalf with h | h
    · have hq : 2 * ((Number.roundDiv m n : ℚ) * n) = 2 * m + n := by
        rw [sub_eq_iff_eq_add.1 h, add_mul, hm]
        ring
      exact .inl (by exact_mod_cast hq)
    · have hq : 2 * ((Number.roundDiv m n : ℚ) * n) + n = 2 * m := by
        rw [sub_eq_iff_eq_add.1 h, add_mul, hm]
        ring
      exact .inr (by exact_mod_cast hq)
  have hdiv : m / n * n + m % n = m := Nat.div_add_mod' m n
  have hmod : m % n < n := Nat.mod_lt m hn
  rcases Nat.lt_trichotomy (2 * (m % n)) n with hlt | heq | hgt
  · rw [Number.roundDiv, if_pos hlt] at hsides
    omega
  · rw [Number.roundDiv, if_neg (by omega), if_neg (by omega)]
    omega
  · rw [Number.roundDiv, if_neg (by omega), if_pos hgt, Nat.succ_mul (m / n)] at hsides
    omega

end Nearest

theorem ten_zpow_pos (e : ℤ) : (0 : ℚ) < (10 : ℚ) ^ e := zpow_pos (by norm_num) e

/-- All coefficients of a power of ten are below those of a larger one. -/
theorem ten_pow_le {e f : ℤ} (h : e < f) :
    (10 : ℚ) ^ precision * (10 : ℚ) ^ e ≤ (10 : ℚ) ^ (precision - 1) * (10 : ℚ) ^ f := by
  rw [← zpow_natCast, ← zpow_natCast, ← zpow_add₀ ten_ne_zero, ← zpow_add₀ ten_ne_zero]
  exact zpow_le_zpow_right₀ (by norm_num) (by rw [precision]; omega)

namespace Rounded

/-- A rounded coefficient has the kept digits, or is the least one with one digit more. -/
theorem coefficient_bounds {e : ℤ} (hlow : (10 : ℚ) ^ (precision - 1) * (10 : ℚ) ^ e ≤ x)
    (hhigh : x < (10 : ℚ) ^ precision * (10 : ℚ) ^ e) (hk : Nearest (x / (10 : ℚ) ^ e) k) :
    (10 : ℚ) ^ (precision - 1) ≤ k ∧ (k : ℚ) ≤ (10 : ℚ) ^ precision := by
  rw [← le_div_iff₀ (ten_zpow_pos e)] at hlow
  rw [← div_lt_iff₀ (ten_zpow_pos e)] at hhigh
  rw [← pow10_cast] at hlow hhigh ⊢
  rw [← pow10_cast]
  exact ⟨Nat.cast_le.2 ((Nearest.natCast _).mono hlow hk),
    Nat.cast_le.2 (hk.mono hhigh.le (Nearest.natCast _))⟩

theorem nonneg (h : Rounded x r) : 0 ≤ r := by
  cases h with
  | zero _ hr => exact hr.ge
  | scaled e _ _ _ hr => exact hr ▸ mul_nonneg (Nat.cast_nonneg _) (ten_zpow_pos e).le

theorem pos (hx : 0 < x) (h : Rounded x r) : 0 < r := by
  cases h with
  | zero hx' => exact absurd hx hx'.not_gt
  | scaled e hlow hhigh hk hr =>
    have hcoefficient := (coefficient_bounds hlow hhigh hk).1
    exact hr ▸ mul_pos ((by positivity : (0 : ℚ) < 10 ^ (precision - 1)).trans_le hcoefficient)
      (ten_zpow_pos e)

/-- Rounding keeps the order of numbers. -/
theorem mono (h : x ≤ y) (hr : Rounded x r) (hs : Rounded y s) : r ≤ s := by
  cases hr with
  | zero _ hr => exact hr ▸ hs.nonneg
  | @scaled k e hlow hhigh hk hr =>
    obtain ⟨hklow, hkhigh⟩ := coefficient_bounds hlow hhigh hk
    have hpos : 0 < x := (mul_pos (by positivity) (ten_zpow_pos e)).trans_le hlow
    cases hs with
    | zero hy => exact absurd (hpos.trans_le h) hy.not_gt
    | @scaled l f hlow' hhigh' hl hs =>
      obtain ⟨hllow, hlhigh⟩ := coefficient_bounds hlow' hhigh' hl
      rw [hr, hs]
      rcases lt_trichotomy e f with hlt | rfl | hgt
      · calc (k : ℚ) * (10 : ℚ) ^ e ≤ (10 : ℚ) ^ precision * (10 : ℚ) ^ e :=
              mul_le_mul_of_nonneg_right hkhigh (ten_zpow_pos e).le
          _ ≤ (10 : ℚ) ^ (precision - 1) * (10 : ℚ) ^ f := ten_pow_le hlt
          _ ≤ l * (10 : ℚ) ^ f := mul_le_mul_of_nonneg_right hllow (ten_zpow_pos f).le
      · have hkl : k ≤ l := hk.mono (div_le_div_of_nonneg_right h (ten_zpow_pos e).le) hl
        exact mul_le_mul_of_nonneg_right (Nat.cast_le.2 hkl) (ten_zpow_pos e).le
      · exact absurd (hhigh'.trans_le ((ten_pow_le hgt).trans hlow)) h.not_gt

/-- A number is rounded to one number only. -/
theorem unique (hr : Rounded x r) (hs : Rounded x s) : r = s :=
  le_antisymm (hr.mono le_rfl hs) (hs.mono le_rfl hr)

/-- Rounding does not depend on the place of the point. -/
theorem scale (h : Rounded x r) (f : ℤ) : Rounded (x * (10 : ℚ) ^ f) (r * (10 : ℚ) ^ f) := by
  cases h with
  | zero hx hr => exact .zero (by rw [hx, zero_mul]) (by rw [hr, zero_mul])
  | @scaled k e hlow hhigh hk hr =>
    have hadd : (10 : ℚ) ^ (e + f) = (10 : ℚ) ^ e * (10 : ℚ) ^ f := zpow_add₀ ten_ne_zero e f
    refine .scaled (k := k) (e + f) ?_ ?_ ?_ ?_
    · rw [hadd, ← mul_assoc]
      exact mul_le_mul_of_nonneg_right hlow (ten_zpow_pos f).le
    · rw [hadd, ← mul_assoc]
      exact mul_lt_mul_of_pos_right hhigh (ten_zpow_pos f)
    · rwa [hadd, mul_div_mul_right _ _ (ten_zpow_pos f).ne']
    · rw [hr, hadd, mul_assoc]

/-- Rounding adds less than half a unit of the last kept digit. -/
theorem le_add (h : Rounded x r) : r ≤ x + x / (2 * (10 : ℚ) ^ (precision - 1)) := by
  cases h with
  | zero hx hr => simp [hx, hr]
  | @scaled k e hlow hhigh hk hr =>
    have hpos := ten_zpow_pos e
    have hnear : (k : ℚ) ≤ x / (10 : ℚ) ^ e + 1 / 2 := by
      have := le_abs_self ((k : ℚ) - x / (10 : ℚ) ^ e)
      linarith [hk.near]
    have hunit : (10 : ℚ) ^ e ≤ x / (10 : ℚ) ^ (precision - 1) :=
      (le_div_iff₀' (by positivity)).2 hlow
    calc r = k * (10 : ℚ) ^ e := hr
      _ ≤ (x / (10 : ℚ) ^ e + 1 / 2) * (10 : ℚ) ^ e := mul_le_mul_of_nonneg_right hnear hpos.le
      _ = x + (10 : ℚ) ^ e / 2 := by rw [add_mul, div_mul_cancel₀ _ hpos.ne']; ring
      _ ≤ x + x / (10 : ℚ) ^ (precision - 1) / 2 := by linarith
      _ = x + x / (2 * (10 : ℚ) ^ (precision - 1)) := by rw [div_div, mul_comm]

end Rounded

/-- Half a unit of the last kept digit above a hundred is a tie, and the even side is a hundred. -/
theorem rounded_hundred : Rounded (100 + 100 / (2 * (10 : ℚ) ^ (precision - 1))) 100 := by
  refine .scaled (k := 10 ^ 27) (-25) ?_ ?_ ⟨?_, fun _ => by norm_num⟩ ?_ <;>
    norm_num [precision, abs_of_neg]

/-- A carry moves one power of ten from the coefficient to the lost digits. -/
theorem keepDigits_value (m : ℕ) :
    (keepDigits m).1 * pow10 (keepDigits m).2 =
      roundDiv m (pow10 (digitCount m - precision)) * pow10 (digitCount m - precision) := by
  rw [keepDigits]
  generalize digitCount m - precision = lost
  split
  · rename_i hcarry
    show pow10 (precision - 1) * pow10 (lost + 1) = _
    rw [hcarry, ← pow10_add, ← pow10_add, precision]
    congr 1
    omega
  · rfl

theorem keepDigits_lt (m : ℕ) : (keepDigits m).1 < pow10 precision := by
  rw [keepDigits]
  generalize hlost : digitCount m - precision = lost
  have hm : m < pow10 precision * pow10 lost := by
    rw [← pow10_add]
    exact (lt_pow10_digitCount m).trans_le (Nat.pow_le_pow_right (by decide) (by omega))
  have hround := roundDiv_le_div_succ m (pow10 lost)
  have hdiv : m / pow10 lost < pow10 precision := Nat.div_lt_of_lt_mul (by rwa [mul_comm])
  split
  · exact Nat.pow_lt_pow_right (by decide) (by decide)
  · dsimp only
    omega

/-- The power of ten that gives a natural its full number of digits. -/
theorem digitCount_bounds (hm : 0 < m) :
    (10 : ℚ) ^ (precision - 1) * (10 : ℚ) ^ ((digitCount m : ℤ) - precision) ≤ m ∧
      (m : ℚ) < (10 : ℚ) ^ precision * (10 : ℚ) ^ ((digitCount m : ℤ) - precision) := by
  have hcount : 0 < digitCount m := Nat.length_toDigits_pos
  have hexponent : ((precision - 1 : ℕ) : ℤ) + (digitCount m - precision) =
      ((digitCount m - 1 : ℕ) : ℤ) := by
    rw [precision]
    omega
  rw [← zpow_natCast, ← zpow_natCast, ← zpow_add₀ ten_ne_zero, ← zpow_add₀ ten_ne_zero, hexponent,
    add_sub_cancel, zpow_natCast, zpow_natCast, ← pow10_cast, ← pow10_cast]
  exact ⟨Nat.cast_le.2 (pow10_digitCount_le hm), Nat.cast_lt.2 (lt_pow10_digitCount m)⟩

theorem rounded_keepDigits (m : ℕ) :
    Rounded m ((keepDigits m).1 * (10 : ℚ) ^ ((keepDigits m).2 : ℤ)) := by
  have hvalue : (keepDigits m).1 * (10 : ℚ) ^ ((keepDigits m).2 : ℤ) =
      (roundDiv m (pow10 (digitCount m - precision)) : ℚ) *
        (10 : ℚ) ^ ((digitCount m - precision : ℕ) : ℤ) := by
    rw [zpow_natCast, zpow_natCast, ← pow10_cast, ← pow10_cast]
    exact_mod_cast keepDigits_value m
  rw [hvalue]
  rcases Nat.eq_zero_or_pos m with rfl | hm
  · exact .zero rfl (by norm_num [roundDiv])
  obtain ⟨hlow, hhigh⟩ := digitCount_bounds hm
  rcases Nat.le_total (digitCount m) precision with hle | hle
  · -- nothing is lost, and with zeros for its missing digits the number is its own coefficient
    have hpad : (m : ℚ) / (10 : ℚ) ^ ((digitCount m : ℤ) - precision) =
        ((m * pow10 (precision - digitCount m) : ℕ) : ℚ) := by
      rw [Nat.cast_mul, pow10_cast, div_eq_mul_inv, ← zpow_neg, ← zpow_natCast]
      congr 2
      omega
    rw [Nat.sub_eq_zero_of_le hle, roundDiv_of_dvd (pow10_pos 0) (Nat.mod_one m)]
    refine .scaled _ hlow hhigh (hpad ▸ Nearest.natCast _) ?_
    rw [← hpad, div_mul_cancel₀ _ (ten_zpow_pos _).ne', show pow10 0 = 1 from rfl, Nat.div_one]
    norm_num
  · rw [← Nat.cast_sub hle] at hlow hhigh
    refine .scaled _ hlow hhigh ?_ rfl
    rw [zpow_natCast, ← pow10_cast]
    exact Nearest.roundDiv m (pow10_pos _)

/-- The places of a quotient give it no digit more than the kept ones. -/
theorem quotientPlaces_lt (hn : 0 < n) (hc : c < pow10 precision) :
    c * pow10 (quotientPlaces c n) < n * pow10 precision := by
  have hten : pow10 precision = pow10 (precision - 1) * 10 := rfl
  have hdigits : digitCount c ≤ precision := (digitCount_le_iff (by decide)).2 hc
  have hcount : 0 < digitCount n := Nat.length_toDigits_pos
  unfold quotientPlaces
  generalize hplaces : precision - 1 + digitCount n - digitCount c = places
  dsimp only
  split
  · calc c * pow10 places
        < pow10 (digitCount c) * pow10 places :=
          Nat.mul_lt_mul_of_pos_right (lt_pow10_digitCount c) (pow10_pos _)
      _ = pow10 (digitCount n - 1) * pow10 precision := by
          rw [← pow10_add, ← pow10_add]
          congr 1
          rw [precision] at *
          omega
      _ ≤ n * pow10 precision := Nat.mul_le_mul_right _ (pow10_digitCount_le hn)
  · rename_i hlt
    have hstep : pow10 (places + 1) = pow10 places * 10 := rfl
    rw [hstep, hten, ← mul_assoc, ← mul_assoc]
    omega

theorem rounded_quotient {q : ℕ} {places : ℤ} (hn : 0 < n) (hpos : 0 < c) (hc : c < pow10 precision)
    (hq : quotient c n = (q, places)) : Rounded ((c : ℚ) / n) (q * (10 : ℚ) ^ (-places)) := by
  have hn' : (0 : ℚ) < n := Nat.cast_pos.2 hn
  have hlow := le_quotientPlaces (n := n) hpos
  have hhigh := quotientPlaces_lt hn hc
  rw [quotient_value hn hq]
  generalize quotientPlaces c n = filled at hlow hhigh ⊢
  have hscaled : (c : ℚ) / n / (10 : ℚ) ^ (-(filled : ℤ)) = (c * pow10 filled : ℕ) / n := by
    rw [zpow_neg, div_inv_eq_mul, zpow_natCast, ← pow10_cast, Nat.cast_mul, div_mul_eq_mul_div]
  refine .scaled _ ?_ ?_ (hscaled ▸ Nearest.roundDiv _ hn) rfl
  · rw [← le_div_iff₀ (ten_zpow_pos _), hscaled, le_div_iff₀ hn', ← pow10_cast]
    exact_mod_cast mul_comm n _ ▸ hlow
  · rw [← div_lt_iff₀ (ten_zpow_pos _), hscaled, div_lt_iff₀ hn', ← pow10_cast]
    exact_mod_cast mul_comm n _ ▸ hhigh

/-- The product of a part, the first of the two roundings. -/
def hundredfold (i : ℕ) : ℚ := (keepDigits (100 * i)).1 * (10 : ℚ) ^ ((keepDigits (100 * i)).2 : ℤ)

theorem rounded_hundredfold (i : ℕ) : Rounded (100 * i) (hundredfold i) := by
  have := rounded_keepDigits (100 * i)
  push_cast at this
  exact this

theorem hundredfold_of_lt (h : i < pow10 precision) : hundredfold i = 100 * i := by
  have := (keepDigits_hundredfold h).2
  rw [hundredfold, zpow_natCast, ← pow10_cast]
  exact_mod_cast this

/-- The value of a percentage is the rounded quotient of the rounded product. -/
theorem percentOf_rounded (hn : 0 < n) (i : ℕ) :
    ∃ r : ℚ, (percentOf i n).value? = some r ∧ Rounded (hundredfold i / n) r := by
  rcases Nat.eq_zero_or_pos i with rfl | hi
  · refine ⟨0, congrArg Decimal.value? (percentOf_zero hn), .zero ?_ rfl⟩
    rw [hundredfold_of_lt (pow10_pos _)]
    simp
  have hpos : 0 < (keepDigits (100 * i)).1 := by
    have hproduct : 0 < hundredfold i := (rounded_hundredfold i).pos (by positivity)
    exact_mod_cast pos_of_mul_pos_left hproduct (ten_zpow_pos _).le
  have hlt := keepDigits_lt (100 * i)
  rw [hundredfold]
  cases hk : keepDigits (100 * i) with
  | mk c lost =>
    cases hq : quotient c n with
    | mk q places =>
      rw [hk] at hpos hlt
      refine ⟨(q : ℚ) * (10 : ℚ) ^ ((lost : ℤ) - places), ?_, ?_⟩
      · rw [percentOf_natCast hn hi hk hq, value?_finite]
      · have hscaled := (rounded_quotient hn hpos hlt hq).scale lost
        rw [mul_assoc, ← zpow_add₀ ten_ne_zero, neg_add_eq_sub, div_mul_eq_mul_div] at hscaled
        exact hscaled

theorem percentOf_le_hundred (hn : 0 < n) (hi : i ≤ n) (hr : Rounded (hundredfold i / n) r) :
    r ≤ 100 := by
  have hn' : (0 : ℚ) < n := Nat.cast_pos.2 hn
  refine hr.mono ?_ rounded_hundred
  have hi' : (i : ℚ) ≤ n := Nat.cast_le.2 hi
  rw [div_le_iff₀ hn']
  calc hundredfold i
      ≤ 100 * i + 100 * i / (2 * (10 : ℚ) ^ (precision - 1)) := (rounded_hundredfold i).le_add
    _ = (100 + 100 / (2 * (10 : ℚ) ^ (precision - 1))) * i := by ring
    _ ≤ (100 + 100 / (2 * (10 : ℚ) ^ (precision - 1))) * n := by gcongr

/-- The percentage of a part is its product rounded, divided by the whole and rounded again. The
percentages of the parts of one whole increase from zero to a hundred, and while the whole is below
the bound of the precision, only the quotient is rounded and no two parts share a percentage. -/
theorem percentOf_arithmetic (hn : 0 < n) :
    (∀ i ≤ n, ∃ r : ℚ, (percentOf i n).value? = some r ∧
      Rounded (100 * i) (hundredfold i) ∧ Rounded (hundredfold i / n) r) ∧
    (∀ i j : ℕ, i ≤ j → j ≤ n → ∃ r s : ℚ, (percentOf i n).value? = some r ∧
      (percentOf j n).value? = some s ∧ 0 ≤ r ∧ r ≤ s ∧ s ≤ 100) ∧
    (n < pow10 precision → ∀ i ≤ n, hundredfold i = 100 * i ∧
      (∃ r : ℚ, (percentOf i n).value? = some r ∧ Rounded (100 * i / n) r ∧
        (r = 0 → i = 0) ∧ (r = 100 → i = n)) ∧
      ∀ j, i < j → j ≤ n → (percentOf i n).Below (percentOf j n)) := by
  refine ⟨?_, ?_, ?_⟩
  · intro i _
    obtain ⟨r, hr, hround⟩ := percentOf_rounded hn i
    exact ⟨r, hr, rounded_hundredfold i, hround⟩
  · intro i j hij hj
    obtain ⟨r, hr, hround⟩ := percentOf_rounded hn i
    obtain ⟨s, hs, hround'⟩ := percentOf_rounded hn j
    refine ⟨r, s, hr, hs, hround.nonneg, ?_, percentOf_le_hundred hn hj hround'⟩
    have hij' : (i : ℚ) ≤ j := Nat.cast_le.2 hij
    have hproduct : hundredfold i ≤ hundredfold j :=
      (rounded_hundredfold i).mono (by linarith) (rounded_hundredfold j)
    exact hround.mono (by gcongr) hround'
  · intro h i hi
    refine ⟨hundredfold_of_lt (by omega), ?_, fun j hij hj => percentOf_below h hij hj⟩
    obtain ⟨r, hr, hround⟩ := percentOf_rounded hn i
    rw [hundredfold_of_lt (by omega)] at hround
    refine ⟨r, hr, hround, ?_, ?_⟩
    · rintro rfl
      by_contra hne
      exact (hround.pos (by positivity)).ne rfl
    · rintro rfl
      by_contra hne
      obtain ⟨x, y, hx, hy, hlt⟩ := percentOf_below h (Nat.lt_of_le_of_ne hi hne) le_rfl
      rw [hr, Option.some_inj] at hx
      rw [value?_percentOf_self h, Option.some_inj] at hy
      linarith

theorem percentOf_arithmetic_third :
    3 < pow10 precision ∧ percentOf 1 3 = .finite false 3333333333333333333333333333 (-26) ∧
      Rounded (100 / 3) (3333333333333333333333333333 * (10 : ℚ) ^ (-26 : ℤ)) ∧
      (percentOf 1 3).Below (percentOf 2 3) := by
  have hthird : percentOf 1 3 = .finite false 3333333333333333333333333333 (-26) := by decide
  obtain ⟨-, ⟨r, hr, hround, -⟩, hbelow⟩ :=
    (percentOf_arithmetic (n := 3) (by decide)).2.2 (by decide) 1 (by decide)
  refine ⟨by decide, hthird, ?_, hbelow 2 (by decide) (by decide)⟩
  rw [Nat.cast_one, hthird, value?_finite, Option.some_inj] at hr
  rw [Nat.cast_one, mul_one, ← hr] at hround
  exact_mod_cast hround

-- the product of a whole with one digit too many loses digits, and its percentage is below a hundred
example : percentOf (10 ^ 28 + 1) (10 ^ 28 + 1) =
    .finite false 9999999999999999999999999999 (-26) := by decide

end PartScan.Number
