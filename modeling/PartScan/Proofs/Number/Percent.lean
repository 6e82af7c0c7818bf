import PartScan.Number.Percent

/-! # The percentage of the whole

Below the bound of the precision, the hundredfold of a length loses no digit when it is rounded, so
the quotient is exact and the whole is 100 percent of itself.
-/

namespace PartScan.Number

/-- The number that a finite decimal stands for. -/
def Decimal.value? : Decimal → Option Rat
  | .finite negative c e =>
    some (mkRat ((if negative then -1 else 1) * (c * pow10 e.toNat : Nat)) (pow10 (-e).toNat))
  | _ => none

theorem pow10_add (m n : Nat) : pow10 (m + n) = pow10 m * pow10 n := Nat.pow_add 10 m n

theorem digitCount_le_iff {n k : Nat} (h : 0 < k) : digitCount n ≤ k ↔ n < pow10 k :=
  Nat.length_toDigits_le_iff (by decide) h

/-- Rounding keeps a coefficient where the digits that it drops are zeros. -/
theorem keepDigits_exact {m : Nat} (h : m % pow10 (digitCount m - precision) = 0) :
    (keepDigits m).1 * pow10 (keepDigits m).2 = m := by
  have hm : m / pow10 (digitCount m - precision) * pow10 (digitCount m - precision) = m :=
    Nat.div_mul_cancel (Nat.dvd_of_mod_eq_zero h)
  rw [keepDigits, roundDiv_of_dvd (pow10_pos _) h]
  split
  · rename_i hkept
    rw [hkept] at hm
    rw [Nat.add_comm, pow10_add, ← Nat.mul_assoc]
    exact hm
  · exact hm

theorem keepDigits_snd_le {m k : Nat} (hk : precision < k) (h : m < pow10 k)
    (hm : m % pow10 (digitCount m - precision) = 0) : (keepDigits m).2 ≤ k - precision := by
  have hcount : digitCount m ≤ k := (digitCount_le_iff (by omega)).2 h
  rw [keepDigits, roundDiv_of_dvd (pow10_pos _) hm]
  split
  · rename_i hkept
    -- the carry happens below the largest number of lost digits only
    refine Nat.succ_le_of_lt (Nat.lt_of_le_of_ne (Nat.sub_le_sub_right hcount _) fun heq => ?_)
    rw [heq] at hkept
    have hle : pow10 k ≤ m := by
      rw [show k = precision + (k - precision) by omega, pow10_add, ← hkept]
      exact Nat.div_mul_le_self m _
    exact Nat.not_lt.2 hle h
  · exact Nat.sub_le_sub_right hcount _

/-- Dropping zeros keeps the value of a coefficient with places. -/
theorem dropZeros_spec (c places : Nat) :
    (dropZeros c places).2 ≤ places ∧
      (dropZeros c places).1 * pow10 (places - (dropZeros c places).2) = c := by
  induction places generalizing c with
  | zero => exact ⟨Nat.le_refl 0, Nat.mul_one c⟩
  | succ places ih =>
    rw [dropZeros]
    split
    · rename_i hc
      obtain ⟨hle, hval⟩ := ih (c / 10)
      refine ⟨Nat.le_succ_of_le hle, ?_⟩
      have hten : pow10 (places + 1 - (dropZeros (c / 10) places).2) =
          pow10 (places - (dropZeros (c / 10) places).2) * 10 := by
        rw [Nat.succ_sub hle]
        rfl
      rw [hten, ← Nat.mul_assoc, hval]
      exact Nat.div_mul_cancel (Nat.dvd_of_mod_eq_zero hc)
    · exact ⟨Nat.le_refl _, by rw [Nat.sub_self]; exact Nat.mul_one c⟩

theorem value?_of_mul_eq {q v lost left : Nat}
    (h : q * pow10 (lost - left) = v * pow10 (left - lost)) :
    (Decimal.finite false q (lost - left)).value? = some (v : Rat) := by
  have hup : ((lost : Int) - left).toNat = lost - left := by omega
  have hdown : (-((lost : Int) - left)).toNat = left - lost := by omega
  have hpos : pow10 (left - lost) ≠ 0 := Nat.ne_of_gt (pow10_pos _)
  rw [Decimal.value?, hup, hdown, h]
  apply congrArg some
  rw [← Rat.intCast_natCast, ← Rat.mkRat_one, Rat.mkRat_eq_iff hpos Nat.one_ne_zero]
  simp

/-- The value of a quotient that is exact once the coefficient has its places. -/
theorem value?_quotient {c n v lost q : Nat} {places : Int} (hn : 0 < n)
    (hq : quotient c n = (q, places)) (h : c * pow10 (quotientPlaces c n) % n = 0)
    (hv : c * pow10 lost = v * n) : (Decimal.finite false q (lost - places)).value? = some ↑v := by
  obtain ⟨hle, hval⟩ := dropZeros_spec (c * pow10 (quotientPlaces c n) / n) (quotientPlaces c n)
  rw [quotient, if_pos h] at hq
  generalize quotientPlaces c n = filled at *
  generalize dropZeros (c * pow10 filled / n) filled = d at *
  obtain ⟨q, left⟩ := d
  cases hq
  apply value?_of_mul_eq
  -- up to the common factors, both sides are the coefficient with its places
  have hmul : q * pow10 (filled - left) * pow10 lost = v * pow10 filled := by
    apply Nat.eq_of_mul_eq_mul_right hn
    calc q * pow10 (filled - left) * pow10 lost * n
        = c * pow10 filled / n * n * pow10 lost := by
          rw [hval, Nat.mul_right_comm]
      _ = c * pow10 lost * pow10 filled := by
          rw [Nat.div_mul_cancel (Nat.dvd_of_mod_eq_zero h), Nat.mul_right_comm]
      _ = v * pow10 filled * n := by rw [hv, Nat.mul_right_comm]
  refine Nat.eq_of_mul_eq_mul_right (pow10_pos (filled - left + min left lost)) ?_
  have hup : lost - left + (filled - left + min left lost) = filled - left + lost := by omega
  have hdown : left - lost + (filled - left + min left lost) = filled := by omega
  rw [Nat.mul_assoc, Nat.mul_assoc, ← pow10_add, ← pow10_add, hup, hdown, pow10_add,
    ← Nat.mul_assoc]
  exact hmul

-- with the two roundings as variables, since comparing terms with the given ones evaluates them
theorem share_eq {keep : Nat → Nat × Nat} {divide : Nat → Nat → Nat × Int} {index : Int}
    {length c lost q : Nat} {places : Int} (hl : length ≠ 0) (hi : index ≠ 0)
    (hk : keep (100 * index.natAbs) = (c, lost)) (hd : divide c length = (q, places)) :
    (if length = 0 then Decimal.ofNat 100
      else if index = 0 then .ofNat 0
      else
        let (c, lost) := keep (100 * index.natAbs)
        let (q, places) := divide c length
        .finite (index < 0) q (lost - places)) = .finite (index < 0) q (lost - places) := by
  rw [if_neg hl, if_neg hi, hk]
  show (match divide c length with
    | (q, places) => Decimal.finite (index < 0) q (lost - places)) = _
  rw [hd]

theorem percentOf_eq {index : Int} {length c lost q : Nat} {places : Int} (hl : length ≠ 0)
    (hi : index ≠ 0) (hk : keepDigits (100 * index.natAbs) = (c, lost))
    (hq : quotient c length = (q, places)) :
    percentOf index length = .finite (index < 0) q (lost - places) :=
  share_eq hl hi hk hq

theorem percentOf_natCast {i n c lost q : Nat} {places : Int} (hn : 0 < n) (hi : 0 < i)
    (hk : keepDigits (100 * i) = (c, lost)) (hq : quotient c n = (q, places)) :
    percentOf i n = .finite false q (lost - places) := by
  have hi' : (i : Int) ≠ 0 := by omega
  rw [percentOf_eq (Nat.ne_of_gt hn) hi' (by rwa [Int.natAbs_natCast]) hq,
    decide_eq_false (by omega)]

/-- The hundredfold of a natural below the bound of the precision keeps its value. -/
theorem keepDigits_hundredfold {n : Nat} (h : n < pow10 precision) :
    (keepDigits (100 * n)).2 ≤ 2 ∧
      (keepDigits (100 * n)).1 * pow10 (keepDigits (100 * n)).2 = 100 * n := by
  have hbound : 100 * n < pow10 30 := by
    have h30 : pow10 30 = 100 * pow10 precision := rfl
    omega
  have hcount : digitCount (100 * n) ≤ 30 := (digitCount_le_iff (by decide)).2 hbound
  have hlost : digitCount (100 * n) - precision ≤ 2 := Nat.sub_le_sub_right hcount precision
  have hzeros : 100 * n % pow10 (digitCount (100 * n) - precision) = 0 := by
    have hdvd : pow10 (digitCount (100 * n) - precision) ∣ 100 :=
      ⟨pow10 (2 - (digitCount (100 * n) - precision)), by
        rw [← pow10_add, Nat.add_sub_cancel' hlost]
        rfl⟩
    exact Nat.mod_eq_zero_of_dvd (Nat.dvd_trans hdvd (Nat.dvd_mul_right 100 n))
  exact ⟨keepDigits_snd_le (k := 30) (by decide) hbound hzeros, keepDigits_exact hzeros⟩

/-- The whole is 100 percent of itself. -/
theorem value?_percentOf_self {n : Nat} (h : n < pow10 precision) :
    (percentOf n n).value? = some 100 := by
  rcases Nat.eq_zero_or_pos n with rfl | hn
  · rfl
  obtain ⟨hle, hval⟩ := keepDigits_hundredfold h
  cases hk : keepDigits (100 * n) with
  | mk c lost =>
    cases hq : quotient c n with
    | mk q places =>
      rw [hk] at hle hval
      have hmul : c = n * pow10 (2 - lost) := by
        refine Nat.eq_of_mul_eq_mul_right (pow10_pos lost) (hval.trans ?_)
        rw [Nat.mul_assoc, ← pow10_add, Nat.sub_add_cancel hle, Nat.mul_comm]
        rfl
      have hexact : c * pow10 (quotientPlaces c n) % n = 0 := by
        rw [hmul, Nat.mul_assoc]
        exact Nat.mul_mod_right n _
      rw [percentOf_natCast hn hn hk hq]
      exact value?_quotient hn hq hexact hval

end PartScan.Number
