/-! # Rounding quotients

Quotients of naturals are rounded to nearest, a tie going to the even neighbour. Every rounded
number of the library comes from this one function.
-/

namespace PartScan.Number

/-- The natural nearest to `num / den`; of two equally near ones, the even one. -/
def roundDiv (num den : Nat) : Nat :=
  if 2 * (num % den) < den then num / den
  else if den < 2 * (num % den) then num / den + 1
  else num / den + num / den % 2

theorem roundDiv_of_dvd {num den : Nat} (hd : 0 < den) (h : num % den = 0) :
    roundDiv num den = num / den := by
  simp [roundDiv, h, hd]

theorem roundDiv_le_div_succ (num den : Nat) : roundDiv num den ≤ num / den + 1 := by
  unfold roundDiv
  split
  · omega
  · split <;> omega

end PartScan.Number
