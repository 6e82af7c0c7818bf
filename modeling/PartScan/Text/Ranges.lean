/-! # Character ranges

A character class is a sorted table of closed ranges of code points.
-/

namespace PartScan.Text

/-- Closed ranges of code points, in increasing order and without overlap. -/
abbrev Ranges := List (Nat × Nat)

/-- Look a code point up, stopping at the first range that lies above it. -/
def Ranges.contains : Ranges → Nat → Bool
  | [], _ => false
  | (first, last) :: rest, n => !(n < first) && (n ≤ last || Ranges.contains rest n)

theorem Ranges.exists_of_contains {t : Ranges} {n : Nat} (h : t.contains n = true) :
    ∃ r ∈ t, r.1 ≤ n ∧ n ≤ r.2 := by
  induction t with
  | nil => simp [contains] at h
  | cons r t ih =>
    simp only [contains, Bool.and_eq_true, Bool.not_eq_true', decide_eq_false_iff_not,
      Bool.or_eq_true, decide_eq_true_eq] at h
    rcases h.2 with h' | h'
    · exact ⟨r, by simp, by omega, h'⟩
    · obtain ⟨s, hs, hn⟩ := ih h'
      exact ⟨s, by simp [hs], hn⟩

end PartScan.Text
