import Mathlib.Data.Nat.Find
import PartScan.Proofs.Scan.Checked
import PartScan.Proofs.Scan.Nesting

/-! # Outcomes of nested scans

A scan that pairs parentheses by depth comes to an end, and it fails exactly at the first
parenthesis that is not closed or lies too deep.
-/

namespace PartScan

namespace Scan

theorem size_pos (s : Scan) : 0 < s.size := by
  cases s with
  | ready => exact Nat.succ_pos _
  | suspended => exact Nat.add_pos_left (Nat.succ_pos _) _

theorem length_run_le (s : Scan) : s.run.1.length ≤ s.size := by
  fun_induction run s with
  | case1 s ns o hr => exact s.size_pos
  | case2 s ns t hr rest o ho ih =>
    have := size_resume hr
    rw [ho] at ih
    exact Nat.succ_le_of_lt (Nat.lt_of_le_of_lt ih this)

theorem size_resume_ready {rules : Rules} {e : List Char} {ns : List Notice} {t : Scan}
    (h : (ready rules e).resume = (ns, .suspended t)) : t.size < e.length + 1 := by
  rw [resume] at h
  split at h
  · simp at h
  · simp only [Prod.mk.injEq] at h
    obtain ⟨l, outer, ha, rfl⟩ := settle_eq_suspended (Prod.ext_iff.2 ⟨rfl, h.2⟩)
    exact size_advance ha

/-- A scan is resumed at most once more than the expression has characters. -/
theorem length_run_ready_le (rules : Rules) (e : List Char) :
    (ready rules e).run.1.length ≤ e.length + 1 := by
  rw [run]
  split
  · simp
  · rename_i ns t hr
    have := size_resume_ready hr
    have := t.length_run_le
    simp only [List.length_cons]
    omega

end Scan

variable {rules : Rules} {e : List Char} {o : Nat}

theorem exists_firstMisplaced {m : Nat} (h : Misplaced m e o) : ∃ o, FirstMisplaced m e o :=
  ⟨Nat.find ⟨o, h⟩, Nat.find_spec ⟨o, h⟩, fun _ => Nat.find_min ⟨o, h⟩⟩

/-- A scan succeeds where nothing is misplaced, and a fault is that of the first misplaced
parenthesis. -/
theorem tokenize_nested (hn : rules.pairing = .nested) (e : List Char) :
    match tokenize rules e with
    | .ok _ => ∀ o, ¬ Misplaced rules.maxDepth e o
    | .error f => ∃ o, FirstMisplaced rules.maxDepth e o ∧ f = faultAt rules.maxDepth e o := by
  have h := (Nests.kept hn e).tokenize_meets (.start rules.maxDepth e)
  revert h
  cases tokenize rules e with
  | ok ps =>
    rintro ⟨l, hl, hr, -⟩ o ho
    have hlen := hl.stacked.offset_end hr
    exact hl.clear o (hlen ▸ (List.getElem?_eq_some_iff.1 ho.1).1) ho
  | error f =>
    rintro ⟨l, outer, rest, hl, hr, hf⟩
    exact ⟨l.offset, hl.refused hn hr hf⟩

/-- A nested scan ends. It fails exactly where a parenthesis is not closed or lies too deep, and
the first such one decides the fault; no access on the way fails. -/
theorem nested_scan_outcome (hn : rules.pairing = .nested) (e : List Char) :
    ((∃ f, tokenize rules e = .error f) ↔ ∃ o, Misplaced rules.maxDepth e o) ∧
      (∀ o, FirstMisplaced rules.maxDepth e o →
        tokenize rules e = .error (faultAt rules.maxDepth e o)) ∧
      (Scan.ready rules e).run.1.length ≤ e.length + 1 ∧
      ∀ l outer, Reached rules e l outer →
        advance? rules e l outer = (advance rules e l outer).checked := by
  have h := tokenize_nested hn e
  have hfirst (o : Nat) (ho : FirstMisplaced rules.maxDepth e o) :
      tokenize rules e = .error (faultAt rules.maxDepth e o) := by
    cases ht : tokenize rules e with
    | ok ps =>
      rw [ht] at h
      exact absurd ho.1 (h o)
    | error f =>
      rw [ht] at h
      obtain ⟨o', ho', rfl⟩ := h
      rw [ho.unique ho']
  refine ⟨⟨?_, ?_⟩, hfirst, Scan.length_run_ready_le rules e, fun l outer hl => ?_⟩
  · rintro ⟨f, hf⟩
    rw [hf] at h
    obtain ⟨o, ho, -⟩ := h
    exact ⟨o, ho.1⟩
  · rintro ⟨o, ho⟩
    obtain ⟨o', ho'⟩ := exists_firstMisplaced ho
    exact ⟨_, hfirst o' ho'⟩
  · exact ((Stacked.kept rules e).reached (.start e) hl).advance?_eq

theorem nested_scan_outcome_deep :
    ({ maxDepth := 2 } : Rules).pairing = .nested ∧
      tokenize { maxDepth := 2 } ['f', '(', 'g', '(', 'h', '(', ')', ')', ')', '('] =
        .error (.tooDeep ['f', '(', 'g', '(', 'h', '(', ')', ')', ')', '('] 5 2) :=
  ⟨rfl, (nested_scan_outcome rfl _).2.1 5 (by decide +kernel)⟩

end PartScan
