import PartScan.Scan.Basic

/-! # Whole scans

A scan that nothing interrupts is the list of its resumptions and its outcome. Every resumption
lowers the size of the scan, so each scan ends. A scan may also be cancelled in place of one of its
resumptions.
-/

namespace PartScan

def stackSize (inner : Level) (outer : List Level) : Nat :=
  inner.size + total Level.size outer

theorem size_group_add_passGroup {l : Level} {k : Nat} (hk : 0 < k)
    (h : k < l.remaining.length) : (l.group k).size + (l.passGroup k).size < l.size := by
  have hp : (l.passGroup k).remaining.length = l.remaining.length - (k + 1) := by
    unfold Level.passGroup Level.endCall Level.remaining
    split <;> simp <;> omega
  have hg : (l.group k).remaining.length = k - 1 := by
    simp only [Level.group, Level.remaining] at h ⊢
    simp only [List.drop_zero, List.length_take, List.length_drop] at h ⊢
    omega
  simp only [Level.size, hp, hg]
  omega

theorem size_read {l : Level} {c d : Char} {rest : List Char} (h : l.remaining = d :: rest) :
    (l.read c).size < l.size := by
  have hr : (l.read c).remaining = rest := by
    simp only [Level.read, Level.remaining] at h ⊢
    rw [← List.drop_drop, h]
    rfl
  simp [Level.size, hr, h]

theorem size_skip {l : Level} {q d : Char} {rest : List Char} (h : l.remaining = d :: rest) :
    (l.skip q).size < l.size := by
  have ht : (l.endWord q).text = l.text := by unfold Level.endWord; split <;> rfl
  have hr : (l.skip q).remaining = rest := by
    simp only [Level.skip, Level.remaining] at h ⊢
    rw [ht, ← List.drop_drop, h]
    rfl
  simp [Level.size, hr, h]

theorem size_advance {rules : Rules} {e : List Char} {inner i : Level} {outer o : List Level}
    (h : advance rules e inner outer = .suspended i o) :
    stackSize i o < stackSize inner outer := by
  fun_induction advance rules e inner outer with
  | case1 => simp at h
  | case2 inner hr parts level rest =>
    cases h
    simp only [stackSize, Level.size_takeParts, total_cons]
    simp only [Level.size]
    omega
  | case3 => simp at h
  | case4 => simp at h
  | case5 inner outer rest k hk hd hr ih =>
    have hk' : 0 < k := Pairing.closing_pos (by rw [hr] at hk; exact hk)
    have := size_group_add_passGroup hk' (Pairing.closing_lt hk)
    have := ih h
    simp only [stackSize, total_cons] at *
    omega
  | case6 inner outer c rest hr =>
    cases h
    have := size_read (c := c) hr
    simp only [stackSize]
    omega
  | case7 inner outer c rest hr =>
    cases h
    have := size_skip (q := rules.quote) hr
    simp only [stackSize]
    omega

namespace Scan

theorem settle_eq_suspended {rules : Rules} {e : List Char} {a : Advance} {ns : List Notice}
    {s : Scan} (h : settle rules e a = (ns, .suspended s)) :
    ∃ i o, a = .suspended i o ∧ s = .suspended rules e i o := by
  cases a with
  | suspended i o =>
    simp only [settle, Prod.mk.injEq, Next.suspended.injEq] at h
    exact ⟨i, o, rfl, h.2.symm⟩
  | finished ps => simp [settle] at h
  | failed f => simp [settle] at h

theorem size_resume {s s' : Scan} {ns : List Notice} (h : s.resume = (ns, .suspended s')) :
    s'.size < s.size := by
  cases s with
  | ready rules e =>
    rw [resume] at h
    split at h
    · simp at h
    · simp only [Prod.mk.injEq] at h
      obtain ⟨i, o, ha, rfl⟩ := settle_eq_suspended (Prod.ext_iff.2 ⟨rfl, h.2⟩)
      have := size_advance ha
      simp only [stackSize, Level.size, Level.remaining, size, List.drop_zero, total_nil] at this ⊢
      omega
  | suspended rules e inner outer =>
    simp only [resume, Prod.mk.injEq] at h
    obtain ⟨i, o, ha, rfl⟩ := settle_eq_suspended (Prod.ext_iff.2 ⟨rfl, h.2⟩)
    exact size_advance ha

/-- The reports of each resumption of a scan that nothing interrupts, and its outcome. -/
def run (s : Scan) : List (List Notice) × Outcome :=
  match _h : s.resume with
  | (notices, .finished outcome) => ([notices], outcome)
  | (notices, .suspended next) =>
    let (rest, outcome) := next.run
    (notices :: rest, outcome)
termination_by s.size
decreasing_by exact size_resume _h

/-- How a scan ends that may be cancelled. -/
inductive Ending where
  | ended (outcome : Outcome)
  | cancelled

/-- Run a scan and cancel it in place of the resumption with the given number; that resumption
reports nothing. -/
def runCancelled (s : Scan) : Nat → List (List Notice) × Ending
  | 0 => ([[]], .cancelled)
  | k + 1 =>
    match s.resume with
    | (notices, .finished outcome) => ([notices], .ended outcome)
    | (notices, .suspended next) =>
      let (rest, ending) := next.runCancelled k
      (notices :: rest, ending)

end Scan

/-- The parts of an expression. -/
def tokenize (rules : Rules) (expression : List Char) : Outcome :=
  (Scan.ready rules expression).run.2

/-- The variables among the parts of an expression. -/
def variableParts (rules : Rules) (expression : List Char) : Outcome :=
  (tokenize rules expression).map (·.filter Part.isVariable)

end PartScan
