import Mathlib.Data.List.Intervals
import Mathlib.Data.List.ModifyLast
import PartScan.Proofs.Scan.Stack

/-! # Suspensions of a scan

The scans at which a scan is suspended on the way to its end determine what its resumptions report.
There is one suspension behind each character but opening parentheses, from left to right, up to
the offset at which the outcome is decided.
-/

namespace PartScan

open Number

namespace Scan

variable {s t : Scan} {ns : List Notice} {o : Outcome}

def expression : Scan → List Char
  | .ready _ e => e
  | .suspended _ e _ _ => e

/-- How many characters lie behind a scan. -/
def offset : Scan → Nat
  | .ready .. => 0
  | .suspended _ _ inner _ => inner.offset

/-- The scans at which a scan is suspended on the way to its end. -/
def suspensions (s : Scan) : List Scan :=
  match _h : s.resume with
  | (_, .finished _) => []
  | (_, .suspended next) => next :: next.suspensions
termination_by s.size
decreasing_by exact size_resume _h

/-- What a resumption reports before it takes a step. -/
def report : Scan → List Notice
  | .ready _ e => [.started, .progress (percentOf 0 e.length)]
  | .suspended _ e inner outer =>
    if outer = [] then [.progress (percentOf inner.step e.length)] else []

theorem run_of_finished (h : s.resume = (ns, .finished o)) : s.run = ([ns], o) := by
  rw [run]
  split
  · rename_i hr
    rw [h] at hr
    cases hr
    rfl
  · rename_i hr
    rw [h] at hr
    cases hr

theorem run_of_suspended (h : s.resume = (ns, .suspended t)) :
    s.run = (ns :: t.run.1, t.run.2) := by
  rw [run]
  split
  · rename_i hr
    rw [h] at hr
    cases hr
  · rename_i hr
    rw [h] at hr
    cases hr
    rfl

theorem run_ne_nil (s : Scan) : s.run.1 ≠ [] := by
  fun_cases run s <;> simp

theorem suspensions_of_finished (h : s.resume = (ns, .finished o)) : s.suspensions = [] := by
  rw [suspensions]
  split
  · rfl
  · rename_i hr
    rw [h] at hr
    cases hr

theorem suspensions_of_suspended (h : s.resume = (ns, .suspended t)) :
    s.suspensions = t :: t.suspensions := by
  rw [suspensions]
  split
  · rename_i hr
    rw [h] at hr
    cases hr
  · rename_i hr
    rw [h] at hr
    cases hr
    rfl

theorem expression_of_suspended (h : s.resume = (ns, .suspended t)) :
    t.expression = s.expression := by
  cases s with
  | ready rules e =>
    rw [resume] at h
    split at h
    · simp at h
    · simp only [Prod.mk.injEq] at h
      obtain ⟨l, outer, -, rfl⟩ := settle_eq_suspended (Prod.ext_iff.2 ⟨rfl, h.2⟩)
      rfl
  | suspended rules e l outer =>
    simp only [resume, Prod.mk.injEq] at h
    obtain ⟨l', outer', -, rfl⟩ := settle_eq_suspended (Prod.ext_iff.2 ⟨rfl, h.2⟩)
    rfl

end Scan

/-- What the resumption that ends a scan reports last. -/
def Outcome.report (e : List Char) : Outcome → List Notice
  | .ok ps => [.progress (percentOf e.length e.length), .ended ps.length]
  | .error _ => []

/-- The offset at which an outcome is decided: the end of the expression, or where it is refused. -/
def Outcome.DecidedAt (e : List Char) (n : Nat) : Outcome → Prop
  | .ok _ => n = e.length
  | .error f => f.offset = some ↑n

variable {rules : Rules} {e : List Char} {l l' : Level} {outer outer' : List Level}
  {ps : List Part} {f : Fault} {a c n : Nat}

/-- Induction on the resumptions that a stack of levels still needs. -/
@[elab_as_elim]
theorem advance_induction {r : Rules} {e : List Char} {motive : Level → List Level → Prop}
    (suspended : ∀ {l outer l' outer'}, advance r e l outer = .suspended l' outer' →
      motive l' outer' → motive l outer)
    (finished : ∀ {l outer ps}, advance r e l outer = .finished ps → motive l outer)
    (failed : ∀ {l outer f}, advance r e l outer = .failed f → motive l outer)
    (l : Level) (outer : List Level) : motive l outer :=
  match h : advance r e l outer with
  | .suspended l' outer' => suspended h (advance_induction suspended finished failed l' outer')
  | .finished _ => finished h
  | .failed _ => failed h
termination_by stackSize l outer
decreasing_by exact size_advance h

namespace Scan

/-- The scan goes on from a stack of levels. An empty expression is not scanned at all. -/
inductive At (rules : Rules) (e : List Char) : Scan → Level → List Level → Prop
  | ready (he : e ≠ []) : At rules e (.ready rules e) { base := 0, text := e } []
  | suspended (l : Level) (outer : List Level) : At rules e (.suspended rules e l outer) l outer

namespace At

variable {s : Scan}

theorem resume (h : At rules e s l outer) :
    s.resume = (s.report ++ (settle rules e (advance rules e l outer)).1,
      (settle rules e (advance rules e l outer)).2) := by
  cases h with
  | ready he =>
    rw [Scan.resume, if_neg he]
    rfl
  | suspended => rfl

theorem of_suspended (h : At rules e s l outer)
    (ha : advance rules e l outer = .suspended l' outer') :
    s.run = (s.report :: (Scan.suspended rules e l' outer').run.1,
        (Scan.suspended rules e l' outer').run.2) ∧
      s.suspensions =
        .suspended rules e l' outer' :: (Scan.suspended rules e l' outer').suspensions := by
  have hr := h.resume
  rw [ha, settle, List.append_nil] at hr
  exact ⟨run_of_suspended hr, suspensions_of_suspended hr⟩

theorem of_finished (h : At rules e s l outer) (ha : advance rules e l outer = .finished ps) :
    s.run = ([s.report ++ Outcome.report e (.ok ps)], .ok ps) ∧ s.suspensions = [] := by
  have hr := h.resume
  rw [ha] at hr
  exact ⟨run_of_finished hr, suspensions_of_finished hr⟩

theorem of_failed (h : At rules e s l outer) (ha : advance rules e l outer = .failed f) :
    s.run = ([s.report ++ Outcome.report e (.error f)], .error f) ∧ s.suspensions = [] := by
  have hr := h.resume
  rw [ha] at hr
  exact ⟨run_of_finished hr, suspensions_of_finished hr⟩

/-- The resumptions report what the suspensions say, and the last one the outcome. -/
theorem run_eq (h : At rules e s l outer) : s.run.1 =
    (s.report :: s.suspensions.map report).modifyLast (· ++ Outcome.report e s.run.2) := by
  induction l, outer using advance_induction (r := rules) (e := e) generalizing s with
  | suspended ha ih =>
    obtain ⟨hrun, hsus⟩ := h.of_suspended ha
    rw [hrun, hsus, List.map_cons, ih (.suspended _ _)]
    exact (List.modifyLast_append_of_right_ne_nil _ [s.report] _ (List.cons_ne_nil _ _)).symm
  | finished ha =>
    obtain ⟨hrun, hsus⟩ := h.of_finished ha
    rw [hrun, hsus]
    rfl
  | failed ha =>
    obtain ⟨hrun, hsus⟩ := h.of_failed ha
    rw [hrun, hsus]
    rfl

/-- What a property that all steps keep says of the suspensions. -/
theorem mem_suspensions {I : Level → List Level → Prop} (h : At rules e s l outer)
    (hI : Kept rules I) (hl : I l outer) {t : Scan} (ht : t ∈ s.suspensions) :
    ∃ l' outer', t = .suspended rules e l' outer' ∧ I l' outer' := by
  induction l, outer using advance_induction (r := rules) (e := e) generalizing s with
  | suspended ha ih =>
    have hl' := hI.advance_meets (e := e) hl
    rw [ha] at hl'
    rw [(h.of_suspended ha).2] at ht
    rcases List.mem_cons.1 ht with rfl | ht
    · exact ⟨_, _, rfl, hl'⟩
    · exact ih (.suspended _ _) hl' ht
  | finished ha =>
    rw [(h.of_finished ha).2] at ht
    cases ht
  | failed ha =>
    rw [(h.of_failed ha).2] at ht
    cases ht

end At

end Scan

/-- Only opening parentheses stand from `a` up to `n`. -/
def Opens (e : List Char) (a n : Nat) : Prop :=
  a ≤ n ∧ ∀ k, a ≤ k → k < n → e[k]? = some '('

/-- The offsets from `a` up to `n` at which something else than an opening parenthesis stands. -/
def pauses (e : List Char) (a n : Nat) : List Nat :=
  (List.Ico a n).filter fun c => e[c]? ≠ some '('

theorem Opens.pauses_eq (h : Opens e a n) : pauses e a n = [] := by
  rw [pauses, List.filter_eq_nil_iff]
  intro k hk
  obtain ⟨hle, hlt⟩ := List.Ico.mem.1 hk
  simpa using h.2 k hle hlt

theorem Opens.cons (h : Opens e (a + 1) n) (ha : e[a]? = some '(') : Opens e a n := by
  refine ⟨Nat.le_of_succ_le h.1, fun k hk hlt => ?_⟩
  rcases Nat.eq_or_lt_of_le hk with rfl | hk
  · exact ha
  · exact h.2 k hk hlt

/-- Where the steps up to the next suspension point lead from the offset `a`: behind one character
that opens nothing, to the end of the expression, or to a parenthesis that cannot be entered. -/
def Advance.LeadsFrom (e : List Char) (a : Nat) : Advance → Prop
  | .suspended l _ => ∃ c, l.offset = c + 1 ∧ Opens e a c ∧ e[c]? ≠ some '('
  | .finished _ => Opens e a e.length
  | .failed f => ∃ n : Nat, f.offset = some ↑n ∧ Opens e a n

theorem Advance.LeadsFrom.cons {adv : Advance} (h : adv.LeadsFrom e (a + 1))
    (ha : e[a]? = some '(') : adv.LeadsFrom e a := by
  cases adv with
  | suspended l outer =>
    obtain ⟨c, hc, ho, hne⟩ := h
    exact ⟨c, hc, ho.cons ha, hne⟩
  | finished ps => exact Opens.cons h ha
  | failed f =>
    obtain ⟨n, hf, ho⟩ := h
    exact ⟨n, hf, ho.cons ha⟩

theorem Stacked.advance_leadsFrom (h : Stacked e l outer) (rules : Rules) :
    (advance rules e l outer).LeadsFrom e l.offset := by
  have hopens (k : Nat) : Opens e k k := ⟨Nat.le_refl k, fun j hj hlt => by omega⟩
  fun_induction advance rules e l outer with
  | case1 l hr =>
    have hend := h.offset_end hr
    rw [hend]
    exact hopens e.length
  | case2 l hr parts m outer =>
    obtain ⟨hc, hm, -⟩ := h.getElem_end hr
    exact ⟨l.offset, hm, hopens _, by simp [hc]⟩
  | case3 l outer rest hk hr => exact ⟨l.offset, rfl, hopens _⟩
  | case4 l outer rest k hk hd hr => exact ⟨l.offset, rfl, hopens _⟩
  | case5 l outer rest k hk hd hr ih => exact (ih (h.enter hr hk)).cons (h.getElem_offset hr)
  | case6 l outer c rest hr hc hw =>
    exact ⟨l.offset, rfl, hopens _, by simpa [h.getElem_offset hr] using hc⟩
  | case7 l outer c rest hr hc hw =>
    exact ⟨l.offset, Level.offset_skip l _, hopens _, by simpa [h.getElem_offset hr] using hc⟩

theorem Opens.pauses_succ (h : Opens e a c) (hc : e[c]? ≠ some '(') (hn : c < n) :
    pauses e a n = c :: pauses e (c + 1) n := by
  rw [pauses, ← List.Ico.append_consecutive h.1 (Nat.le_of_lt hn), List.filter_append]
  rw [show (List.Ico a c).filter _ = [] from h.pauses_eq, List.nil_append, List.Ico.eq_cons hn,
    List.filter_cons_of_pos (by simpa using hc)]
  rfl

namespace Scan

/-- A scan is suspended once behind each character but opening parentheses, from left to right, up
to the offset at which its outcome is decided. -/
theorem At.map_offset {s : Scan} (h : At rules e s l outer) (hl : Stacked e l outer) :
    ∃ n, s.run.2.DecidedAt e n ∧ l.offset ≤ n ∧
      s.suspensions.map offset = (pauses e l.offset n).map (· + 1) := by
  induction l, outer using advance_induction (r := rules) (e := e) generalizing s with
  | suspended ha ih =>
    have hfrom := hl.advance_leadsFrom rules
    have hl' := (Stacked.kept rules e).advance_meets (e := e) hl
    rw [ha] at hfrom hl'
    obtain ⟨c, hc, ho, hne⟩ := hfrom
    obtain ⟨n, hn, hle, hmap⟩ := ih (.suspended _ _) hl'
    obtain ⟨hrun, hsus⟩ := h.of_suspended ha
    rw [hc] at hle hmap
    refine ⟨n, by rw [hrun]; exact hn, by have := ho.1; omega, ?_⟩
    rw [hsus, ho.pauses_succ hne hle, List.map_cons, List.map_cons, hmap, offset, hc]
  | finished ha =>
    have hfrom := hl.advance_leadsFrom rules
    rw [ha] at hfrom
    obtain ⟨hrun, hsus⟩ := h.of_finished ha
    refine ⟨e.length, by rw [hrun]; rfl, hfrom.1, ?_⟩
    rw [hsus, Opens.pauses_eq hfrom]
    rfl
  | failed ha =>
    have hfrom := hl.advance_leadsFrom rules
    rw [ha] at hfrom
    obtain ⟨n, hf, ho⟩ := hfrom
    obtain ⟨hrun, hsus⟩ := h.of_failed ha
    refine ⟨n, by rw [hrun]; exact hf, ho.1, ?_⟩
    rw [hsus, ho.pauses_eq]
    rfl

end Scan

end PartScan
