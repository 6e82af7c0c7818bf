import Mathlib.Data.List.Basic
import PartScan.Proofs.Scheduler.Move

/-! # Moves beside the jobs

Calls that wait, and the queue entries and timers that wake them, change nothing that a job sees:
not the jobs themselves up to their callbacks, not the journal, not when a job has its next step.
-/

namespace PartScan

def Job.bare (j : Job) : Job := { j with callbacks := [] }

namespace Scheduler

/-- How often the next step of a job stands in the queue. -/
def steps (s : Scheduler) (i : Nat) : Nat := s.queue.count (.step i)

/-- How many timers will wake a job. -/
def sleepers (s : Scheduler) (i : Nat) : Nat := s.timers.countP fun t => t.sleeper = .job i

theorem sleepers_stopTimer (s : Scheduler) (w : Sleeper) (i : Nat) :
    (s.stopTimer w).sleepers i = if w = .job i then 0 else s.sleepers i := by
  rw [sleepers, stopTimer, List.countP_filter]
  split
  · rename_i hw
    apply List.countP_eq_zero.2
    rintro t -
    simp [hw]
  · rename_i hw
    apply List.countP_congr
    rintro t -
    simp only [ne_eq, Bool.and_eq_true, decide_eq_true_eq, and_iff_left_iff_imp]
    rintro ht ht'
    exact hw (ht'.symm.trans ht)

theorem sleepers_erase {s : Scheduler} {t : Timer} (ht : t ∈ s.timers) (i : Nat) :
    s.sleepers i = (s.timers.erase t).countP (fun u => u.sleeper = .job i) +
      if t.sleeper = .job i then 1 else 0 := by
  have hperm := (List.perm_cons_erase ht).countP_eq fun u => u.sleeper = .job i
  simpa [sleepers, List.countP_cons] using hperm

/-- The second scheduler differs from the first one in nothing that a job sees. -/
structure Aside (s s' : Scheduler) : Prop where
  settings : s'.settings = s.settings
  sink : s'.sink = s.sink
  journal : s'.journal = s.journal
  jobs : s'.jobs.map Job.bare = s.jobs.map Job.bare
  steps : ∀ i, s'.steps i = s.steps i
  sleepers : ∀ i, s'.sleepers i = s.sleepers i

namespace Aside

variable {s s' s'' : Scheduler}

theorem refl (s : Scheduler) : Aside s s :=
  ⟨rfl, rfl, rfl, rfl, fun _ => rfl, fun _ => rfl⟩

theorem trans (h : Aside s s') (h' : Aside s' s'') : Aside s s'' :=
  ⟨h'.settings.trans h.settings, h'.sink.trans h.sink, h'.journal.trans h.journal,
    h'.jobs.trans h.jobs, fun i => (h'.steps i).trans (h.steps i),
    fun i => (h'.sleepers i).trans (h.sleepers i)⟩

theorem foldl {α : Type} {f : Scheduler → α → Scheduler} (h : ∀ s a, Aside s (f s a))
    (s : Scheduler) (l : List α) : Aside s (l.foldl f s) := by
  induction l generalizing s with
  | nil => exact refl s
  | cons a l ih => exact (h s a).trans (ih _)

theorem post (s : Scheduler) {h : Handle} (hh : ∀ i, h ≠ .step i) : Aside s (s.post h) := by
  refine ⟨rfl, rfl, rfl, rfl, fun i => ?_, fun _ => rfl⟩
  simp [Scheduler.steps, Scheduler.post, List.count_append, hh i]

theorem addCall (s : Scheduler) (c : Call) : Aside s (s.addCall c).1 :=
  ⟨rfl, rfl, rfl, rfl, fun _ => rfl, fun _ => rfl⟩

theorem setCall (s : Scheduler) (i : Nat) (c : Call) : Aside s (s.setCall i c) :=
  ⟨rfl, rfl, rfl, rfl, fun _ => rfl, fun _ => rfl⟩

theorem addCallback (s : Scheduler) (i : Nat) (b : Callback) : Aside s (s.addCallback i b) := by
  refine ⟨rfl, rfl, rfl, ?_, fun _ => rfl, fun _ => rfl⟩
  rw [Scheduler.addCallback]
  apply List.ext_getElem?
  intro k
  rw [List.getElem?_map, List.getElem?_map, List.getElem?_modify]
  cases s.jobs[k]? with
  | none => rfl
  | some j => by_cases h : i = k <;> simp [h, Job.bare]

theorem setTimer (s : Scheduler) (length : Option Rat) (c : Nat) :
    Aside s (s.setTimer length (.call c)) := by
  cases length with
  | none => exact refl s
  | some t =>
    refine ⟨rfl, rfl, rfl, rfl, fun _ => rfl, fun i => ?_⟩
    simp [Scheduler.sleepers, Scheduler.setTimer]

theorem stopTimer (s : Scheduler) (c : Nat) : Aside s (s.stopTimer (.call c)) := by
  refine ⟨rfl, rfl, rfl, rfl, fun _ => rfl, fun i => ?_⟩
  rw [sleepers_stopTimer, if_neg (by simp)]

theorem hop (s : Scheduler) (c hops : Nat) : Aside s (s.hop c hops) := by
  cases hops with
  | zero => exact post s (by simp)
  | succ n => exact post s (by simp)

theorem pause (s : Scheduler) : Aside s s.pause.1 :=
  (addCall s _).trans (post _ (by simp))

theorem gatherJob (s : Scheduler) (c i : Nat) : Aside s (s.gatherJob c i) := by
  unfold Scheduler.gatherJob
  split
  · exact refl s
  · split
    · exact post s (by simp)
    · exact addCallback s i _

theorem wait (s : Scheduler) (i : Nat) (limit : Option Rat) : Aside s (s.wait i limit).1 := by
  unfold Scheduler.wait
  split
  · exact refl s
  · split
    · exact addCall s _
    · split
      · exact addCall s _
      · exact (addCall s _).trans (post _ (by simp))
    · exact (addCall s _).trans (addCallback _ _ _)
    · split
      · exact (addCall s _).trans (post _ (by simp))
      · exact ((addCall s _).trans (addCallback _ _ _)).trans
          (setTimer _ (some _) s.calls.length)

theorem abandon (s : Scheduler) (c : Nat) : Aside s (s.abandon c) := by
  unfold Scheduler.abandon
  split
  · exact refl s
  · split
    · exact ((setCall s _ _).trans (stopTimer _ _)).trans (post _ (by simp))
    · exact setCall s _ _
    · exact setCall s _ _
    · exact refl s

theorem handle (s : Scheduler) {h : Handle} (hh : ∀ i, h ≠ .step i) : Aside s (s.handle h) := by
  cases h with
  | step i => exact absurd rfl (hh i)
  | discard i => exact ⟨rfl, rfl, rfl, rfl, fun _ => rfl, fun _ => rfl⟩
  | wake c hops =>
    simp only [Scheduler.handle]
    split
    · split
      · exact (setCall s _ _).trans (hop _ _ _)
      · exact refl s
    · exact refl s
  | hop c hops => exact hop s c hops
  | gather c =>
    simp only [Scheduler.handle]
    split
    · split
      · exact (setCall s _ _).trans (post _ (by simp))
      · exact setCall s _ _
    · exact refl s
  | caller c =>
    simp only [Scheduler.handle]
    split
    · exact (setCall s _ _).trans (stopTimer _ _)
    · exact refl s

theorem popped {h : Handle} (hq : s.queue.head? = some h) (hh : ∀ i, h ≠ .step i) :
    Aside s s.popped := by
  obtain ⟨rest, hrest⟩ := List.head?_eq_some_iff.1 hq
  refine ⟨rfl, rfl, rfl, rfl, fun i => ?_, fun _ => rfl⟩
  simp [Scheduler.steps, Scheduler.popped, hrest, hh i]

theorem elapse {t : Timer} (ht : t ∈ s.timers) {c : Nat} (hc : t.sleeper = .call c) :
    Aside s (s.elapse t) := by
  have herase : Aside s { s with timers := s.timers.erase t, now := later s.now t.deadline } := by
    refine ⟨rfl, rfl, rfl, rfl, fun _ => rfl, fun i => ?_⟩
    rw [sleepers_erase ht, if_neg (by simp [hc])]
    rfl
  simp only [Scheduler.elapse, hc]
  split
  · split
    · split
      · exact (herase.trans (setCall _ _ _)).trans (post _ (by simp))
      · exact (herase.trans (setCall _ _ _)).trans (post _ (by simp))
    · exact herase
  · exact herase

/-- Up to its callbacks, every job stays. -/
theorem getElem_bare (h : Aside s s') (i : Nat) :
    (s'.jobs[i]?).map Job.bare = (s.jobs[i]?).map Job.bare := by
  rw [← List.getElem?_map, ← List.getElem?_map, h.jobs]

end Aside

/-- A turn takes the next step of a job, or nothing changes that a job sees. -/
theorem step_or_aside (s : Scheduler) :
    (∃ i, s.queue.head? = some (.step i)) ∨
      (∀ i, s.queue.head? ≠ some (.step i)) ∧ Aside s (s.move .turn) := by
  by_cases hstep : ∃ i, s.queue.head? = some (.step i)
  · exact .inl hstep
  · refine .inr ⟨not_exists.1 hstep, ?_⟩
    cases hq : s.queue.head? with
    | none =>
      rw [move_turn_of_nil hq]
      exact .refl s
    | some h =>
      have hne (i : Nat) : h ≠ .step i := by
        rintro rfl
        exact hstep ⟨i, hq⟩
      rw [move_turn hq]
      exact (Aside.popped hq hne).trans (.handle _ hne)

end Scheduler

end PartScan
