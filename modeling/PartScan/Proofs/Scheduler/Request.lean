import PartScan.Proofs.Scheduler.Cancellation

/-! # Requests for cancellation

What every change of a job keeps holds of the job after every move. So a job that is to be
cancelled does not sleep, and one that is never asked to does not end cancelled.
-/

namespace PartScan

/-- A job that is to be cancelled does not sleep until then. -/
def Job.Heeds (j : Job) : Prop :=
  j.cancelRequested = true → j.isFinished = true ∨ j.asleep = false

/-- A job that nobody has asked to cancel. -/
def Job.Spared (j : Job) : Prop := j.cancelRequested = false ∧ j.result? ≠ some .cancelled

namespace Scheduler

variable {s s' : Scheduler} {k : Nat} {m : Move}

/-- What holds of a job with the number `k`, if there is one. -/
def Of (s : Scheduler) (k : Nat) (P : Job → Prop) : Prop := ∀ j, s.jobs[k]? = some j → P j

/-- A property of jobs that a move keeps whatever it does to the job with the number `k`. -/
structure Keeps (set : Settings) (sink : Sink) (k : Nat) (m : Move) (P : Job → Prop) : Prop where
  bare : ∀ j j', j'.bare = j.bare → P j → P j'
  starts : ∀ e, P { expression := e }
  wakes : ∀ j, P j → P { j with asleep := false }
  asked : m = .cancel k ∨ m = .cancelAll → ∀ j, j.isFinished = false → P j →
    P { j with cancelRequested := true, asleep := false }
  ends : ∀ j es r, Ends set sink k j es r → P j →
    P { j with stage := .finished r, callbacks := [] }
  goes : ∀ j es stage asleep, Goes set k j es stage → P j → P { j with stage, asleep }

section Of

variable {P : Job → Prop}

theorem Of.aside (hP : ∀ j j', j'.bare = j.bare → P j → P j') (ha : Aside s s') (h : s.Of k P) :
    s'.Of k P := by
  intro j' hj'
  have hbare := ha.getElem_bare k
  rw [hj'] at hbare
  cases hj : s.jobs[k]? with
  | none =>
    rw [hj] at hbare
    cases hbare
  | some j =>
    rw [hj] at hbare
    exact hP j j' (Option.some.inj hbare) (h j hj)

theorem of_setJob {i : Nat} {j : Job} (j' : Job) (hj : s.jobs[i]? = some j)
    (hjobs : s'.jobs = s.jobs.set i j') (hP : i = k → P j → P j') (h : s.Of k P) : s'.Of k P := by
  intro j₁ hj₁
  rw [hjobs] at hj₁
  rcases eq_or_ne i k with rfl | hne
  · rw [List.getElem?_set_self (List.getElem?_eq_some_iff.1 hj).1] at hj₁
    cases hj₁
    exact hP rfl (h j hj)
  · rw [List.getElem?_set_ne hne] at hj₁
    exact h j₁ hj₁

theorem of_cancel {i : Nat} (hP : i = k → ∀ j, j.isFinished = false → P j →
    P { j with cancelRequested := true, asleep := false }) (h : s.Of k P) :
    (s.cancel i).1.Of k P := by
  cases hj : s.jobs[i]? with
  | none =>
    have hcancel : (s.cancel i).1 = s := by rw [cancel, hj]
    rwa [hcancel]
  | some j =>
    rw [cancel_eq hj]
    dsimp only
    unfold cancelJob
    split
    · exact h
    · rename_i hf
      split
      · exact of_setJob _ hj rfl (fun hk => hP hk j (Bool.eq_false_iff.2 hf)) h
      · rename_i ha
        refine of_setJob _ hj rfl (fun hk hPj => ?_) h
        have hawake : { j with cancelRequested := true } =
            { j with cancelRequested := true, asleep := false } := by
          rw [← Bool.eq_false_iff.2 ha]
        rw [hawake]
        exact hP hk j (Bool.eq_false_iff.2 hf) hPj

theorem of_foldl_cancel (hP : ∀ j, j.isFinished = false → P j →
    P { j with cancelRequested := true, asleep := false }) (targets : List Nat) (h : s.Of k P) :
    (targets.foldl (fun s i => (s.cancel i).1) s).Of k P := by
  induction targets generalizing s with
  | nil => exact h
  | cons i targets ih => exact ih (of_cancel (fun _ => hP) h)

theorem Of.step {i : Nat} {j : Job} (hP : Keeps s.settings s.sink k m P) (hj : s.jobs[i]? = some j)
    (h : s.Of k P) : (s.step i j).Of k P := by
  have hstep := stepped_step s i j
  generalize s.step i j = s' at hstep
  cases hstep with
  | ends he =>
    refine of_setJob _ hj rfl ?_ h
    rintro rfl
    exact hP.ends j _ _ he
  | @goes es stage hg =>
    unfold defer
    split
    · refine of_setJob { j with stage, asleep := true } hj ?_ ?_ h
      · cases (j.delay s.settings).length? <;> rfl
      · rintro rfl
        exact hP.goes j _ _ true hg
    · refine of_setJob { j with stage } hj rfl ?_ h
      rintro rfl
      exact hP.goes j _ _ j.asleep hg
  | idle => exact h

theorem Of.start (hP : ∀ e, P { expression := e }) (e : List Char) (h : s.Of k P) :
    (s.move (.start e)).Of k P := by
  intro j hj
  have hj' : (s.jobs ++ [({ expression := e } : Job)])[k]? = some j := hj
  rcases Nat.lt_trichotomy k s.jobs.length with hlt | rfl | hgt
  · rw [List.getElem?_append_left hlt] at hj'
    exact h j hj'
  · rw [List.getElem?_concat_length] at hj'
    cases hj'
    exact hP e
  · rw [List.getElem?_eq_none (by simp; omega)] at hj'
    cases hj'

theorem Of.elapse {t : Timer} (hP : ∀ j, P j → P { j with asleep := false }) {i : Nat}
    (hw : t.sleeper = .job i) (h : s.Of k P) : (s.elapse t).Of k P := by
  intro j hj
  have hj' : (s.jobs.modify i fun j => { j with asleep := false })[k]? = some j := by
    simpa [Scheduler.elapse, hw, post] using hj
  rw [List.getElem?_modify] at hj'
  cases hs : s.jobs[k]? with
  | none => simp [hs] at hj'
  | some j₀ =>
    by_cases hk : i = k
    · simp [hs, hk] at hj'
      exact hj' ▸ hP j₀ (h j₀ hs)
    · simp [hs, hk] at hj'
      exact hj' ▸ h j₀ hs

/-- What every change of a job keeps, every move keeps. -/
theorem Of.move (hP : Keeps s.settings s.sink k m P) (h : s.Of k P) :
    (s.move m).Of k P := by
  have haside {s' : Scheduler} (ha : Aside s s') : s'.Of k P := h.aside hP.bare ha
  cases m with
  | start e => exact h.start hP.starts e
  | cancel i =>
    refine of_cancel ?_ h
    rintro rfl
    exact hP.asked (.inl rfl)
  | cancelAll =>
    have hcancels := of_foldl_cancel (hP.asked (.inr rfl)) s.active h
    rw [Scheduler.move, cancelAll]
    dsimp only
    split
    · exact hcancels
    · exact hcancels.aside hP.bare ((Aside.addCall _ _).trans
        (Aside.foldl (fun s i => .gatherJob s _ i) _ s.active))
  | wait i limit => exact haside (.wait s i limit)
  | abandon c => exact haside (.abandon s c)
  | pause => exact haside (.pause s)
  | elapse t =>
    rw [Scheduler.move]
    split
    · rename_i ht
      cases hw : t.sleeper with
      | call c => exact haside (.elapse ht hw)
      | job i => exact h.elapse hP.wakes hw
    · exact h
  | turn =>
    rcases s.step_or_aside with ⟨i, hq⟩ | ⟨-, ha⟩
    · cases hj : s.jobs[i]? with
      | none =>
        have hget : s.popped.jobs[i]? = none := hj
        rw [move_turn hq]
        simp only [handle, hget]
        exact h
      | some j =>
        rw [move_step hq hj]
        exact Of.step (s := s.popped) hP hj h
    · exact haside ha

end Of

theorem keeps_heeds (set : Settings) (sink : Sink) (k : Nat) (m : Move) :
    Keeps set sink k m Job.Heeds where
  bare j j' h hj hc := by
    have hreq := congrArg Job.cancelRequested h
    have hasleep := congrArg Job.asleep h
    rw [(Job.Touched.of_bare h).isFinished_eq]
    exact (hj (hreq.symm.trans hc)).imp_right hasleep.trans
  starts e hc := by cases hc
  wakes j hj hc := .inr rfl
  asked _ j hf hj hc := .inr rfl
  ends j es r h hj hc := .inl rfl
  goes j es stage asleep h hj hc := by
    cases h with
    | deferred _ hfalse => exact absurd hc (by simp [hfalse])
    | scanning _ hfalse => exact absurd hc (by simp [hfalse])

theorem keeps_spared (set : Settings) (sink : Sink) {k : Nat} {m : Move} (hk : m ≠ .cancel k)
    (hall : m ≠ .cancelAll) : Keeps set sink k m Job.Spared where
  bare j j' h hj := by
    have hreq := congrArg Job.cancelRequested h
    exact ⟨hreq.trans hj.1, (Job.Touched.of_bare h).result?_eq ▸ hj.2⟩
  starts e := ⟨rfl, by simp [Job.result?]⟩
  wakes j hj := hj
  asked h := by
    rcases h with h | h
    · exact absurd h hk
    · exact absurd h hall
  ends j es r h hj := by
    refine ⟨hj.1, ?_⟩
    rintro hr
    cases hr
    cases h with
    | dropped _ hc => exact absurd hj.1 (by simp [hc])
    | cancelled _ hc => exact absurd hj.1 (by simp [hc])
  goes j es stage asleep h hj := by
    refine ⟨hj.1, ?_⟩
    cases h <;> simp [Job.result?]

theorem heeds_after (settings : Settings) (sink : Sink) (ms : List Move) (k : Nat) :
    (after settings sink ms).Of k Job.Heeds := by
  refine after_induction (P := fun s => s.Of k Job.Heeds) ?_ ?_ ms
  · intro j hj
    cases hj
  · intro s m h
    exact h.move (keeps_heeds s.settings s.sink k m)

/-- A job that nobody asks to cancel in a run stays spared. -/
theorem Of.spared_moves (h : s.Of k Job.Spared) {ms : List Move} (hk : .cancel k ∉ ms)
    (hall : .cancelAll ∉ ms) : (s.moves ms).Of k Job.Spared := by
  induction ms generalizing s with
  | nil => exact h
  | cons m ms ih =>
    refine ih (h.move (keeps_spared _ _ ?_ ?_)) (hk ∘ List.mem_cons_of_mem m)
      (hall ∘ List.mem_cons_of_mem m)
    · rintro rfl
      exact hk List.mem_cons_self
    · rintro rfl
      exact hall List.mem_cons_self

end Scheduler

end PartScan
