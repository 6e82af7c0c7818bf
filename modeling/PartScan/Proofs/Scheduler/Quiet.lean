import PartScan.Proofs.Scheduler.Aside

/-! # Quiet moves

A quiet move takes no step of a job: it may ask for cancellations and wake sleepers, but no job
changes its stage and nothing is reported. Each job that has not ended waits for exactly one next
step, in the queue or asleep.
-/

namespace PartScan

/-- The second job is the first one, maybe woken, with another callback or asked to be cancelled. -/
structure Job.Touched (j j' : Job) : Prop where
  expression : j'.expression = j.expression
  stage : j'.stage = j.stage
  cancelRequested : j.cancelRequested = true → j'.cancelRequested = true

namespace Job.Touched

theorem refl (j : Job) : Touched j j := ⟨rfl, rfl, id⟩

theorem trans {j j' j'' : Job} (h : Touched j j') (h' : Touched j' j'') : Touched j j'' :=
  ⟨h'.expression.trans h.expression, h'.stage.trans h.stage,
    h'.cancelRequested ∘ h.cancelRequested⟩

theorem result?_eq {j j' : Job} (h : Touched j j') : j'.result? = j.result? := by
  rw [Job.result?, Job.result?, h.stage]

theorem isFinished_eq {j j' : Job} (h : Touched j j') : j'.isFinished = j.isFinished := by
  rw [Job.isFinished, Job.isFinished, h.result?_eq]

theorem of_bare {j j' : Job} (h : j'.bare = j.bare) : Touched j j' := by
  have he := congrArg Job.expression h
  have hs := congrArg Job.stage h
  have hc := congrArg Job.cancelRequested h
  exact ⟨he, hs, fun hj => hc.trans hj⟩

end Job.Touched

/-- Where the next step of a job is, given how often it stands in the queue and how many timers
will wake the job. -/
def Placing (j? : Option Job) (steps sleepers : Nat) : Prop :=
  match j? with
  | none => steps = 0 ∧ sleepers = 0
  | some j =>
    if j.isFinished then steps = 0 ∧ sleepers = 0
    else if j.asleep then steps = 0 ∧ sleepers ≤ 1
    else steps = 1 ∧ sleepers = 0

theorem placing_map_bare (j? : Option Job) (n k : Nat) :
    Placing (j?.map Job.bare) n k ↔ Placing j? n k := by
  cases j? <;> exact Iff.rfl

namespace Scheduler

/-- A job that has not ended waits for one next step, any other for none. -/
def Placed (s : Scheduler) (i : Nat) : Prop := Placing s.jobs[i]? (s.steps i) (s.sleepers i)

theorem Placed.step {s : Scheduler} {i : Nat} (h : s.Placed i) (hs : 0 < s.steps i) :
    ∃ j, s.jobs[i]? = some j ∧ j.isFinished = false ∧ j.asleep = false ∧ s.steps i = 1 ∧
      s.sleepers i = 0 := by
  rw [Placed] at h
  cases hj : s.jobs[i]? with
  | none =>
    rw [hj] at h
    have := h.1
    omega
  | some j =>
    rw [hj, Placing] at h
    split at h
    · omega
    · split at h
      · omega
      · exact ⟨j, rfl, by simpa using ‹¬ j.isFinished = true›, by simpa using ‹¬ j.asleep = true›,
          h⟩

theorem Placed.sleeper {s : Scheduler} {i : Nat} (h : s.Placed i) (hs : 0 < s.sleepers i) :
    ∃ j, s.jobs[i]? = some j ∧ j.isFinished = false ∧ j.asleep = true ∧ s.steps i = 0 ∧
      s.sleepers i = 1 := by
  rw [Placed] at h
  cases hj : s.jobs[i]? with
  | none =>
    rw [hj] at h
    have := h.2
    omega
  | some j =>
    rw [hj, Placing] at h
    split at h
    · omega
    · split at h
      · exact ⟨j, rfl, by simpa using ‹¬ j.isFinished = true›, ‹_›, h.1, by omega⟩
      · omega

theorem placing_awake {j : Job} (hf : j.isFinished = false) (ha : j.asleep = false) :
    Placing (some j) 1 0 := by
  simp [Placing, hf, ha]

/-- Where one job is replaced, the others keep their places. -/
theorem placed_of_set {s s' : Scheduler} {i : Nat} {j j' : Job} (hj : s.jobs[i]? = some j)
    (hjobs : s'.jobs = s.jobs.set i j')
    (hi : s.Placed i → Placing (some j') (s'.steps i) (s'.sleepers i))
    (hsteps : ∀ k, k ≠ i → s'.steps k = s.steps k)
    (hsleepers : ∀ k, k ≠ i → s'.sleepers k = s.sleepers k) (k : Nat) (hp : s.Placed k) :
    s'.Placed k := by
  rw [Placed, hjobs]
  rcases eq_or_ne k i with rfl | hk
  · rw [List.getElem?_set_self (List.getElem?_eq_some_iff.1 hj).1]
    exact hi hp
  · rw [List.getElem?_set_ne hk.symm, hsteps k hk, hsleepers k hk]
    exact hp

theorem modify_eq_set {α : Type} {l : List α} {i : Nat} {a : α} {f : α → α}
    (h : l[i]? = some a) : l.modify i f = l.set i (f a) := by
  apply List.ext_getElem?
  intro k
  rw [List.getElem?_modify]
  rcases eq_or_ne k i with rfl | hk
  · rw [h, List.getElem?_set_self (List.getElem?_eq_some_iff.1 h).1]
    simp
  · rw [List.getElem?_set_ne hk.symm]
    simp [hk.symm]

section Counts

variable (s : Scheduler) (i : Nat)

theorem steps_post (h : Handle) :
    (s.post h).steps i = s.steps i + if h = .step i then 1 else 0 := by
  by_cases hh : h = .step i <;> simp [steps, post, List.count_append, hh]

theorem sleepers_post (h : Handle) : (s.post h).sleepers i = s.sleepers i := rfl

theorem steps_stopTimer (who : Sleeper) : (s.stopTimer who).steps i = s.steps i := rfl

end Counts

/-- No job takes a step from the first scheduler to the second one. -/
structure Quiet (s s' : Scheduler) : Prop where
  settings : s'.settings = s.settings
  sink : s'.sink = s.sink
  journal : s'.journal = s.journal
  jobs : ∀ i : Nat, Option.Rel Job.Touched s.jobs[i]? s'.jobs[i]?
  placed : ∀ i, s.Placed i → s'.Placed i

theorem rel_touched_refl (j? : Option Job) : Option.Rel Job.Touched j? j? := by
  cases j? with
  | none => exact .none
  | some j => exact .some (.refl j)

theorem rel_touched_trans {a b c : Option Job} (h : Option.Rel Job.Touched a b)
    (h' : Option.Rel Job.Touched b c) : Option.Rel Job.Touched a c := by
  cases h with
  | none =>
    cases h'
    exact .none
  | some h =>
    cases h' with
    | some h' => exact .some (h.trans h')

theorem exists_of_rel_touched {a b : Option Job} {j : Job} (h : Option.Rel Job.Touched a b)
    (ha : a = some j) : ∃ j', b = some j' ∧ Job.Touched j j' := by
  subst ha
  cases h with
  | some h => exact ⟨_, rfl, h⟩

theorem exists_of_touched_rel {a b : Option Job} {j' : Job} (h : Option.Rel Job.Touched a b)
    (hb : b = some j') : ∃ j, a = some j ∧ Job.Touched j j' := by
  subst hb
  cases h with
  | some h => exact ⟨_, rfl, h⟩

theorem none_of_rel_touched {a b : Option Job} (h : Option.Rel Job.Touched a b)
    (hb : b = none) : a = none := by
  subst hb
  cases h
  rfl

theorem map_expression_of_rel {a b : Option Job} (h : Option.Rel Job.Touched a b) :
    b.map Job.expression = a.map Job.expression := by
  cases h with
  | none => rfl
  | some h => exact congrArg some h.expression

theorem rel_touched_of_bare {a b : Option Job} (h : b.map Job.bare = a.map Job.bare) :
    Option.Rel Job.Touched a b := by
  cases a <;> cases b
  · exact .none
  · cases h
  · cases h
  · exact .some (.of_bare (Option.some.inj h))

namespace Quiet

variable {s s' s'' : Scheduler}

theorem refl (s : Scheduler) : Quiet s s :=
  ⟨rfl, rfl, rfl, fun _ => rel_touched_refl _, fun _ => id⟩

theorem trans (h : Quiet s s') (h' : Quiet s' s'') : Quiet s s'' :=
  ⟨h'.settings.trans h.settings, h'.sink.trans h.sink, h'.journal.trans h.journal,
    fun i => rel_touched_trans (h.jobs i) (h'.jobs i), fun i => h'.placed i ∘ h.placed i⟩

theorem foldl {α : Type} {f : Scheduler → α → Scheduler} (h : ∀ s a, Quiet s (f s a))
    (s : Scheduler) (l : List α) : Quiet s (l.foldl f s) := by
  induction l generalizing s with
  | nil => exact refl s
  | cons a l ih => exact (h s a).trans (ih _)

theorem of_aside (h : Aside s s') : Quiet s s' where
  settings := h.settings
  sink := h.sink
  journal := h.journal
  jobs i := rel_touched_of_bare (h.getElem_bare i)
  placed i hp := by
    rw [Placed, ← placing_map_bare] at hp ⊢
    rwa [h.getElem_bare, h.steps, h.sleepers]

/-- A single job is touched, and its next step is where it has to be. -/
theorem replace {i : Nat} {j j' : Job} (hj : s.jobs[i]? = some j) (hset : s'.settings = s.settings)
    (hsink : s'.sink = s.sink) (hjournal : s'.journal = s.journal)
    (hjobs : s'.jobs = s.jobs.set i j') (ht : Job.Touched j j')
    (hi : s.Placed i → Placing (some j') (s'.steps i) (s'.sleepers i))
    (hsteps : ∀ k, k ≠ i → s'.steps k = s.steps k)
    (hsleepers : ∀ k, k ≠ i → s'.sleepers k = s.sleepers k) : Quiet s s' where
  settings := hset
  sink := hsink
  journal := hjournal
  jobs k := by
    rw [hjobs]
    rcases eq_or_ne k i with rfl | hk
    · rw [hj, List.getElem?_set_self (List.getElem?_eq_some_iff.1 hj).1]
      exact .some ht
    · rw [List.getElem?_set_ne hk.symm]
      exact rel_touched_refl _
  placed k hp := placed_of_set hj hjobs (fun h => hi h) hsteps hsleepers k hp

theorem cancelJob {i : Nat} {j : Job} (hj : s.jobs[i]? = some j) :
    Quiet s (s.cancelJob i j).1 := by
  unfold Scheduler.cancelJob
  split
  · exact refl s
  · rename_i hf
    split
    · rename_i ha
      refine replace hj rfl rfl rfl rfl ⟨rfl, rfl, fun _ => rfl⟩ (fun hp => ?_) (fun k hk => ?_)
        fun k hk => ?_
      · rw [Placed, hj, Placing, if_neg hf, if_pos ha] at hp
        have hsteps : (s.setJob i { j with cancelRequested := true, asleep := false }).steps i = 0 :=
          hp.1
        rw [steps_post, steps_stopTimer, sleepers_post, sleepers_stopTimer, hsteps, if_pos rfl,
          if_pos rfl]
        exact placing_awake (Bool.eq_false_iff.2 hf) rfl
      · rw [steps_post, steps_stopTimer, if_neg (by simpa using hk.symm)]
        rfl
      · rw [sleepers_post, sleepers_stopTimer, if_neg (by simpa using hk.symm)]
        rfl
    · rename_i ha
      refine replace hj rfl rfl rfl rfl ⟨rfl, rfl, fun _ => rfl⟩ (fun hp => ?_) (fun _ _ => rfl)
        fun _ _ => rfl
      rw [Placed, hj] at hp
      exact hp

theorem cancel (s : Scheduler) (i : Nat) : Quiet s (s.cancel i).1 := by
  unfold Scheduler.cancel
  split
  · exact refl s
  · exact cancelJob ‹_›

theorem cancelAll (s : Scheduler) : Quiet s s.cancelAll.1 := by
  have hcancel : Quiet s (s.active.foldl (fun s i => (s.cancel i).1) s) :=
    foldl cancel s s.active
  unfold Scheduler.cancelAll
  dsimp only
  split
  · exact hcancel.trans (of_aside (.addCall _ _))
  · have hcall := of_aside (Aside.addCall (s.active.foldl (fun s i => (s.cancel i).1) s)
      { want := .jobs s.active.length })
    exact (hcancel.trans hcall).trans (of_aside (Aside.foldl (fun s i => .gatherJob s _ i) _ _))

theorem elapse (hp : ∀ i, s.Placed i) {t : Timer} (ht : t ∈ s.timers) : Quiet s (s.elapse t) := by
  cases hw : t.sleeper with
  | call c => exact of_aside (.elapse ht hw)
  | job i =>
    have hpos : 0 < s.sleepers i := List.countP_pos_iff.2 ⟨t, ht, by simp [hw]⟩
    obtain ⟨j, hj, hf, ha, hsteps, hsleepers⟩ := (hp i).sleeper hpos
    have herase (k : Nat) := sleepers_erase ht k
    rw [hw] at herase
    simp only [Scheduler.elapse, hw]
    refine replace hj rfl rfl rfl (modify_eq_set hj) ⟨rfl, rfl, id⟩ (fun _ => ?_) (fun k hk => ?_)
      fun k hk => ?_
    · have hzero := herase i
      rw [if_pos rfl, hsleepers] at hzero
      have htimers : (s.timers.erase t).countP (fun u => u.sleeper = .job i) = 0 := by omega
      rw [steps_post, sleepers_post, if_pos rfl]
      show Placing _ (s.steps i + 1) ((s.timers.erase t).countP fun u => u.sleeper = .job i)
      rw [hsteps, htimers]
      exact placing_awake hf rfl
    · rw [steps_post, if_neg (by simpa using hk.symm)]
      rfl
    · rw [sleepers_post, herase k, if_neg (by simpa using hk.symm)]
      rfl

end Quiet

end Scheduler

end PartScan
