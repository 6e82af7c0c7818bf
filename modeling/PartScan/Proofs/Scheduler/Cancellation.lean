import PartScan.Proofs.Scheduler.History

/-! # Cancellations

A cancellation that a job was granted is final: at its next step the job ends cancelled, and until
then and ever after it gives the sink nothing.
-/

namespace PartScan

namespace Scheduler

variable {s s' : Scheduler} {i : Nat} {j j' : Job}

theorem Resumed.isFinished {set : Settings} {sink : Sink} {es : List Entry}
    (h : Resumed set sink i j es j') : j.isFinished = false := by
  have hscan {scan : Scan} (hs : j.scan? set.rules = some scan) : j.isFinished = false := by
    unfold Job.scan? at hs
    split at hs
    · simp [Job.isFinished, Job.result?, *]
    · simp [Job.isFinished, Job.result?, *]
    · cases hs
  have hcreated (hs : j.stage = .created) : j.isFinished = false := by
    simp [Job.isFinished, Job.result?, hs]
  cases h with
  | ends h =>
    cases h with
    | dropped hs => exact hcreated hs
    | cancelled hs => exact hscan hs
    | fault hs => exact hscan hs
    | found hs => exact hscan hs
    | refused hs => exact hscan hs
    | refusedFound hs => exact hscan hs
  | goes h =>
    cases h with
    | deferred hs => exact hcreated hs
    | scanning hs => exact hscan hs

theorem Resumed.of_cancelRequested {set : Settings} {sink : Sink} {es : List Entry}
    (h : Resumed set sink i j es j') (hc : j.cancelRequested = true) :
    es.filterMap Entry.event? = [] ∧ j'.result? = some .cancelled := by
  cases h with
  | ends h hs =>
    rw [Job.result?, hs]
    cases h with
    | dropped => exact ⟨rfl, rfl⟩
    | cancelled => exact ⟨rfl, rfl⟩
    | fault _ hc' => simp [hc] at hc'
    | found _ hc' => simp [hc] at hc'
    | refused _ hc' => simp [hc] at hc'
    | refusedFound _ hc' => simp [hc] at hc'
  | goes h =>
    cases h with
    | deferred _ hc' => simp [hc] at hc'
    | scanning _ hc' => simp [hc] at hc'

/-- The job with the number `i` was granted a cancellation. -/
def Doomed (s : Scheduler) (i : Nat) : Prop :=
  ∃ j, s.jobs[i]? = some j ∧
    (j.isFinished = false ∧ j.cancelRequested = true ∨ j.result? = some .cancelled)

theorem doomed_of_rel (h : Option.Rel Job.Touched s.jobs[i]? s'.jobs[i]?) (hd : s.Doomed i) :
    s'.Doomed i := by
  obtain ⟨j, hj, hd⟩ := hd
  obtain ⟨j', hj', ht⟩ := exists_of_rel_touched h hj
  refine ⟨j', hj', ?_⟩
  rw [ht.isFinished_eq, ht.result?_eq]
  exact hd.imp_left (And.imp_right ht.cancelRequested)

/-- A move leaves a granted cancellation in force and reports nothing of the job. -/
theorem Doomed.move (hp : ∀ k, s.Placed k) (hd : s.Doomed i) (m : Move) :
    (s.move m).Doomed i ∧ (s.move m).eventsOf i = s.eventsOf i := by
  cases (moved hp m).effect i with
  | rests _ hj hds hne => exact ⟨doomed_of_rel hj hd, eventsOf_of_others hds hne⟩
  | starts _ hj =>
    obtain ⟨j, hj', -⟩ := hd
    rw [hj] at hj'
    cases hj'
  | steps _ hj hj' h hds =>
    obtain ⟨j, hsome, hd⟩ := hd
    rw [hj] at hsome
    cases hsome
    rcases hd with ⟨-, hc⟩ | hres
    · obtain ⟨hnil, hcancelled⟩ := h.of_cancelRequested hc
      refine ⟨⟨_, hj', .inr hcancelled⟩, ?_⟩
      rw [eventsOf_of_self hds, hnil, List.append_nil]
    · have hf := h.isFinished
      rw [Job.isFinished, hres] at hf
      cases hf

theorem Doomed.moves (hp : ∀ k, s.Placed k) (hd : s.Doomed i) (ms : List Move) :
    (s.moves ms).Doomed i ∧ (s.moves ms).eventsOf i = s.eventsOf i := by
  induction ms generalizing s with
  | nil => exact ⟨hd, rfl⟩
  | cons m ms ih =>
    obtain ⟨hd', hevents⟩ := hd.move hp m
    obtain ⟨hdoomed, hrest⟩ := ih (moved hp m).placed hd'
    exact ⟨hdoomed, hrest.trans hevents⟩

theorem Doomed.result {r : JobResult} (hd : s.Doomed i) (hj : s.jobs[i]? = some j)
    (hr : j.result? = some r) : r = .cancelled := by
  obtain ⟨j', hj', hd⟩ := hd
  rw [hj] at hj'
  cases hj'
  rcases hd with ⟨hf, -⟩ | hres
  · rw [Job.isFinished, hr] at hf
    cases hf
  · rw [hr] at hres
    exact Option.some.inj hres

theorem cancel_eq (hj : s.jobs[i]? = some j) :
    s.cancel i = ((s.cancelJob i j).1, some (s.cancelJob i j).2) := by
  rw [cancel, hj]

/-- A cancellation is granted unless the job has ended. -/
theorem cancel_granted (hj : s.jobs[i]? = some j) :
    (s.cancel i).2 = some (!j.isFinished) := by
  rw [cancel_eq hj, cancelJob]
  split
  · rename_i hf
    rw [hf]
    rfl
  · rename_i hf
    rw [Bool.eq_false_iff.2 hf]
    split <;> rfl

/-- A cancellation that is not granted changes nothing. -/
theorem cancel_finished (hj : s.jobs[i]? = some j) (hf : j.isFinished = true) :
    (s.cancel i).1 = s := by
  rw [cancel_eq hj, cancelJob, if_pos hf]

theorem doomed_cancel (hj : s.jobs[i]? = some j) (hf : j.isFinished = false) :
    (s.cancel i).1.Doomed i := by
  have hlt := (List.getElem?_eq_some_iff.1 hj).1
  rw [cancel_eq hj, cancelJob, if_neg (by simp [hf])]
  split
  · exact ⟨_, List.getElem?_set_self hlt, .inl ⟨hf, rfl⟩⟩
  · exact ⟨_, List.getElem?_set_self hlt, .inl ⟨hf, rfl⟩⟩

theorem doomed_foldl_cancel (hj : s.jobs[i]? = some j) (hf : j.isFinished = false)
    {targets : List Nat} (hi : i ∈ targets) :
    (targets.foldl (fun s k => (s.cancel k).1) s).Doomed i := by
  induction targets generalizing s j with
  | nil => cases hi
  | cons k targets ih =>
    rw [List.foldl_cons]
    rcases List.mem_cons.1 hi with rfl | hmem
    · exact doomed_of_rel ((Quiet.foldl Quiet.cancel _ targets).jobs i) (doomed_cancel hj hf)
    · obtain ⟨j', hj', ht⟩ := exists_of_rel_touched ((Quiet.cancel s k).jobs i) hj
      exact ih hj' (ht.isFinished_eq.trans hf) hmem

/-- Every active job that has not ended is granted a cancellation when all are cancelled. -/
theorem doomed_cancelAll (hj : s.jobs[i]? = some j) (hf : j.isFinished = false)
    (hi : i ∈ s.active) : s.cancelAll.1.Doomed i := by
  have hd := doomed_foldl_cancel hj hf hi
  unfold cancelAll
  dsimp only
  split
  · exact hd
  · exact doomed_of_rel
      ((Quiet.of_aside (Aside.foldl (fun s k => .gatherJob s _ k) _ s.active)).jobs i) hd

end Scheduler

end PartScan
