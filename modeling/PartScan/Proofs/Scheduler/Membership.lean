import PartScan.Proofs.Scheduler.Answer

/-! # Membership in the active jobs

The active jobs are those that have not ended and those whose end has not had its turn yet. A call
that waits for a job without a time limit has its turn after the job was dropped.
-/

namespace PartScan

namespace Scheduler

variable {s : Scheduler} {c i : Nat} {m : Move}

/-- Each active job is so once, and was started; a job that has not ended is active, and one that
has ended only while the entry that drops it is in the queue. -/
structure ActiveSet (s : Scheduler) : Prop where
  nodup : s.active.Nodup
  started : ∀ i ∈ s.active, i < s.jobs.length
  unfinished : ∀ i j, s.jobs[i]? = some j → j.isFinished = false → i ∈ s.active
  finished : ∀ i j, s.jobs[i]? = some j → j.isFinished = true →
    (i ∈ s.active ↔ .discard i ∈ s.queue)
  at_rest : (∀ j ∈ s.jobs, j.isFinished = true) → s.queue = [] → s.active = []

theorem Tracked.activeSet (h : Tracked s) : ActiveSet s where
  nodup := h.nodup
  started _ := h.lt
  unfinished _ _ hj hf := (h.of_unfinished hj hf).1
  finished _ _ := h.mem_iff
  at_rest hall hq := by
    apply List.eq_nil_iff_forall_not_mem.2
    intro i hi
    have hj := List.getElem?_eq_getElem (h.lt hi)
    have hmem := (h.mem_iff hj (hall _ (List.getElem_mem _))).1 hi
    rw [hq] at hmem
    cases hmem

/-- A call waits for a job without a time limit, and has its turn after the job is dropped. -/
def Held (s : Scheduler) (c i : Nat) : Prop :=
  i ∉ s.active ∨ Behind s i (.wake c 0) ∧ s.alarms c = 0 ∧
    (At s c i .registered ∨ At s c i .notified)

/-- What is to follow the end of a job finds the job dropped. -/
theorem not_active_of_head {h : Handle} {b : Callback} (hb : Behind s i b) (hi : s.outcome i ≠ none)
    (hbc : b.call? = some c) (hq : s.queue.head? = some h) (hh : h.call? = some c)
    (he : s.entries c = [h]) : i ∉ s.active := by
  intro hact
  obtain ⟨j, hj, -, hd⟩ := hb
  have hfin : j.isFinished = true := by
    rw [ne_eq, outcome_eq_none hj] at hi
    simpa using hi
  have hne : s.queue.head? ≠ some (.discard i) := by
    rw [hq]
    rintro ⟨⟩
    cases hh
  have hpair := pair_sublist_tail (hd hfin hact) hne
  -- the entry that is to come after the job is dropped would be a second one
  have hmem : b.handle i ∈ s.popped.entries c :=
    List.mem_filter.2 ⟨hpair.subset (by simp), by simp [hbc]⟩
  rw [entries_popped hq hh] at he
  rw [(List.cons.inj he).2] at hmem
  cases hmem

theorem Held.move (hp : ∀ k, s.Placed k) (ht : Tracked s) (hlt : i < s.jobs.length)
    (h : Held s c i) (hm : m ≠ .abandon c) : Held (s.move m) c i := by
  rcases h with hi | ⟨hb, ha, hat⟩
  · exact .inl (not_active_move hp hlt hi m)
  · have hb' := hb.move hp ht (by simp) m
    rcases hat with hat | hat
    · have ha' := alarms_move hp hat.lt ha m
      obtain ⟨p', hat', hpass⟩ := hat.move hp m
      cases hpass with
      | stays => exact .inr ⟨hb', ha', .inl hat'⟩
      | notifies => exact .inr ⟨hb', ha', .inr hat'⟩
      | expires hx =>
        obtain ⟨t, hmem, -, hw, -⟩ := hx
        have hpos : 0 < s.alarms c := List.countP_pos_iff.2 ⟨t, hmem, by simp [hw]⟩
        omega
      | givesUp he => exact absurd he hm
    · have ha' := alarms_move hp hat.lt ha m
      obtain ⟨p', hat', hpass⟩ := hat.move hp m
      cases hpass with
      | stays => exact .inr ⟨hb', ha', .inr hat'⟩
      | wakes _ hw =>
        rcases hw with ⟨-, hops, hq⟩ | hpos
        · cases hat with
          | @notified hops' r _ hi he =>
            have hhead := entries_popped hq rfl
            rw [he] at hhead
            cases (List.cons.inj hhead).1
            have hend : s.outcome i ≠ none := by simp [hi]
            exact .inl (not_active_move hp hlt (not_active_of_head hb hend rfl hq rfl he) m)
        · omega
      | givesUp he => exact absurd he hm

theorem Held.moves (hp : ∀ k, s.Placed k) (ht : Tracked s) (hlt : i < s.jobs.length)
    (h : Held s c i) {ms : List Move} (hms : .abandon c ∉ ms) : Held (s.moves ms) c i := by
  induction ms generalizing s with
  | nil => exact h
  | cons m ms ih =>
    have hlt' := Nat.lt_of_lt_of_le hlt (length_jobs_le_move hp m)
    refine ih (moved hp m).placed (ht.move hp m) hlt' (h.move hp ht hlt ?_)
      (hms ∘ List.mem_cons_of_mem m)
    rintro rfl
    exact hms List.mem_cons_self

theorem Held.not_active (h : Held s c i) (hr : s.reply? c ≠ none) : i ∉ s.active := by
  rcases h with hi | ⟨-, -, hat | hat⟩
  · exact hi
  · cases hat with
    | registered hc => simp [reply?, hc] at hr
  · cases hat with
    | notified hc => simp [reply?, hc] at hr

/-- A wait without a time limit that is not answered at once waits for the job to be dropped. -/
theorem held_wait (hu : Unmade s) (h : (s.wait i none).2 = some c)
    (hr : (s.wait i none).1.reply? c = none) :
    i < (s.wait i none).1.jobs.length ∧ Held (s.wait i none).1 c i := by
  cases hj : s.jobs[i]? with
  | none =>
    rw [wait_unknown hj] at h
    cases h
  | some j =>
    cases hres : j.result? with
    | some r =>
      rw [wait_answered hj hres (by simp)] at h hr
      cases h
      simp [reply?, addCall] at hr
    | none =>
      have hi : s.outcome i = none := by rw [outcome, hj, Option.bind_some, hres]
      have hnone : (s.wait i none).1.outcome i = none :=
        (Serves.wait (P := (· = s.calls.length)) s i none rfl).outcome_eq_none hi
      obtain ⟨hops, hwait, hzero⟩ := wait_registered hj hres none (by simp)
      obtain rfl := hzero rfl
      rw [hwait] at h hnone ⊢
      cases h
      have hat := at_registered hu hj hnone
      have hf : j.isFinished = false := by rw [Job.isFinished, hres]; rfl
      have hb := behind_addCallback (s := (s.addCall { want := .job i }).1) hj hf
        (.wake s.calls.length 0)
      have hlt : i < ((s.addCall { want := .job i }).1.addCallback i
          (.wake s.calls.length 0)).jobs.length := by
        obtain ⟨j', hj', -⟩ := hb
        exact (List.getElem?_eq_some_iff.1 hj').1
      exact ⟨hlt, .inr ⟨hb, (hu s.calls.length (Nat.le_refl _)).2.2, .inl hat⟩⟩

/-- In every run, the active jobs are those that have not ended and those that are still to be
dropped; a job that was dropped stays so, and a wait without a time limit that is neither answered
at once nor given up is answered after its job was dropped. -/
theorem active_set (settings : Settings) (sink : Sink) (ms : List Move) :
    ActiveSet (after settings sink ms) ∧
      (∀ i < (after settings sink ms).jobs.length, i ∉ (after settings sink ms).active →
        ∀ ms', i ∉ (after settings sink (ms ++ ms')).active) ∧
      ∀ i c, ((after settings sink ms).wait i none).2 = some c →
        ((after settings sink ms).wait i none).1.reply? c = none → ∀ ms', .abandon c ∉ ms' →
          (((after settings sink ms).wait i none).1.moves ms').reply? c ≠ none →
            i ∉ (((after settings sink ms).wait i none).1.moves ms').active := by
  have hp := placed_after settings sink ms
  have ht := tracked_after settings sink ms
  refine ⟨ht.activeSet, ?_, ?_⟩
  · intro i hlt hi ms'
    rw [after, moves_append]
    exact not_active_moves hp hlt hi ms'
  · intro i c hc hr ms' hms hreply
    obtain ⟨hlt, hheld⟩ := held_wait (unmade_after settings sink ms) hc hr
    have hp' : ∀ k, ((after settings sink ms).wait i none).1.Placed k :=
      (moved hp (.wait i none)).placed
    have ht' : Tracked ((after settings sink ms).wait i none).1 := ht.move hp (.wait i none)
    exact (hheld.moves hp' ht' hlt hms).not_active hreply

theorem active_set_wait :
    let s := after default default [.start ['a'], .turn]
    let u := (s.wait 0 none).1.moves [.turn, .turn, .turn, .turn, .turn]
    (s.wait 0 none).2 = some 0 ∧ (s.wait 0 none).1.reply? 0 = none ∧ s.active = [0] ∧
      u.reply? 0 = some (.result (.found [⟨.var, 0, 1, ['a']⟩])) ∧ 0 ∉ u.active ∧
      0 ∉ (after default default ([.start ['a'], .turn, .turn, .turn, .turn] ++
        [.start ['a'], .wait 0 (some 1), .turn])).active := by
  refine ⟨by decide +kernel, by decide +kernel, by decide +kernel, by decide +kernel, ?_, ?_⟩
  · exact (active_set default default [.start ['a'], .turn]).2.2 0 0 (by decide +kernel)
      (by decide +kernel) _ (by simp) (by decide +kernel)
  · exact (active_set default default [.start ['a'], .turn, .turn, .turn, .turn]).2.1 0
      (by decide +kernel) (by decide +kernel) _

end Scheduler

end PartScan
