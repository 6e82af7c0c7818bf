import PartScan.Proofs.Scheduler.Completion
import PartScan.Proofs.Scheduler.Gather

/-! # Cancelling all jobs

A call that cancels all active jobs returns, and when it does they have all ended and none of them
is active. It does not concern any job that is started later.
-/

namespace PartScan

namespace Scheduler

variable {s s' : Scheduler} {c i k : Nat} {l : List Nat}

theorem Quiet.outcome (h : Quiet s s') (i : Nat) : s'.outcome i = s.outcome i :=
  outcome_of_rel (h.jobs i)

section GatherJob

theorem outcome_gatherJob (s : Scheduler) (c i k : Nat) :
    (s.gatherJob c i).outcome k = s.outcome k :=
  (Quiet.of_aside (.gatherJob s c i)).outcome k

theorem entries_gatherJob (hi : i < s.jobs.length) :
    (s.gatherJob c i).entries c =
      s.entries c ++ if s.outcome i = none then [] else [.gather c] := by
  have hj := List.getElem?_eq_getElem hi
  cases hf : s.jobs[i].isFinished with
  | true =>
    have hout : s.outcome i ≠ none := by
      rw [ne_eq, outcome_eq_none hj]
      simp [hf]
    rw [gatherJob_finished hj hf, entries_post, if_neg hout]
    simp [Handle.call?]
  | false =>
    rw [gatherJob_unfinished hj hf, if_pos ((outcome_eq_none hj).2 hf), List.append_nil]
    rfl

theorem notices_gatherJob (hi : i < s.jobs.length) (k : Nat) :
    (s.gatherJob c i).notices k c =
      s.notices k c ++ if k = i ∧ s.outcome i = none then [.gather c] else [] := by
  have hj := List.getElem?_eq_getElem hi
  cases hf : s.jobs[i].isFinished with
  | true =>
    have hout : s.outcome i ≠ none := by
      rw [ne_eq, outcome_eq_none hj]
      simp [hf]
    rw [gatherJob_finished hj hf, if_neg (fun h => hout h.2), List.append_nil]
    rfl
  | false =>
    rw [gatherJob_unfinished hj hf, notices_addCallback hj rfl]
    simp [(outcome_eq_none hj).2 hf]

theorem behind_gatherJob (ht : Tracked s) (hi : i ∈ s.active) :
    Behind (s.gatherJob c i) i (.gather c) := by
  have hlt := ht.lt hi
  have hj := List.getElem?_eq_getElem hlt
  cases hf : s.jobs[i].isFinished with
  | true =>
    rw [gatherJob_finished hj hf]
    refine ⟨_, hj, by simp [hf], fun _ _ => ?_⟩
    have hmem := (ht.mem_iff hj hf).1 hi
    exact (List.singleton_sublist.2 hmem).append (.refl [_])
  | false =>
    rw [gatherJob_unfinished hj hf]
    exact behind_addCallback hj hf _

/-- All the given jobs are to wake the call. -/
def gatherJobs (s : Scheduler) (c : Nat) (l : List Nat) : Scheduler :=
  l.foldl (fun s i => s.gatherJob c i) s

theorem serves_gatherJobs (s : Scheduler) (c : Nat) (l : List Nat) :
    Serves (· = c) s (s.gatherJobs c l) := by
  refine .foldl (fun s i => ?_) s l
  exact .gatherJob s i rfl

theorem outcome_gatherJobs (s : Scheduler) (c : Nat) (l : List Nat) (k : Nat) :
    (s.gatherJobs c l).outcome k = s.outcome k :=
  (Quiet.of_aside (Aside.foldl (fun s i => .gatherJob s c i) s l)).outcome k

theorem timers_gatherJobs (s : Scheduler) (c : Nat) (l : List Nat) :
    (s.gatherJobs c l).timers = s.timers := by
  induction l generalizing s with
  | nil => rfl
  | cons i l ih =>
    show ((s.gatherJob c i).gatherJobs c l).timers = s.timers
    rw [ih, gatherJob]
    split
    · rfl
    · split <;> rfl

theorem gatherJobs_cons (s : Scheduler) (c i : Nat) (l : List Nat) :
    s.gatherJobs c (i :: l) = (s.gatherJob c i).gatherJobs c l := rfl

theorem mem_active_gatherJob (hl : ∀ k ∈ i :: l, k ∈ s.active) :
    ∀ k ∈ l, k ∈ (s.gatherJob c i).active := by
  intro k hk
  rw [(Serves.gatherJob (P := (· = c)) s i rfl).active]
  exact hl k (List.mem_cons_of_mem i hk)

theorem tracked_gatherJob (ht : Tracked s) (c i : Nat) : Tracked (s.gatherJob c i) :=
  (Serves.gatherJob (P := (· = c)) s i rfl).tracked ht

theorem entries_gatherJobs (ht : Tracked s) (hl : ∀ i ∈ l, i ∈ s.active) :
    (s.gatherJobs c l).entries c =
      s.entries c ++ List.replicate (l.countP fun i => s.outcome i ≠ none) (.gather c) := by
  induction l generalizing s with
  | nil => simp [gatherJobs]
  | cons i l ih =>
    have hi := ht.lt (hl i List.mem_cons_self)
    rw [gatherJobs_cons, ih (tracked_gatherJob ht c i) (mem_active_gatherJob hl),
      entries_gatherJob hi]
    simp only [outcome_gatherJob, List.countP_cons]
    by_cases ho : s.outcome i = none
    · simp [ho]
    · simp [ho, List.replicate_succ]

theorem notices_gatherJobs (ht : Tracked s) (hl : ∀ i ∈ l, i ∈ s.active) (hnodup : l.Nodup)
    (k : Nat) : (s.gatherJobs c l).notices k c =
      s.notices k c ++ if k ∈ l ∧ s.outcome k = none then [.gather c] else [] := by
  induction l generalizing s with
  | nil => simp [gatherJobs]
  | cons i l ih =>
    obtain ⟨hnot, hnodup⟩ := List.nodup_cons.1 hnodup
    have hi := ht.lt (hl i List.mem_cons_self)
    rw [gatherJobs_cons, ih (tracked_gatherJob ht c i) (mem_active_gatherJob hl) hnodup,
      notices_gatherJob hi, outcome_gatherJob]
    rcases eq_or_ne k i with rfl | hk
    · simp [hnot]
    · simp [hk]

theorem behind_gatherJobs (ht : Tracked s) (hl : ∀ i ∈ l, i ∈ s.active) (hi : i ∈ l) :
    Behind (s.gatherJobs c l) i (.gather c) := by
  induction l generalizing s with
  | nil => cases hi
  | cons k l ih =>
    rw [gatherJobs_cons]
    rcases List.mem_cons.1 hi with rfl | hi
    · exact (serves_gatherJobs _ c l).behind (behind_gatherJob ht (hl i List.mem_cons_self))
    · exact ih (tracked_gatherJob ht c k) (mem_active_gatherJob hl) hi

end GatherJob

section Made

theorem cancelAll_nil (h : s.active = []) :
    s.cancelAll = ((s.addCall ⟨.jobs 0, .answered .nothing⟩).1, s.calls.length) := by
  simp [cancelAll, h, addCall]

/-- All active jobs are asked to cancel, and then the call waits for them. -/
theorem cancelAll_ne_nil (h : s.active ≠ []) :
    s.cancelAll = ((((s.moves (s.active.map .cancel)).addCall
      { want := .jobs s.active.length }).1.gatherJobs s.calls.length s.active), s.calls.length) := by
  have hcancels : s.moves (s.active.map .cancel) =
      s.active.foldl (fun s i => (s.cancel i).1) s := by
    rw [moves, List.foldl_map]
    rfl
  have hlength := Serves.length_cancels s s.active
  rw [hcancels]
  simp only [cancelAll, h, if_false, addCall, hlength]
  rfl

/-- A new call that waits for all active jobs. -/
theorem gathers_made (ht : Tracked s) (hu : Unmade s) (hnil : s.active ≠ []) :
    Gathers ((s.addCall { want := .jobs s.active.length }).1.gatherJobs s.calls.length s.active)
      s.calls.length s.active := by
  obtain ⟨hentries, hnotices, -⟩ := hu s.calls.length (Nat.le_refl _)
  generalize hs' : (s.addCall { want := .jobs s.active.length }).1 = s'
  have hcall : s'.calls[s.calls.length]? = some { want := .jobs s.active.length } :=
    hs' ▸ List.getElem?_concat_length
  have hserves : Serves (· = s.calls.length) s s' := hs' ▸ .addCall s _ rfl
  have ht' := hserves.tracked ht
  have hentries' : s'.entries s.calls.length = [] := hs' ▸ hentries
  have hnotices' (i : Nat) : s'.notices i s.calls.length = [] := hs' ▸ hnotices i
  have hl : ∀ i ∈ s.active, i ∈ s'.active := fun i hi => hserves.active ▸ hi
  have hpending : (s'.gatherJobs s.calls.length s.active).pending s.active =
      s'.pending s.active :=
    List.countP_congr fun i _ => by rw [outcome_gatherJobs]
  have hsum : s.active.length =
      (s.active.countP fun i => s'.outcome i ≠ none) + s'.pending s.active := by
    rw [List.length_eq_countP_add_countP fun i => decide (s'.outcome i ≠ none)]
    simp [pending]
  refine .waiting (n := s.active.countP fun i => s'.outcome i ≠ none) ?_ ?_ ?_ (fun i => ?_)
    fun i hi => behind_gatherJobs ht' hl hi
  · rw [hpending, ← hsum, gatherJobs, length_gathers]
    exact hcall
  · rw [hpending, ← hsum]
    exact List.length_pos_of_ne_nil hnil
  · rw [entries_gatherJobs ht' hl, hentries', List.nil_append]
  · rw [notices_gatherJobs ht' hl ht.nodup, hnotices', outcome_gatherJobs, List.nil_append]

theorem gathers_cancelAll (hp : ∀ i, s.Placed i) (ht : Tracked s) (hu : Unmade s) :
    s.cancelAll.2 = s.calls.length ∧ s.cancelAll.1.alarms s.calls.length = 0 ∧
      Gathers s.cancelAll.1 s.calls.length s.active := by
  by_cases hnil : s.active = []
  · obtain ⟨hentries, hnotices, halarms⟩ := hu s.calls.length (Nat.le_refl _)
    rw [cancelAll_nil hnil]
    refine ⟨rfl, halarms, .done List.getElem?_concat_length (.inr ⟨rfl, hentries⟩) hnotices ?_⟩
    simp [hnil]
  · obtain ⟨-, ht', hu'⟩ := moves_induction
      (P := fun s => (∀ i, s.Placed i) ∧ Tracked s ∧ Unmade s)
      (fun s m h => ⟨(moved h.1 m).placed, h.2.1.move h.1 m, h.2.2.move h.1 m⟩) ⟨hp, ht, hu⟩
      (s.active.map .cancel)
    have hcancels : s.moves (s.active.map .cancel) =
        s.active.foldl (fun s i => (s.cancel i).1) s := by
      rw [moves, List.foldl_map]
      rfl
    have hserves : Serves (fun _ => False) s (s.moves (s.active.map .cancel)) := by
      rw [hcancels]
      exact .foldl Serves.cancel s s.active
    have hlength : (s.moves (s.active.map .cancel)).calls.length = s.calls.length := by
      rw [hcancels]
      exact Serves.length_cancels s s.active
    have hmade := gathers_made ht' hu' (hserves.active.symm ▸ hnil)
    obtain ⟨-, -, halarms⟩ := hu' s.calls.length (Nat.le_of_eq hlength)
    rw [cancelAll_ne_nil hnil]
    rw [hserves.active, hlength] at hmade
    refine ⟨rfl, ?_, hmade⟩
    rw [alarms, timers_gatherJobs]
    exact halarms

end Made

theorem Gathers.moves {targets : List Nat} (hp : ∀ i, s.Placed i) (ht : Tracked s)
    (hnodup : targets.Nodup) (ha : s.alarms c = 0) (h : Gathers s c targets) (ms : List Move) :
    Gathers (s.moves ms) c targets := by
  refine (moves_induction (P := fun s => (∀ i, s.Placed i) ∧ Tracked s ∧ s.alarms c = 0 ∧
    Gathers s c targets) ?_ ⟨hp, ht, ha, h⟩ ms).2.2.2
  rintro s m ⟨hp, ht, ha, h⟩
  exact ⟨(moved hp m).placed, ht.move hp m, alarms_move hp h.lt ha m, h.move hp ht hnodup ha m⟩

/-- A job that was granted a cancellation has ended where nothing is left in the queue. -/
theorem Doomed.at_rest (hq : s.queue = []) (hp : s.Placed i) (hh : s.Of i Job.Heeds)
    (hd : s.Doomed i) : s.outcome i ≠ none := by
  obtain ⟨j, hj, ⟨hf, hc⟩ | hr⟩ := hd
  · have hawake : j.asleep = false := (hh j hj hc).resolve_left (by simp [hf])
    have hsteps : s.steps i = 0 := by rw [steps, hq]; rfl
    rw [Placed, hj, Placing, if_neg (by simp [hf]), if_neg (by simp [hawake])] at hp
    omega
  · rw [outcome, hj, Option.bind_some, hr]
    simp

/-- The call is answered unless one of its jobs has not ended or it has an entry in the queue. -/
theorem Gathers.reply {targets : List Nat} (h : Gathers s c targets) :
    s.reply? c = some .nothing ∨ s.reply? c = none ∧
      ((∃ i ∈ targets, s.outcome i = none) ∨ ∃ h ∈ s.queue, h.call? = some c) := by
  have hqueue {h : Handle} {l : List Handle} (he : s.entries c = h :: l) :
      ∃ h ∈ s.queue, h.call? = some c := by
    have hmem : h ∈ s.entries c := he ▸ List.mem_cons_self
    exact ⟨h, (List.mem_filter.1 hmem).1, by simpa using (List.mem_filter.1 hmem).2⟩
  cases h with
  | @waiting n hc hpos he =>
    refine .inr ⟨by simp [reply?, hc], ?_⟩
    cases n with
    | zero =>
      have hcount : 0 < s.pending targets := by omega
      obtain ⟨i, hi, hnone⟩ := List.countP_pos_iff.1 hcount
      exact .inl ⟨i, hi, by simpa using hnone⟩
    | succ n => exact .inr (hqueue he)
  | done hc hs =>
    rcases hs with ⟨rfl, he⟩ | ⟨rfl, -⟩
    · exact .inr ⟨by simp [reply?, hc], .inr (hqueue he)⟩
    · exact .inl (by simp [reply?, hc])

/-- What is so when a call made in `s` that cancels all jobs has returned in `u`: the jobs that were
active are not so any more, those that had not ended have ended cancelled without a further event,
and the others as they had. -/
structure Cleared (s u : Scheduler) : Prop where
  inactive : ∀ i ∈ s.active, i ∉ u.active
  cancelled : ∀ i ∈ s.active, s.outcome i = none →
    u.outcome i = some .cancelled ∧ u.eventsOf i = s.eventsOf i
  kept : ∀ i ∈ s.active, ∀ r, s.outcome i = some r → u.outcome i = some r

/-- What a call made in `s` that cancels all jobs does to a job that is started later, in the moves
that lead to `u`: it does not wait for the job and does not cancel it. -/
structure Spares (s u : Scheduler) (ms : List Move) (k : Nat) : Prop where
  not_awaited : ∀ j, u.jobs[k]? = some j → .gather s.cancelAll.2 ∉ j.callbacks
  not_cancelled : .cancel k ∉ ms → .cancelAll ∉ ms → u.Of k Job.Spared
  placed : u.Placed k
  alone : (∀ before ev, s.sink.refuses before ev = none) → ∀ j, u.jobs[k]? = some j →
    RunsAlone s.settings.rules j.expression j.result? (resumptions k s.cancelAll.1 ms)

section Run

variable (settings : Settings) (sink : Sink) (ms ms' : List Move)

theorem after_cancelAll :
    after settings sink (ms ++ .cancelAll :: ms') =
      (after settings sink ms).cancelAll.1.moves ms' :=
  moves_append _ ms _

theorem gathers_after :
    Gathers ((after settings sink ms).cancelAll.1.moves ms') (after settings sink ms).cancelAll.2
      (after settings sink ms).active := by
  have hp := placed_after settings sink ms
  have ht := tracked_after settings sink ms
  obtain ⟨hc, halarms, hg⟩ := gathers_cancelAll hp ht (unmade_after settings sink ms)
  rw [hc]
  exact hg.moves (moved hp .cancelAll).placed (ht.move hp .cancelAll) ht.nodup halarms ms'

/-- An active job that has not ended is granted a cancellation. -/
theorem doomed_after {i : Nat} (hi : i ∈ (after settings sink ms).active)
    (hnone : (after settings sink ms).outcome i = none) :
    ((after settings sink ms).cancelAll.1.moves ms').Doomed i ∧
      ((after settings sink ms).cancelAll.1.moves ms').eventsOf i =
        (after settings sink ms).eventsOf i := by
  have hp := placed_after settings sink ms
  have hj := List.getElem?_eq_getElem ((tracked_after settings sink ms).lt hi)
  have hf := (outcome_eq_none hj).1 hnone
  exact ⟨((doomed_cancelAll hj hf hi).moves (moved hp .cancelAll).placed ms').1,
    ((cancels hp hj).all hi hf ms').1⟩

theorem kept_after {i : Nat} {r : JobResult} (h : (after settings sink ms).outcome i = some r) :
    ((after settings sink ms).cancelAll.1.moves ms').outcome i = some r := by
  have hp := placed_after settings sink ms
  exact outcome_moves (moved hp .cancelAll).placed (outcome_move hp h .cancelAll) ms'

theorem cleared_after (hr : ((after settings sink ms).cancelAll.1.moves ms').reply?
    (after settings sink ms).cancelAll.2 ≠ none) :
    Cleared (after settings sink ms) ((after settings sink ms).cancelAll.1.moves ms') := by
  cases gathers_after settings sink ms ms' with
  | waiting hc => simp [reply?, hc] at hr
  | done hc hs hn hend =>
    refine ⟨fun i hi => (hend i hi).2.1, ?_, fun i _ r => kept_after settings sink ms ms'⟩
    intro i hi hnone
    obtain ⟨⟨j, hj, hd⟩, hevents⟩ := doomed_after settings sink ms ms' hi hnone
    refine ⟨?_, hevents⟩
    have hout := (hend i hi).2.2
    rcases hd with ⟨hf, -⟩ | hr
    · exact absurd ((outcome_eq_none hj).2 hf) hout
    · rw [outcome, hj, Option.bind_some, hr]

theorem await_after : (((after settings sink ms).cancelAll.1.moves ms').await
    (after settings sink ms).cancelAll.2).2 = some .nothing := by
  generalize hc : (after settings sink ms).cancelAll.2 = c
  obtain ⟨ns, -, hns⟩ := exists_moves_runUntil (fun s => (s.reply? c).isSome)
    ((after settings sink ms).cancelAll.1.moves ms')
  have hstops := runUntil_stops (fun s => (s.reply? c).isSome)
    ((after settings sink ms).cancelAll.1.moves ms')
  rw [await, ← hns]
  rw [← hns, ← moves_append] at hstops
  rw [← moves_append]
  rcases (hc ▸ gathers_after settings sink ms (ms' ++ ns)).reply with hr | ⟨hr, hwhy⟩
  · exact hr
  · rw [hr] at hstops
    have hq := queue_of_turn?_eq_none (hstops.resolve_left (by simp))
    rcases hwhy with ⟨i, hi, hnone⟩ | ⟨h, hmem, -⟩
    · cases ho : (after settings sink ms).outcome i with
      | none =>
        obtain ⟨hd, -⟩ := doomed_after settings sink ms (ms' ++ ns) hi ho
        rw [← after_cancelAll] at hd hq hnone
        exact absurd hnone (hd.at_rest hq (placed_after _ _ _ i) (heeds_after _ _ _ i))
      | some r =>
        rw [kept_after settings sink ms (ms' ++ ns) ho] at hnone
        cases hnone
    · rw [hq] at hmem
      cases hmem

theorem spares_after {k : Nat} (hk : (after settings sink ms).jobs.length ≤ k) :
    Spares (after settings sink ms) ((after settings sink ms).cancelAll.1.moves ms') ms' k := by
  have hp := placed_after settings sink ms
  have ht := tracked_after settings sink ms
  have hnew : (after settings sink ms).cancelAll.1.jobs[k]? = none := by
    have hlength := congrArg List.length (moved hp .cancelAll).expressions
    simp only [Move.started, List.append_nil, List.length_map] at hlength
    exact List.getElem?_eq_none (Nat.le_trans (Nat.le_of_eq hlength) hk)
  constructor
  · intro j hj hmem
    have hnil : ((after settings sink ms).cancelAll.1.moves ms').notices k
        (after settings sink ms).cancelAll.2 = [] := by
      cases gathers_after settings sink ms ms' with
      | waiting _ _ _ hn =>
        rw [hn, if_neg]
        rintro ⟨hmem, -⟩
        exact absurd (ht.lt hmem) (Nat.not_lt.2 hk)
      | done _ _ hn => exact hn k
    rw [notices, hj, Option.map_some, Option.getD_some] at hnil
    have := List.filter_eq_nil_iff.1 hnil _ hmem
    simp [Callback.call?] at this
  · intro hcancel hall
    refine Of.spared_moves ?_ hcancel hall
    intro j hj
    rw [hnew] at hj
    cases hj
  · rw [← after_cancelAll]
    exact placed_after settings sink _ k
  · intro hsink j hj
    rw [sink_after] at hsink
    have htraced := (traced_after settings hsink ms k).move .cancelAll
    have hnil := htraced.absent hnew
    rw [hnil] at htraced
    have hrun := (htraced.moves ms').present j hj
    have hset : (((after settings sink ms).move .cancelAll).moves ms').settings =
        (after settings sink ms).settings := by
      rw [settings_after]
      exact (after_cancelAll settings sink ms ms').symm ▸ settings_after settings sink _
    rw [hset] at hrun
    exact runsAlone_of_jobRun hrun

end Run

/-- In every run a call that cancels all jobs returns. When it does, the jobs that were active at
the call are cleared away; until then one of them has not ended or an entry of the call is in the
queue. Jobs that are started later are spared. -/
theorem cancel_all (settings : Settings) (sink : Sink) (ms ms' : List Move) :
    let s := after settings sink ms
    let u := s.cancelAll.1.moves ms'
    (u.await s.cancelAll.2).2 = some .nothing ∧
      (u.reply? s.cancelAll.2 ≠ none → Cleared s u) ∧
      (u.reply? s.cancelAll.2 = none → (∃ i ∈ s.active, u.outcome i = none) ∨
        ∃ h ∈ u.queue, h.call? = some s.cancelAll.2) ∧
      ∀ k ≥ s.jobs.length, Spares s u ms' k := by
  refine ⟨await_after settings sink ms ms', cleared_after settings sink ms ms', ?_,
    fun k => spares_after settings sink ms ms'⟩
  intro hr
  rcases (gathers_after settings sink ms ms').reply with hr' | ⟨-, hwhy⟩
  · rw [hr] at hr'
    cases hr'
  · exact hwhy

theorem cancel_all_mixed :
    let ms : List Move := [.start ['a'], .start ['b'], .turn, .turn, .turn, .turn, .turn,
      .start ['c']]
    let s := after default default ms
    let u := s.cancelAll.1.moves (.start ['d'] :: List.replicate 11 .turn)
    s.active = [0, 1, 2] ∧
      s.jobs.map Job.result? = [some (.found [⟨.var, 0, 1, ['a']⟩]), none, none] ∧
      u.reply? s.cancelAll.2 = some .nothing ∧ Cleared s u ∧
      ((∃ i ∈ s.active, s.cancelAll.1.outcome i = none) ∨
        ∃ h ∈ s.cancelAll.1.queue, h.call? = some s.cancelAll.2) ∧
      Spares s u (.start ['d'] :: List.replicate 11 .turn) 3 := by
  intro ms s u
  have hall := cancel_all default default ms (.start ['d'] :: List.replicate 11 .turn)
  refine ⟨by decide +kernel, by decide +kernel, by decide +kernel, ?_, ?_, ?_⟩
  · exact hall.2.1 (by decide +kernel)
  · exact (cancel_all default default ms []).2.2.1 (by decide +kernel)
  · exact hall.2.2.2 3 (by decide +kernel)

end Scheduler

end PartScan
