import PartScan.Proofs.Scheduler.Answer
import PartScan.Proofs.Scheduler.Lineup

/-! # Extractions

A caller that starts a job and waits for it gets the variables of its expression or their fault,
whatever the scheduler has done before, where delays let no time pass and nothing is cancelled.
-/

namespace PartScan

/-- How a job ends that nobody cancels and whose events are all accepted. -/
def JobResult.ofOutcome : Outcome → JobResult
  | .ok vs => .found vs
  | .error f => .fault f

namespace Scheduler

variable {s : Scheduler} {c i : Nat} {ms : List Move} {e : List Char}

/-- A wait without a timer is never late. -/
theorem not_lapses_of_alarms (hp : ∀ k, s.Placed k) (hlt : c < s.calls.length)
    (ha : s.alarms c = 0) (ms : List Move) : ¬ s.Lapses c i ms := by
  induction ms generalizing s with
  | nil => exact id
  | cons m ms ih =>
    rintro (⟨t, hmem, -, hw, -⟩ | hrest)
    · have hpos : 0 < s.alarms c := List.countP_pos_iff.2 ⟨t, hmem, by simp [hw]⟩
      omega
    · exact ih (moved hp m).placed (Nat.lt_of_lt_of_le hlt (length_le_move hp m))
        (alarms_move hp hlt ha m) hrest

theorem length_jobs_le_moves (hp : ∀ k, s.Placed k) (ms : List Move) :
    s.jobs.length ≤ (s.moves ms).jobs.length := by
  induction ms generalizing s with
  | nil => exact Nat.le_refl _
  | cons m ms ih => exact Nat.le_trans (length_jobs_le_move hp m) (ih (moved hp m).placed)

/-- A job that has not ended has its next step in the queue. -/
theorem Awake.queue_ne_nil (h : Awake s) (hlt : i < s.jobs.length) (hi : s.outcome i = none) :
    s.queue ≠ [] := by
  intro hq
  have hline := (h.mem_line_iff hlt).2 hi
  rw [line, hq] at hline
  cases hline

/-- A wait without a timer that was not given up returns with the result of its job. -/
theorem At.await_result {p : Phase} (h : Awake s) (hat : At s c i p) (ht : Told False False p)
    (ha : s.alarms c = 0) (hlt : i < s.jobs.length) :
    ∃ ms r, (∀ m ∈ ms, Move.isOwn m = true) ∧ s.await c = (s.moves ms, some (.result r)) ∧
      (s.moves ms).outcome i = some r := by
  obtain ⟨ms, hown, hms⟩ := exists_moves_runUntil (fun s => (s.reply? c).isSome) s
  have hawait : s.await c = (s.moves ms, (s.moves ms).reply? c) := by rw [Scheduler.await, hms]
  obtain ⟨p', hat', ht'⟩ := hat.moves h.placed ht ms
  cases hr : (s.moves ms).reply? c with
  | none =>
    have hstops := runUntil_stops (fun s => (s.reply? c).isSome) s
    rw [← hms, hr] at hstops
    have hq := queue_of_turn?_eq_none (hstops.resolve_left Bool.false_ne_true)
    obtain ⟨-, hi⟩ := hat'.at_rest hq hr
    have hend := h.moves fun m hm => Move.cancels_of_isOwn (hown m hm)
    have hlt' := Nat.lt_of_lt_of_le hlt (length_jobs_le_moves h.placed ms)
    exact absurd hq (hend.queue_ne_nil hlt' hi)
  | some reply =>
    have hgiven : .abandon c ∉ ms := fun hmem => Bool.false_ne_true (hown _ hmem)
    have hlapses := not_lapses_of_alarms (i := i) h.placed hat.lt ha ms
    cases hat'.answers ht' hr with
    | result _ ho => exact ⟨ms, _, hown, hr ▸ hawait, ho⟩
    | timeout hl => exact absurd (hl.resolve_left id) hlapses
    | abandoned hg => exact absurd (hg.resolve_left id) hgiven

theorem Traced.result_eq {rs : List (List Event)} {j : Job} {r : JobResult} (h : Traced s i rs)
    (hj : s.jobs[i]? = some j) (hs : j.Spared) (hr : j.result? = some r) :
    r = .ofOutcome (variableParts s.settings.rules j.expression) := by
  have hrun := h.present j hj
  rw [stage_of_result? hr] at hrun
  cases hrun with
  | found hv => rw [hv]; rfl
  | fault hf => rw [hf]; rfl
  | cancelled => exact absurd hr hs.2

theorem extract_eq
    (h : ((s.move (.start e)).wait s.jobs.length none).2 = some c) :
    s.extract e = (s.moves [.start e, .wait s.jobs.length none]).await c := by
  have hwait : (s.start e).1.wait s.jobs.length none =
      (s.moves [.start e, .wait s.jobs.length none], some c) := Prod.ext_iff.2 ⟨rfl, h⟩
  have hstart : (s.start e).2 = s.jobs.length := rfl
  simp only [extract, hstart, hwait]

theorem timers_wait_none (s : Scheduler) (i : Nat) : (s.wait i none).1.timers = s.timers := by
  unfold Scheduler.wait
  split
  · rfl
  · split <;> simp_all [addCall, addCallback]

theorem wait_some (hj : i < s.jobs.length) (limit : Option Rat) :
    ∃ c, (s.wait i limit).2 = some c := by
  unfold Scheduler.wait
  rw [List.getElem?_eq_getElem hj]
  dsimp only
  repeat' split
  all_goals exact ⟨_, rfl⟩

/-- An extraction starts a job and returns with its result. -/
theorem extract_result (h : Awake s) (hu : Unmade (s.move (.start e))) :
    ∃ ms r, (∀ m ∈ ms, Move.isOwn m = true) ∧
      s.extract e = (s.moves (.start e :: .wait s.jobs.length none :: ms), some (.result r)) ∧
      (s.moves (.start e :: .wait s.jobs.length none :: ms)).outcome s.jobs.length = some r := by
  have hlt : s.jobs.length < (s.move (.start e)).jobs.length := by
    simp [move, start, post, record]
  obtain ⟨c, hc⟩ := wait_some hlt none
  have hawake : Awake (s.move (.start e)) := h.move rfl
  have hawake' : Awake (s.moves [.start e, .wait s.jobs.length none]) :=
    hawake.move (m := .wait s.jobs.length none) rfl
  obtain ⟨rfl, p, hat, ht⟩ := at_wait hu hc
  have htold : Told False False p := by
    refine ht.mono (iff_of_false id ?_) Iff.rfl
    rintro ⟨-, t, ht, -⟩
    cases ht
  have halarms : (s.moves [.start e, .wait s.jobs.length none]).alarms s.calls.length = 0 := by
    show List.countP _ ((s.move (.start e)).wait s.jobs.length none).1.timers = 0
    rw [timers_wait_none]
    exact (hu _ (Nat.le_refl _)).2.2
  have hlt' := Nat.lt_of_lt_of_le hlt (length_jobs_le_move hawake.placed (.wait s.jobs.length none))
  obtain ⟨ms, r, hown, hawait, ho⟩ := At.await_result hawake' hat htold halarms hlt'
  exact ⟨ms, r, hown, (extract_eq hc).trans hawait, ho⟩

/-- Where delays let no time pass and nothing is cancelled, an extraction returns what its
expression holds, and the scheduler has cancelled nothing then either. -/
theorem extract_after {settings : Settings} {sink : Sink}
    (hdue : settings.dueTime.isPositive = false) (hstep : settings.stepDelay.isPositive = false)
    (hsink : ∀ before ev, sink.refuses before ev = none) (hms : ∀ m ∈ ms, m.cancels = false)
    (e : List Char) :
    ∃ more, (∀ m ∈ more, Move.cancels m = false) ∧
      (after settings sink ms).extract e = (after settings sink (ms ++ more),
        some (.result (.ofOutcome (variableParts settings.rules e)))) := by
  have hawake : Awake (after settings sink ms) := (awake_initial hdue hstep hsink).moves hms
  have hu : Unmade ((after settings sink ms).move (.start e)) := by
    rw [← after_concat]
    exact unmade_after settings sink _
  obtain ⟨own, r, hown, hextract, ho⟩ := extract_result hawake hu
  let i := (after settings sink ms).jobs.length
  let more := .start e :: .wait i none :: own
  have hmore : ∀ m ∈ more, Move.cancels m = false := by
    intro m hm
    rcases List.mem_cons.1 hm with rfl | hm
    · rfl
    rcases List.mem_cons.1 hm with rfl | hm
    · rfl
    exact Move.cancels_of_isOwn (hown m hm)
  have hafter : (after settings sink ms).moves more = after settings sink (ms ++ more) :=
    (moves_append _ _ _).symm
  rw [hafter] at hextract ho
  obtain ⟨j, hj, hr⟩ := Option.bind_eq_some_iff.1 ho
  have hend : Awake (after settings sink (ms ++ more)) := hafter ▸ hawake.moves hmore
  have hresult := (traced_after settings hsink (ms ++ more) i).result_eq hj (hend.spared i j hj) hr
  have hexpression : j.expression = e := by
    have hall := congrArg (·[i]?) (expressions_after settings sink (ms ++ more))
    rw [List.getElem?_map, hj, List.flatMap_append, ← expressions_after settings sink ms,
      List.getElem?_append_right (by simp [i]), List.length_map, Nat.sub_self] at hall
    exact Option.some.inj hall
  rw [settings_after, hexpression] at hresult
  exact ⟨more, hmore, hresult ▸ hextract⟩

end Scheduler

end PartScan
