import PartScan.Proofs.Scheduler.Cancellation
import PartScan.Proofs.Scheduler.Service

/-! # Moves beside a call

A move that does not serve a call leaves everything of it, but for the end of a job: then the
callbacks that concern the call come into the queue.
-/

namespace PartScan

namespace Scheduler

variable {s s' : Scheduler} {c i : Nat}

/-- The result of a job, once it has ended. -/
def outcome (s : Scheduler) (i : Nat) : Option JobResult := (s.jobs[i]?).bind Job.result?

theorem outcome_of_rel {s s' : Scheduler} {i : Nat}
    (h : Option.Rel Job.Touched s.jobs[i]? s'.jobs[i]?) : s'.outcome i = s.outcome i := by
  rw [outcome, outcome]
  generalize s.jobs[i]? = a, s'.jobs[i]? = b at h
  cases h with
  | none => rfl
  | some h => exact h.result?_eq

theorem outcome_eq_none {j : Job} (hj : s.jobs[i]? = some j) :
    s.outcome i = none ↔ j.isFinished = false := by
  simp [outcome, hj, Job.isFinished]

/-- Nothing that concerns a call differs between the two schedulers, and no job ends. -/
structure Beside (c : Nat) (s s' : Scheduler) : Prop where
  call : s'.calls[c]? = s.calls[c]?
  entries : s'.entries c = s.entries c
  notices : ∀ i, s'.notices i c = s.notices i c
  alarms : s'.alarms c = s.alarms c
  outcome : ∀ i, s.outcome i = none → s'.outcome i = none

/-- A job ends, and its callbacks that concern a call come into the queue. -/
structure Notified (c i : Nat) (s s' : Scheduler) : Prop where
  call : s'.calls[c]? = s.calls[c]?
  entries : s'.entries c = s.entries c ++ (s.notices i c).map (Callback.handle i)
  notices : ∀ k, s'.notices k c = if k = i then [] else s.notices k c
  alarms : s'.alarms c = s.alarms c
  ended : ∃ r, s'.outcome i = some r
  outcome : ∀ k, k ≠ i → s'.outcome k = s.outcome k

theorem entries_post (s : Scheduler) (h : Handle) (c : Nat) :
    (s.post h).entries c = s.entries c ++ if h.call? = some c then [h] else [] := by
  by_cases hc : h.call? = some c <;> simp [entries, post, hc]

theorem entries_popped {h : Handle} (hq : s.queue.head? = some h) (hc : h.call? = some c) :
    s.entries c = h :: s.popped.entries c := by
  obtain ⟨rest, hrest⟩ := List.head?_eq_some_iff.1 hq
  simp [entries, popped, hrest, hc]

theorem entries_popped_ne {h : Handle} (hq : s.queue.head? = some h) (hc : h.call? ≠ some c) :
    s.popped.entries c = s.entries c := by
  obtain ⟨rest, hrest⟩ := List.head?_eq_some_iff.1 hq
  simp [entries, popped, hrest, hc]

theorem entries_before {m : Move} (hc : ¬ s.served m c) :
    (s.before m).entries c = s.entries c := by
  cases m with
  | turn =>
    cases hq : s.queue.head? with
    | none => simp [before, entries, popped, List.head?_eq_none_iff.1 hq]
    | some h => exact entries_popped_ne hq (by simpa [served, hq] using hc)
  | _ => rfl

theorem notices_before (s : Scheduler) (m : Move) (i c : Nat) :
    (s.before m).notices i c = s.notices i c := by
  cases m <;> rfl

theorem Serves.notices_eq {P : Nat → Prop} (h : Serves P s s') (hc : ¬ P c) (i : Nat) :
    s'.notices i c = s.notices i c := by
  have hrel := h.jobs i
  unfold notices
  generalize s.jobs[i]? = a at hrel ⊢
  generalize s'.jobs[i]? = b at hrel ⊢
  cases hrel with
  | none => rfl
  | some hg =>
    obtain ⟨bs, hbs, -, -, hP⟩ := hg.callbacks
    have hnil : bs.filter (fun b => b.call? = some c) = [] := by
      apply List.filter_eq_nil_iff.2
      intro b hb hbc
      exact hc (hP b hb c (by simpa using hbc))
    simp only [Option.map_some, Option.getD_some, hbs, List.filter_append, hnil, List.append_nil]

theorem Serves.outcome_eq_none {P : Nat → Prop} (h : Serves P s s') (hi : s.outcome i = none) :
    s'.outcome i = none := by
  have hrel := h.jobs i
  unfold outcome at hi ⊢
  generalize s.jobs[i]? = a at hrel hi
  generalize s'.jobs[i]? = b at hrel ⊢
  cases hrel with
  | none => rfl
  | some hg =>
    have hf := hg.isFinished
    rw [Job.isFinished, Job.isFinished] at hf
    rw [Option.bind_some] at hi ⊢
    rw [hi] at hf
    simpa using hf

theorem Serves.beside {P : Nat → Prop} (h : Serves P s s') (hc : ¬ P c) : Beside c s s' where
  call := h.calls c hc
  entries := by
    obtain ⟨hs, hq, -, hP⟩ := h.queue
    have hnil : hs.filter (fun e => e.call? = some c) = [] := by
      apply List.filter_eq_nil_iff.2
      intro e he hec
      exact hc (hP e he c (by simpa using hec))
    rw [Scheduler.entries, hq, List.filter_append, hnil, List.append_nil]
    rfl
  notices := h.notices_eq hc
  alarms := h.alarms c hc
  outcome _ := h.outcome_eq_none

theorem beside_start (s : Scheduler) (e : List Char) (c : Nat) :
    Beside c s (s.move (.start e)) where
  call := rfl
  entries := by simp [Scheduler.entries, Scheduler.move, start, record, post, Handle.call?]
  notices i := by
    show (((s.jobs ++ [({ expression := e } : Job)])[i]?.map Job.callbacks).getD []).filter _ = _
    rw [Scheduler.notices]
    rcases Nat.lt_trichotomy i s.jobs.length with hlt | rfl | hgt
    · rw [List.getElem?_append_left hlt]
    · rw [List.getElem?_concat_length, List.getElem?_eq_none (Nat.le_refl _)]
      rfl
    · rw [List.getElem?_eq_none (l := s.jobs) (Nat.le_of_lt hgt),
        List.getElem?_eq_none (by simp; omega)]
  alarms := rfl
  outcome i hi := by
    show ((s.jobs ++ [({ expression := e } : Job)])[i]?).bind Job.result? = none
    rcases Nat.lt_trichotomy i s.jobs.length with hlt | rfl | hgt
    · rwa [List.getElem?_append_left hlt]
    · rw [List.getElem?_concat_length]
      rfl
    · rw [List.getElem?_eq_none (by simp; omega)]
      rfl

theorem beside_discard (hq : s.queue.head? = some (.discard i)) (c : Nat) :
    Beside c s (s.move .turn) := by
  have hmove : s.move .turn = { s.popped with active := s.active.filter (· ≠ i) } := by
    simp [Scheduler.move, hq, handle, popped]
  rw [hmove]
  exact ⟨rfl, entries_popped_ne hq (by simp [Handle.call?]), fun _ => rfl, rfl, fun _ => id⟩

theorem filter_call?_handle (i c : Nat) (bs : List Callback) :
    (bs.map (Callback.handle i)).filter (fun h => h.call? = some c) =
      (bs.filter fun b => b.call? = some c).map (Callback.handle i) := by
  rw [List.filter_map]
  congr 1
  apply List.filter_congr
  intro b _
  simp

theorem notified_finish {j : Job} {es : List Entry} {r : JobResult}
    (hq : s.queue.head? = some (.step i)) (hj : s.jobs[i]? = some j) (c : Nat) :
    Notified c i s ((s.popped.recordAll es).finish i j r) where
  call := rfl
  entries := by
    have hpopped := entries_popped_ne (c := c) hq (by simp [Handle.call?])
    show (s.popped.queue ++ j.callbacks.map (Callback.handle i)).filter _ = _
    rw [List.filter_append, filter_call?_handle, ← hpopped, Scheduler.notices, hj]
    rfl
  notices k := by
    show ((((s.jobs.set i _)[k]?).map Job.callbacks).getD []).filter _ = _
    rcases eq_or_ne k i with rfl | hk
    · rw [List.getElem?_set_self (List.getElem?_eq_some_iff.1 hj).1, if_pos rfl]
      rfl
    · rw [List.getElem?_set_ne hk.symm, if_neg hk]
      rfl
  alarms := rfl
  ended := by
    refine ⟨r, ?_⟩
    show ((s.jobs.set i _)[i]?).bind Job.result? = some r
    rw [List.getElem?_set_self (List.getElem?_eq_some_iff.1 hj).1]
    rfl
  outcome k hk := by
    show ((s.jobs.set i _)[k]?).bind Job.result? = _
    rw [List.getElem?_set_ne hk.symm]
    rfl

/-- A move that does not serve a call leaves it alone, but for the end of a job. -/
theorem beside_or_notified (hp : ∀ i, s.Placed i) {m : Move} (hc : ¬ s.served m c) :
    Beside c s (s.move m) ∨ ∃ i, Notified c i s (s.move m) := by
  cases acts hp m with
  | starts e => exact .inl (beside_start s e c)
  | drops hq => exact .inl (beside_discard hq c)
  | ends hq hj _ _ hm => exact .inr ⟨_, hm ▸ notified_finish hq hj c⟩
  | serves _ _ h =>
    have hb := h.beside hc
    have hcalls : (s.before m).calls = s.calls := by cases m <;> rfl
    have halarms : (s.before m).alarms c = s.alarms c := by cases m <;> rfl
    have houtcome (i : Nat) : (s.before m).outcome i = s.outcome i := by cases m <;> rfl
    refine .inl ⟨hb.call.trans (by rw [hcalls]), hb.entries.trans (entries_before hc),
      fun i => (hb.notices i).trans (notices_before s m i c), hb.alarms.trans halarms, ?_⟩
    intro i hi
    exact hb.outcome i ((houtcome i).trans hi)

/-- A job that has ended keeps its result. -/
theorem outcome_move (hp : ∀ i, s.Placed i) {r : JobResult} (h : s.outcome i = some r)
    (m : Move) : (s.move m).outcome i = some r := by
  obtain ⟨j, hj, hr⟩ := Option.bind_eq_some_iff.1 h
  rw [outcome]
  cases (moved hp m).effect i with
  | rests _ hrel =>
    obtain ⟨j', hj', ht⟩ := exists_of_rel_touched hrel hj
    rw [hj', Option.bind_some, ht.result?_eq, hr]
  | starts _ hnone => simp [hj] at hnone
  | steps _ hsome _ hres =>
    rw [hj] at hsome
    cases hsome
    have hf := hres.isFinished
    simp [Job.isFinished, hr] at hf

theorem timers_handle (s : Scheduler) {h : Handle} (hc : h.call? = some c) :
    (s.handle h).timers.Sublist s.timers := by
  have hhop (s : Scheduler) (hops : Nat) : (s.hop c hops).timers = s.timers := by
    cases hops <;> rfl
  cases h with
  | step i => cases hc
  | discard i => cases hc
  | wake d hops =>
    cases hc
    simp only [handle]
    split
    · split
      · rw [hhop]
        exact .refl _
      · exact .refl _
    · exact .refl _
  | hop d hops =>
    cases hc
    rw [handle, hhop]
  | gather d =>
    simp only [handle]
    split
    · split <;> exact .refl _
    · exact .refl _
  | caller d =>
    simp only [handle]
    split
    · exact List.filter_sublist
    · exact .refl _

/-- A call that was made is served by a turn, by the end of its timer or by being given up. -/
theorem served_cases {m : Move} (hlt : c < s.calls.length) (hc : s.served m c) :
    (∃ h, m = .turn ∧ s.queue.head? = some h ∧ h.call? = some c ∧
      s.move m = s.popped.handle h) ∨
    (∃ t ∈ s.timers, m = .elapse t ∧ t.sleeper = .call c ∧ s.move m = s.elapse t) ∨
    m = .abandon c := by
  cases m with
  | start e => exact hc.elim
  | cancel k => exact hc.elim
  | cancelAll => exact absurd hc (Nat.ne_of_lt hlt)
  | wait k limit => exact absurd hc (Nat.ne_of_lt hlt)
  | pause => exact absurd hc (Nat.ne_of_lt hlt)
  | abandon d => exact .inr (.inr (congrArg _ hc.1.symm))
  | turn =>
    obtain ⟨h, hq, hh⟩ := Option.bind_eq_some_iff.1 hc
    exact .inl ⟨h, rfl, hq, hh, move_turn hq⟩
  | elapse t => exact .inr (.inl ⟨t, hc.1, rfl, hc.2, if_pos hc.1⟩)

/-- No timer is set for a call after the call was made. -/
theorem alarms_move (hp : ∀ i, s.Placed i) (hlt : c < s.calls.length) (h : s.alarms c = 0)
    (m : Move) : (s.move m).alarms c = 0 := by
  have hsub {s' : Scheduler} (hs : s'.timers.Sublist s.timers) : s'.alarms c = 0 :=
    Nat.le_zero.1 (h ▸ hs.countP_le)
  by_cases hc : s.served m c
  · rcases served_cases hlt hc with ⟨e, -, -, he, hm⟩ | ⟨t, ht, -, hw, -⟩ | rfl
    · rw [hm]
      exact hsub (timers_handle s.popped he)
    · have hpos : 0 < s.alarms c := List.countP_pos_iff.2 ⟨t, ht, by simp [hw]⟩
      omega
    · apply hsub
      rw [move, abandon]
      split
      · exact .refl _
      · split
        · exact List.filter_sublist
        · exact .refl _
        · exact .refl _
        · exact .refl _
  · rcases beside_or_notified hp hc with hb | ⟨i, hb⟩
    · exact hb.alarms.trans h
    · exact hb.alarms.trans h

theorem length_le_move (hp : ∀ i, s.Placed i) (m : Move) :
    s.calls.length ≤ (s.move m).calls.length := by
  cases acts hp m with
  | starts e => exact Nat.le_refl _
  | @drops i hq => simp [move, hq, handle, popped]
  | ends _ _ _ _ hm => exact hm ▸ Nat.le_refl _
  | serves _ _ h =>
    have hcalls : (s.before m).calls = s.calls := by cases m <;> rfl
    exact hcalls ▸ h.length_le

theorem gatherJob_finished {j : Job} (hj : s.jobs[i]? = some j) (hf : j.isFinished = true) :
    s.gatherJob c i = s.post (.gather c) := by
  simp [gatherJob, hj, hf]

theorem gatherJob_unfinished {j : Job} (hj : s.jobs[i]? = some j) (hf : j.isFinished = false) :
    s.gatherJob c i = s.addCallback i (.gather c) := by
  simp [gatherJob, hj, hf]

theorem length_gathers (s : Scheduler) (c : Nat) (l : List Nat) :
    (l.foldl (fun s i => s.gatherJob c i) s).calls = s.calls := by
  induction l generalizing s with
  | nil => rfl
  | cons i l ih =>
    rw [List.foldl_cons, ih, gatherJob]
    split
    · rfl
    · split <;> rfl

theorem length_cancelAll (s : Scheduler) : s.cancelAll.1.calls.length = s.calls.length + 1 := by
  unfold cancelAll
  dsimp only
  split
  · simp [addCall, Serves.length_cancels]
  · simp [length_gathers, addCall, Serves.length_cancels]

theorem length_wait {j : Job} (hj : s.jobs[i]? = some j) (limit : Option Rat) :
    (s.wait i limit).1.calls.length = s.calls.length + 1 := by
  unfold wait
  rw [hj]
  dsimp only
  split
  · simp [addCall]
  · split <;> simp [addCall, post]
  · simp [addCall, addCallback]
  · split
    · simp [addCall, post]
    · simp [addCall, addCallback, setTimer]

theorem wait_unknown (hj : s.jobs[i]? = none) (limit : Option Rat) :
    s.wait i limit = (s, none) := by
  rw [wait, hj]

/-- Nothing that is set up for a call concerns one that is not made yet. -/
def Unmade (s : Scheduler) : Prop :=
  ∀ c, s.calls.length ≤ c → s.entries c = [] ∧ (∀ i, s.notices i c = []) ∧ s.alarms c = 0

theorem Unmade.not_served (hu : Unmade s) (hc : s.calls.length ≤ c) {m : Move}
    (hm : s.move m ≠ s) (hlength : (s.move m).calls.length ≤ c) : ¬ s.served m c := by
  obtain ⟨he, -, ha⟩ := hu c hc
  cases m with
  | start e => exact id
  | cancel i => exact id
  | cancelAll =>
    rintro rfl
    rw [move, length_cancelAll] at hlength
    omega
  | wait i limit =>
    rintro rfl
    cases hj : s.jobs[i]? with
    | none => exact hm (congrArg Prod.fst (wait_unknown hj limit))
    | some j =>
      rw [move, length_wait hj] at hlength
      omega
  | abandon k =>
    rintro ⟨-, hlt⟩
    omega
  | pause =>
    rintro rfl
    have hpause : (s.move .pause).calls.length = s.calls.length + 1 := by
      simp [move, pause, addCall, post]
    omega
  | elapse t =>
    rintro ⟨ht, hw⟩
    have hpos : 0 < s.alarms c := List.countP_pos_iff.2 ⟨t, ht, by simp [hw]⟩
    omega
  | turn =>
    rintro hserved
    obtain ⟨h, hq, hh⟩ := Option.bind_eq_some_iff.1 hserved
    rw [entries_popped hq hh] at he
    cases he

theorem Unmade.move (hp : ∀ i, s.Placed i) (hu : Unmade s) (m : Move) : Unmade (s.move m) := by
  intro c hc
  have hle : s.calls.length ≤ c := Nat.le_trans (length_le_move hp m) hc
  obtain ⟨he, hn, ha⟩ := hu c hle
  by_cases hm : s.move m = s
  · rw [hm]
    exact ⟨he, hn, ha⟩
  · rcases beside_or_notified hp (hu.not_served hle hm hc) with hb | ⟨i, hb⟩
    · exact ⟨hb.entries.trans he, fun i => (hb.notices i).trans (hn i), hb.alarms.trans ha⟩
    · refine ⟨?_, ?_, hb.alarms.trans ha⟩
      · rw [hb.entries, he, hn]
        rfl
      · intro k
        rw [hb.notices, hn, ite_self]

theorem unmade_after (settings : Settings) (sink : Sink) (ms : List Move) :
    Unmade (after settings sink ms) := by
  refine (after_induction (P := fun s => (∀ i, s.Placed i) ∧ Unmade s)
    ⟨placed_initial settings sink, fun _ _ => ⟨rfl, fun _ => rfl, rfl⟩⟩ ?_ ms).2
  rintro s m ⟨hp, hu⟩
  exact ⟨(moved hp m).placed, hu.move hp m⟩

end Scheduler

end PartScan
