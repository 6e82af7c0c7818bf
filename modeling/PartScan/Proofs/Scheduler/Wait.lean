import PartScan.Proofs.Scheduler.Active
import PartScan.Proofs.Scheduler.Calls

/-! # Waits

A wait is registered with its job and notified at the end of the job. From its notification, its
time limit or its abandonment on it is due: its reply is settled, and it will be answered at its
turn.
-/

namespace PartScan

/-- Whether an entry of the queue is a step of the return of a call. -/
def Handle.isReturn : Handle → Bool
  | .hop .. | .caller _ => true
  | _ => false

/-- How far a wait has come. -/
inductive Phase where
  | registered
  | notified
  | due (reply : Reply)

namespace Scheduler

variable {s s' : Scheduler} {c i : Nat} {m : Move} {p p' : Phase}

/-- How many entries of the queue are steps of the return of a call. -/
def returns (s : Scheduler) (c : Nat) : Nat := (s.entries c).countP Handle.isReturn

/-- The call with the number `c`, a wait for the job with the number `i`, has come to a phase. -/
inductive At (s : Scheduler) (c i : Nat) : Phase → Prop
  | registered {hops : Nat} (hc : s.calls[c]? = some { want := .job i })
      (hi : s.outcome i = none) (he : s.entries c = [])
      (hn : ∀ k, s.notices k c = if k = i then [.wake c hops] else []) : At s c i .registered
  | notified {hops : Nat} {r : JobResult} (hc : s.calls[c]? = some { want := .job i })
      (hi : s.outcome i = some r) (he : s.entries c = [.wake c hops])
      (hn : ∀ k, s.notices k c = []) : At s c i .notified
  | returning {state : CallState} {reply : Reply} (hc : s.calls[c]? = some ⟨.job i, state⟩)
      (hs : state = .woken ∨ state = .expired ∨ state = .abandoned) (he : s.returns c = 1)
      (hr : s.reply ⟨.job i, state⟩ = reply) (hne : reply ≠ .nothing) : At s c i (.due reply)
  | answered {reply : Reply} (hc : s.calls[c]? = some ⟨.job i, .answered reply⟩)
      (he : s.returns c = 0) (hr : ∀ r, reply = .result r → s.outcome i = some r)
      (hne : reply ≠ .nothing) : At s c i (.due reply)

theorem reply_woken {r : JobResult} (h : s.outcome i = some r) :
    s.reply ⟨.job i, .woken⟩ = .result r := by
  have h' : (s.jobs[i]?).bind Job.result? = some r := h
  simp [reply, h']

theorem outcome_of_reply {state : CallState} {r : JobResult}
    (hs : state = .woken ∨ state = .expired ∨ state = .abandoned)
    (h : s.reply ⟨.job i, state⟩ = .result r) : s.outcome i = some r := by
  rcases hs with rfl | rfl | rfl
  · cases ho : s.outcome i with
    | none =>
      have ho' : (s.jobs[i]?).bind Job.result? = none := ho
      simp [reply, ho'] at h
    | some r' =>
      rw [reply_woken ho] at h
      cases h
      rfl
  · cases h
  · cases h

/-- A settled reply stays. -/
theorem reply_congr {state : CallState}
    (hs : state = .woken ∨ state = .expired ∨ state = .abandoned)
    (hi : ∀ r, s.outcome i = some r → s'.outcome i = some r)
    (hne : s.reply ⟨.job i, state⟩ ≠ .nothing) :
    s'.reply ⟨.job i, state⟩ = s.reply ⟨.job i, state⟩ := by
  rcases hs with rfl | rfl | rfl
  · cases ho : s.outcome i with
    | none =>
      have ho' : (s.jobs[i]?).bind Job.result? = none := ho
      exact absurd (by simp [reply, ho']) hne
    | some r => rw [reply_woken ho, reply_woken (hi r ho)]
  · rfl
  · rfl

theorem At.woken {r : JobResult} (hc : s.calls[c]? = some ⟨.job i, .woken⟩)
    (he : s.returns c = 1) (hi : s.outcome i = some r) : At s c i (.due (.result r)) :=
  .returning hc (.inl rfl) he (reply_woken hi) (by simp)

theorem At.expired (hc : s.calls[c]? = some ⟨.job i, .expired⟩) (he : s.returns c = 1) :
    At s c i (.due .timeout) :=
  .returning hc (.inr (.inl rfl)) he rfl (by simp)

theorem At.abandoned (hc : s.calls[c]? = some ⟨.job i, .abandoned⟩) (he : s.returns c = 1) :
    At s c i (.due .abandoned) :=
  .returning hc (.inr (.inr rfl)) he rfl (by simp)

theorem returns_post (s : Scheduler) (h : Handle) (c : Nat) :
    (s.post h).returns c =
      s.returns c + if h.call? = some c ∧ h.isReturn = true then 1 else 0 := by
  rw [returns, entries_post, List.countP_append, ← returns]
  by_cases hc : h.call? = some c
  · by_cases hr : h.isReturn = true <;> simp [hc, hr]
  · simp [hc]

theorem returns_hop (s : Scheduler) (c hops : Nat) :
    (s.hop c hops).returns c = s.returns c + 1 := by
  cases hops <;> simp [hop, returns_post, Handle.call?, Handle.isReturn]

theorem returns_popped {h : Handle} (hq : s.queue.head? = some h) (hc : h.call? = some c) :
    s.returns c = s.popped.returns c + if h.isReturn = true then 1 else 0 := by
  rw [returns, entries_popped hq hc, List.countP_cons]
  rfl

theorem countP_isReturn_handle (i : Nat) (bs : List Callback) :
    (bs.map (Callback.handle i)).countP Handle.isReturn = 0 := by
  apply List.countP_eq_zero.2
  intro h hmem
  obtain ⟨b, -, rfl⟩ := List.mem_map.1 hmem
  cases b <;> simp [Callback.handle, Handle.isReturn]

theorem calls_setCall {call call' : Call} (h : s.calls[c]? = some call) :
    (s.setCall c call').calls[c]? = some call' :=
  List.getElem?_set_self (List.getElem?_eq_some_iff.1 h).1

/-- Whether a move lets the time limit of a wait pass while the job has not ended. -/
def Expires (s : Scheduler) (c i : Nat) (m : Move) : Prop :=
  ∃ t ∈ s.timers, m = .elapse t ∧ t.sleeper = .call c ∧ s.outcome i = none

/-- The phases to which a move can lead a wait. -/
inductive Passes (s : Scheduler) (c i : Nat) (m : Move) : Phase → Phase → Prop
  | stays {p : Phase} (hc : ¬ s.served m c) : Passes s c i m p p
  | notifies (hc : ¬ s.served m c) : Passes s c i m .registered .notified
  | wakes {r : JobResult} (hi : s.outcome i = some r)
      (hm : (m = .turn ∧ ∃ hops, s.queue.head? = some (.wake c hops)) ∨ 0 < s.alarms c) :
      Passes s c i m .notified (.due (.result r))
  | expires (hx : s.Expires c i m) : Passes s c i m .registered (.due .timeout)
  | givesUp {p : Phase} (hm : m = .abandon c) : Passes s c i m p (.due .abandoned)
  | keeps {r : Reply} (hx : s.Expires c i m → r = .timeout ∨ r = .abandoned) :
      Passes s c i m (.due r) (.due r)

theorem Passes.keeps_turn {r : Reply} : Passes s c i .turn (.due r) (.due r) := by
  refine .keeps ?_
  rintro ⟨t, -, ht, -⟩
  cases ht

theorem At.beside (hm : ∀ r, s.outcome i = some r → s'.outcome i = some r) (hb : Beside c s s')
    (h : At s c i p) : At s' c i p := by
  have hreturns : s'.returns c = s.returns c := congrArg _ hb.entries
  cases h with
  | registered hc hi he hn =>
    exact .registered (hb.call.trans hc) (hb.outcome i hi) (hb.entries.trans he)
      fun k => (hb.notices k).trans (hn k)
  | notified hc hi he hn =>
    exact .notified (hb.call.trans hc) (hm _ hi) (hb.entries.trans he)
      fun k => (hb.notices k).trans (hn k)
  | returning hc hs he hr hne =>
    exact .returning (hb.call.trans hc) hs (hreturns.trans he)
      ((reply_congr hs hm (hr.symm ▸ hne)).trans hr) hne
  | answered hc he hr hne =>
    exact .answered (hb.call.trans hc) (hreturns.trans he) (fun r h => hm r (hr r h)) hne

theorem At.notified_by {k : Nat} (hm : ∀ r, s.outcome i = some r → s'.outcome i = some r)
    (hb : Notified c k s s') (hserved : ¬ s.served m c) (h : At s c i p) :
    ∃ p', At s' c i p' ∧ Passes s c i m p p' := by
  have hreturns : s'.returns c = s.returns c := by
    rw [returns, hb.entries, List.countP_append, countP_isReturn_handle]
    rfl
  cases h with
  | @registered hops hc hi he hn =>
    have hentries : s'.entries c = if k = i then [.wake c hops] else [] := by
      rw [hb.entries, he, hn]
      split <;> rfl
    rcases eq_or_ne k i with rfl | hk
    · obtain ⟨r, hr⟩ := hb.ended
      rw [if_pos rfl] at hentries
      have hnotices (l : Nat) : s'.notices l c = [] := by
        rw [hb.notices, hn]
        split <;> rfl
      exact ⟨.notified, .notified (hb.call.trans hc) hr hentries hnotices, .notifies hserved⟩
    · rw [if_neg hk] at hentries
      have hnotices (l : Nat) : s'.notices l c = if l = i then [.wake c hops] else [] := by
        rw [hb.notices, hn]
        split
        · rename_i hl
          rw [hl, if_neg hk]
        · rfl
      exact ⟨.registered, .registered (hb.call.trans hc) ((hb.outcome i hk.symm).trans hi) hentries
        hnotices, .stays hserved⟩
  | @notified hops r hc hi he hn =>
    have hentries : s'.entries c = [.wake c hops] := by
      rw [hb.entries, he, hn]
      rfl
    have hnotices (l : Nat) : s'.notices l c = [] := by rw [hb.notices, hn, ite_self]
    exact ⟨.notified, .notified (hb.call.trans hc) (hm _ hi) hentries hnotices, .stays hserved⟩
  | returning hc hs he hr hne =>
    exact ⟨_, .returning (hb.call.trans hc) hs (hreturns.trans he)
      ((reply_congr hs hm (hr.symm ▸ hne)).trans hr) hne, .stays hserved⟩
  | answered hc he hr hne =>
    exact ⟨_, .answered (hb.call.trans hc) (hreturns.trans he) (fun r h => hm r (hr r h)) hne,
      .stays hserved⟩

section Turn

variable {h : Handle} {state : CallState} {reply : Reply}

theorem handle_wake {want : Want} (hc : s.calls[c]? = some { want }) (hops : Nat) :
    s.handle (.wake c hops) = (s.setCall c ⟨want, .woken⟩).hop c hops := by
  simp [handle, hc]

theorem handle_wake_of_ne {call : Call} (hc : s.calls[c]? = some call)
    (hs : call.state ≠ .waiting) (hops : Nat) : s.handle (.wake c hops) = s := by
  simp [handle, hc, hs]

theorem handle_gather_of_job (hc : s.calls[c]? = some ⟨.job i, state⟩) :
    s.handle (.gather c) = s := by
  simp [handle, hc]

theorem handle_caller {call : Call} (hc : s.calls[c]? = some call) :
    s.handle (.caller c) =
      (s.setCall c { call with state := .answered (s.reply call) }).stopTimer (.call c) := by
  simp [handle, hc]

theorem At.turn_notified {hops : Nat} {r : JobResult} (hc : s.calls[c]? = some { want := .job i })
    (hi : s.outcome i = some r) (hzero : s.popped.returns c = 0) :
    At (s.popped.handle (.wake c hops)) c i (.due (.result r)) := by
  have hcall : s.popped.calls[c]? = some { want := .job i } := hc
  rw [handle_wake hcall]
  refine At.woken ?_ ((returns_hop _ c hops).trans (congrArg (· + 1) hzero)) ?_
  · cases hops <;> exact calls_setCall hcall
  · cases hops <;> exact hi

theorem At.turn_returning (hq : s.queue.head? = some h) (hh : h.call? = some c)
    (hc : s.calls[c]? = some ⟨.job i, state⟩)
    (hs : state = .woken ∨ state = .expired ∨ state = .abandoned) (he : s.returns c = 1)
    (hr : s.reply ⟨.job i, state⟩ = reply) (hne : reply ≠ .nothing) :
    At (s.popped.handle h) c i (.due reply) := by
  have hcall : s.popped.calls[c]? = some ⟨.job i, state⟩ := hc
  have hreturns := returns_popped hq hh
  rw [he] at hreturns
  cases h with
  | step k => cases hh
  | discard k => cases hh
  | wake d hops =>
    cases hh
    have hw : state ≠ .waiting := by rcases hs with rfl | rfl | rfl <;> simp
    rw [handle_wake_of_ne hcall hw]
    exact .returning hcall hs hreturns.symm hr hne
  | gather d =>
    cases hh
    rw [handle_gather_of_job hcall]
    exact .returning hcall hs hreturns.symm hr hne
  | hop d hops =>
    cases hh
    have hzero : s.popped.returns c = 0 := by simpa [Handle.isReturn] using hreturns.symm
    have hone : (s.popped.hop c hops).returns c = 1 :=
      (returns_hop _ c hops).trans (congrArg (· + 1) hzero)
    cases hops with
    | zero => exact .returning hcall hs hone hr hne
    | succ n => exact .returning hcall hs hone hr hne
  | caller d =>
    cases hh
    have hzero : s.popped.returns c = 0 := by simpa [Handle.isReturn] using hreturns.symm
    have hreply : s.popped.reply ⟨.job i, state⟩ = reply := hr
    rw [handle_caller hcall, hreply]
    refine .answered (calls_setCall hcall) hzero ?_ hne
    rintro r rfl
    exact outcome_of_reply hs hr

theorem At.turn_answered (hq : s.queue.head? = some h) (hh : h.call? = some c)
    (hc : s.calls[c]? = some ⟨.job i, .answered reply⟩) (he : s.returns c = 0)
    (hr : ∀ r, reply = .result r → s.outcome i = some r) (hne : reply ≠ .nothing) :
    At (s.popped.handle h) c i (.due reply) := by
  have hcall : s.popped.calls[c]? = some ⟨.job i, .answered reply⟩ := hc
  have hreturns := returns_popped hq hh
  rw [he] at hreturns
  cases h with
  | step k => cases hh
  | discard k => cases hh
  | wake d hops =>
    cases hh
    rw [handle_wake_of_ne hcall (by simp)]
    exact .answered hcall hreturns.symm hr hne
  | gather d =>
    cases hh
    rw [handle_gather_of_job hcall]
    exact .answered hcall hreturns.symm hr hne
  | hop d hops => simp [Handle.isReturn] at hreturns
  | caller d => simp [Handle.isReturn] at hreturns

/-- A turn of an entry that concerns a wait. -/
theorem At.turn (hq : s.queue.head? = some h) (hh : h.call? = some c) (hat : At s c i p) :
    ∃ p', At (s.popped.handle h) c i p' ∧ Passes s c i .turn p p' := by
  have hentries := entries_popped hq hh
  cases hat with
  | registered _ _ he =>
    rw [he] at hentries
    cases hentries
  | @notified hops r hc hi he hn =>
    rw [he] at hentries
    obtain ⟨rfl, hnil⟩ := List.cons.inj hentries
    have hzero : s.popped.returns c = 0 := by rw [returns, ← hnil]; rfl
    exact ⟨_, .turn_notified hc hi hzero, .wakes hi (.inl ⟨rfl, hops, hq⟩)⟩
  | returning hc hs he hr hne => exact ⟨_, .turn_returning hq hh hc hs he hr hne, .keeps_turn⟩
  | answered hc he hr hne => exact ⟨_, .turn_answered hq hh hc he hr hne, .keeps_turn⟩

end Turn

/-- The timer is off. -/
def rung (s : Scheduler) (t : Timer) : Scheduler :=
  { s with timers := s.timers.erase t, now := later s.now t.deadline }

/-- Only a reply that does not tell the outcome of the job is due while the job goes on. -/
theorem Expires.reply {reply : Reply} (hx : s.Expires c i m)
    (hr : ∀ r, reply = .result r → s.outcome i = some r) (hne : reply ≠ .nothing) :
    reply = .timeout ∨ reply = .abandoned := by
  obtain ⟨-, -, -, -, hnone⟩ := hx
  cases reply with
  | nothing => exact absurd rfl hne
  | result r =>
    rw [hr r rfl] at hnone
    cases hnone
  | timeout => exact .inl rfl
  | abandoned => exact .inr rfl

/-- The end of the timer of a wait: the wait is past its limit unless its job has ended. -/
theorem At.elapse {t : Timer} (ht : t ∈ s.timers) (hw : t.sleeper = .call c) (hat : At s c i p) :
    ∃ p', At (s.elapse t) c i p' ∧ Passes s c i (.elapse t) p p' := by
  have hdue {state : CallState} {h : Handle} (hh : h.call? = some c ∧ h.isReturn = true)
      (he : s.returns c = 0) :
      (((s.rung t).setCall c ⟨.job i, state⟩).post h).returns c = 1 := by
    rw [returns_post, if_pos hh]
    exact congrArg (· + 1) he
  cases hat with
  | @registered hops hc hi he hn =>
    have hi' : (s.jobs[i]?).bind Job.result? = none := hi
    have hmove : s.elapse t = ((s.rung t).setCall c ⟨.job i, .expired⟩).post (.hop c 1) := by
      simp [Scheduler.elapse, rung, hw, hc, awaited?, hi']
    have hzero : s.returns c = 0 := by rw [returns, he]; rfl
    rw [hmove]
    exact ⟨.due .timeout, .expired (calls_setCall hc) (hdue ⟨rfl, rfl⟩ hzero),
      .expires ⟨t, ht, rfl, hw, hi⟩⟩
  | @notified hops r hc hi he hn =>
    have hi' : (s.jobs[i]?).bind Job.result? = some r := hi
    have hmove : s.elapse t = ((s.rung t).setCall c ⟨.job i, .woken⟩).post (.caller c) := by
      simp [Scheduler.elapse, rung, hw, hc, awaited?, hi']
    have hzero : s.returns c = 0 := by rw [returns, he]; rfl
    have halarm : 0 < s.alarms c := List.countP_pos_iff.2 ⟨t, ht, by simp [hw]⟩
    rw [hmove]
    exact ⟨.due (.result r), .woken (calls_setCall hc) (hdue ⟨rfl, rfl⟩ hzero) hi,
      .wakes hi (.inr halarm)⟩
  | @returning state reply hc hs he hr hne =>
    have hmove : s.elapse t = s.rung t := by
      have hstate : state ≠ .waiting := by rcases hs with rfl | rfl | rfl <;> simp
      simp [Scheduler.elapse, rung, hw, hc, hstate]
    rw [hmove]
    refine ⟨.due reply, .returning hc hs he hr hne, .keeps fun hx => hx.reply ?_ hne⟩
    rintro r rfl
    exact outcome_of_reply hs hr
  | @answered reply hc he hr hne =>
    have hmove : s.elapse t = s.rung t := by
      simp [Scheduler.elapse, rung, hw, hc]
    rw [hmove]
    exact ⟨.due reply, .answered hc he hr hne, .keeps fun hx => hx.reply hr hne⟩

theorem At.abandon (hat : At s c i p) :
    ∃ p', At (s.abandon c) c i p' ∧ Passes s c i (.abandon c) p p' := by
  -- a wait that is not woken yet is to return at its next turn
  have hwaiting (hc : s.calls[c]? = some { want := .job i }) (hzero : s.returns c = 0) :
      At (s.abandon c) c i (.due .abandoned) := by
    have hmove : s.abandon c =
        ((s.setCall c ⟨.job i, .abandoned⟩).stopTimer (.call c)).post (.caller c) := by
      simp [Scheduler.abandon, hc]
    rw [hmove]
    refine .abandoned (calls_setCall hc) ?_
    rw [returns_post, if_pos ⟨rfl, rfl⟩]
    exact congrArg (· + 1) hzero
  cases hat with
  | registered hc _ he => exact ⟨_, hwaiting hc (by rw [returns, he]; rfl), .givesUp rfl⟩
  | notified hc _ he => exact ⟨_, hwaiting hc (by rw [returns, he]; rfl), .givesUp rfl⟩
  | @returning state reply hc hs he hr hne =>
    refine ⟨.due .abandoned, ?_, .givesUp rfl⟩
    rcases hs with rfl | rfl | rfl
    · have hmove : s.abandon c = s.setCall c ⟨.job i, .abandoned⟩ := by
        simp [Scheduler.abandon, hc]
      rw [hmove]
      exact .abandoned (calls_setCall hc) he
    · have hmove : s.abandon c = s.setCall c ⟨.job i, .abandoned⟩ := by
        simp [Scheduler.abandon, hc]
      rw [hmove]
      exact .abandoned (calls_setCall hc) he
    · have hmove : s.abandon c = s := by simp [Scheduler.abandon, hc]
      rw [hmove]
      exact .abandoned hc he
  | @answered reply hc he hr hne =>
    have hmove : s.abandon c = s := by simp [Scheduler.abandon, hc]
    rw [hmove]
    refine ⟨.due reply, .answered hc he hr hne, .keeps ?_⟩
    rintro ⟨t, -, ht, -⟩
    cases ht

theorem At.lt (hat : At s c i p) : c < s.calls.length := by
  cases hat <;> exact (List.getElem?_eq_some_iff.1 ‹s.calls[c]? = some _›).1

/-- Every move leads a wait to a phase, in one of these ways. -/
theorem At.move (hp : ∀ k, s.Placed k) (hat : At s c i p) (m : Move) :
    ∃ p', At (s.move m) c i p' ∧ Passes s c i m p p' := by
  by_cases hc : s.served m c
  · rcases served_cases hat.lt hc with ⟨h, rfl, hq, hh, hm⟩ | ⟨t, ht, rfl, hw, hm⟩ | rfl
    · exact hm ▸ hat.turn hq hh
    · exact hm ▸ hat.elapse ht hw
    · exact hat.abandon
  · have hi : ∀ r, s.outcome i = some r → (s.move m).outcome i = some r :=
      fun r hr => outcome_move hp hr m
    rcases beside_or_notified hp hc with hb | ⟨k, hb⟩
    · exact ⟨p, hat.beside hi hb, .stays hc⟩
    · exact hat.notified_by hi hb hc

end Scheduler

end PartScan
