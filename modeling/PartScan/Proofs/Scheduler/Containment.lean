import PartScan.Proofs.Scheduler.Answer
import PartScan.Proofs.Scheduler.Elsewhere
import PartScan.Proofs.Scheduler.Ledger
import PartScan.Proofs.Scheduler.Refusal

/-! # Containment of refusals

An event that the sink refuses ends the job that has given it, and nothing else: there is a run of
the same calls with a sink that refuses nothing, in which everything of the other jobs is the same.
-/

namespace PartScan

open Number

/-- What a step of a job leaves in the journal where no event is refused, and its next stage. -/
def Job.accepted (set : Settings) (i : Nat) (j : Job) : List Entry × Stage :=
  match j.scan? set.rules with
  | none => ([], if j.cancelRequested then .finished .cancelled else .deferred)
  | some scan =>
    if j.cancelRequested then ([.cancelled i j.expression], .finished .cancelled)
    else
      let reports := scan.resume.1.map (Notice.entry i j.expression)
      match scan.resume.2 with
      | .suspended next => (reports, .scanning next)
      | .finished (.error f) =>
        (reports ++ [.failed i j.expression (some f)], .finished (.fault f))
      | .finished (.ok ps) =>
        let vs := ps.filter Part.isVariable
        (reports ++ [.event i (.completed j.expression vs),
          .completed i j.expression vs.length], .finished (.found vs))

namespace Scheduler

section Step

variable {set : Settings} {sink : Sink} {i k : Nat} {j : Job} {es : List Entry} {r : JobResult}
  {s s' t t' : Scheduler}

theorem Ends.accepted_eq (h : Ends set sink i j es r) (hr : r.reason? = none) :
    j.accepted set i = (es, .finished r) := by
  cases h with
  | dropped hs hc => simp [Job.accepted, Job.scan?, hs, hc]
  | cancelled hs hc => simp [Job.accepted, hs, hc]
  | fault hs hc hres => simp [Job.accepted, hs, hc, hres]
  | found hs hc hres hv => simp [Job.accepted, hs, hc, hres, hv]
  | refused => cases hr
  | refusedFound => cases hr

theorem Ends.reason?_eq_none (h : Ends set sink i j es r)
    (hsink : ∀ before ev, sink.refuses before ev = none) : r.reason? = none := by
  cases h with
  | refused _ _ _ hw => simp [hsink] at hw
  | refusedFound _ _ _ _ hw => simp [hsink] at hw
  | _ => rfl

theorem Goes.accepted_eq {stage : Stage} (h : Goes set i j es stage) :
    j.accepted set i = (es, stage) ∧ ∀ r, stage ≠ .finished r := by
  cases h with
  | deferred hs hc => simp [Job.accepted, Job.scan?, hs, hc]
  | scanning hs hc hres => simp [Job.accepted, hs, hc, hres]

/-- A step that is refused nothing is the same with a sink that refuses nothing. -/
theorem Elsewhere.stepped (h : Elsewhere i s t) (hs : Stepped s k j s') (ht : Stepped t k j t')
    (hf : j.isFinished = false) (hlt : k < s.jobs.length) (hr : s'.reason? k = none)
    (hsink : ∀ before ev, t.sink.refuses before ev = none) : Elsewhere i s' t' := by
  cases hs with
  | @ends es r he =>
    have hreason : ((s.recordAll es).finish k j r).reason? k = r.reason? := reason?_finish hlt r
    have heq := he.accepted_eq (hreason.symm.trans hr)
    cases ht with
    | @ends es' r' he' =>
      have heq' := he'.accepted_eq (he'.reason?_eq_none hsink)
      rw [h.settings, heq] at heq'
      cases heq'
      exact (h.recordAll es).finish k j r
    | goes hg =>
      obtain ⟨heq', hne⟩ := hg.accepted_eq
      rw [h.settings, heq] at heq'
      cases heq'
      exact absurd rfl (hne r)
    | idle hi => simp [hf] at hi
  | @goes es stage hg =>
    obtain ⟨heq, hne⟩ := hg.accepted_eq
    cases ht with
    | @ends es' r' he' =>
      have heq' := he'.accepted_eq (he'.reason?_eq_none hsink)
      rw [h.settings, heq] at heq'
      cases heq'
      exact absurd rfl (hne r')
    | goes hg' =>
      have heq' := hg'.accepted_eq.1
      rw [h.settings, heq] at heq'
      cases heq'
      rw [h.settings]
      exact (h.recordAll es).defer k j stage _
    | idle hi => simp [hf] at hi
  | idle hi => simp [hf] at hi

end Step

section Turn

variable {i k c : Nat} {s t : Scheduler} {j : Job} {e : Handle}

namespace Elsewhere

theorem stepped_own {s' : Scheduler} (h : Stepped s i j s') : Elsewhere i s s' := by
  have hrecord {es : List Entry} {j' : Job} (h : Resumed s.settings s.sink i j es j') :
      Elsewhere i s (s.recordAll es) :=
    recordAll_own s fun en hen => (h.ofStep en hen).job_eq
  cases h with
  | @ends es r he =>
    have hres : Resumed s.settings s.sink i j es { j with stage := .finished r } :=
      .ends he rfl rfl rfl
    exact (hrecord hres).trans (finish_own _ i j r)
  | @goes es stage hg =>
    have hres : Resumed s.settings s.sink i j es { j with stage } := .goes hg rfl rfl rfl
    exact (hrecord hres).trans (defer_own _ i j stage _)
  | idle => exact refl i s

/-- A queue entry that is not about another job changes nothing elsewhere. -/
theorem handle_own (s : Scheduler) (he : e.isElsewhere i = false) : Elsewhere i s (s.handle e) := by
  cases e with
  | step k =>
    obtain rfl : k = i := by simpa [Handle.isElsewhere] using he
    simp only [Scheduler.handle]
    split
    · exact stepped_own (stepped_step s k _)
    · exact refl k s
  | discard k =>
    obtain rfl : k = i := by simpa [Handle.isElsewhere] using he
    refine ⟨rfl, rfl, rfl, fun _ _ => rfl, ?_, rfl, fun _ _ => rfl, rfl⟩
    show (s.active.filter _).filter _ = _
    rw [List.filter_filter]
    simp
  | wake c hops =>
    simp only [Scheduler.handle]
    split
    · split
      · exact (setCall_own s c _).trans (hop_own _ c hops)
      · exact refl i s
    · exact refl i s
  | hop c hops => exact hop_own s c hops
  | gather c =>
    simp only [Scheduler.handle]
    split
    · split
      · exact (setCall_own s c _).trans (post_own _ rfl)
      · exact setCall_own s c _
    · exact refl i s
  | caller c =>
    simp only [Scheduler.handle]
    split
    · exact (setCall_own s c _).trans (stopTimer_own _ (by simp))
    · exact refl i s

theorem popped_own (hq : s.queue.head? = some e) (he : e.isElsewhere i = false) :
    Elsewhere i s s.popped := by
  obtain ⟨rest, hrest⟩ := List.head?_eq_some_iff.1 hq
  refine ⟨rfl, rfl, rfl, fun _ _ => rfl, rfl, ?_, fun _ _ => rfl, rfl⟩
  rw [popped, hrest, List.tail_cons, List.filter_cons_of_neg (by simp [he])]

theorem popped (h : Elsewhere i s t) (hs : s.queue.head? = some e) (ht : t.queue.head? = some e) :
    Elsewhere i s.popped t.popped := by
  obtain ⟨rest, hrest⟩ := List.head?_eq_some_iff.1 hs
  obtain ⟨rest', hrest'⟩ := List.head?_eq_some_iff.1 ht
  have hqueue := h.queue
  rw [hrest, hrest', List.filter_cons, List.filter_cons] at hqueue
  refine ⟨h.settings, h.journal, h.length, h.jobs, h.active, ?_, h.sleepers, h.calls⟩
  rw [Scheduler.popped, Scheduler.popped, hrest, hrest']
  show rest'.filter _ = rest.filter _
  split at hqueue
  · exact (List.cons.inj hqueue).2
  · exact hqueue

/-- A turn that is not about another job changes nothing elsewhere. -/
theorem turn_own (hq : s.queue.head? = some e) (he : e.isElsewhere i = false) :
    Elsewhere i s (s.move .turn) := by
  rw [move_turn hq]
  exact (popped_own hq he).trans (handle_own _ he)

/-- A turn that is about another job comes to the same in both. -/
theorem turn (h : Elsewhere i s t) (hps : ∀ k, s.Placed k) (hs : s.queue.head? = some e)
    (ht : t.queue.head? = some e) (he : e.isElsewhere i = true)
    (hr : ∀ k, k ≠ i → (s.move .turn).reason? k = none)
    (hsink : ∀ before ev, t.sink.refuses before ev = none) :
    Elsewhere i (s.move .turn) (t.move .turn) := by
  have hpopped := h.popped hs ht
  cases e with
  | step k =>
    have hk : k ≠ i := by simpa [Handle.isElsewhere] using he
    obtain ⟨rest, hrest⟩ := List.head?_eq_some_iff.1 hs
    obtain ⟨j, hj, hf, -⟩ := (hps k).step (by simp [Scheduler.steps, hrest])
    have hj' : t.jobs[k]? = some j := (h.jobs k hk).trans hj
    have hreason := hr k hk
    rw [move_step hs hj] at hreason ⊢
    rw [move_step ht hj']
    exact hpopped.stepped (stepped_step _ k j) (stepped_step _ k j) hf
      (List.getElem?_eq_some_iff.1 hj).1 hreason hsink
  | discard k =>
    rw [move_turn hs, move_turn ht]
    refine ⟨hpopped.settings, hpopped.journal, hpopped.length, hpopped.jobs, ?_, hpopped.queue,
      hpopped.sleepers, hpopped.calls⟩
    show (t.active.filter _).filter _ = (s.active.filter _).filter _
    rw [List.filter_comm _ _ t.active, List.filter_comm _ _ s.active]
    exact congrArg (List.filter _) h.active
  | _ => cases he

end Elsewhere

/-- A turn takes the first entry off the queue and leaves the rest in front. -/
theorem exists_queue_turn (hp : ∀ k, s.Placed k) :
    ∃ more, (s.move .turn).queue = s.queue.tail ++ more := by
  cases acts hp .turn with
  | drops hq =>
    rw [move_turn hq]
    exact ⟨[], (List.append_nil _).symm⟩
  | ends hq hj hf h hm =>
    rw [hm]
    exact ⟨_, rfl⟩
  | serves _ _ h =>
    obtain ⟨more, hq, -⟩ := h.queue
    exact ⟨more, hq⟩

theorem moves_concat (s : Scheduler) (ms : List Move) (m : Move) :
    s.moves (ms ++ [m]) = (s.moves ms).move m := moves_append s ms [m]

/-- Turns that change nothing elsewhere bring the next entry about another job to the head of the
queue. -/
theorem Elsewhere.exists_turns (hp : ∀ k, t.Placed k) (h : Elsewhere i s t)
    (hs : s.queue.head? = some e) (he : e.isElsewhere i = true) :
    ∃ n, Elsewhere i s (t.moves (List.replicate n .turn)) ∧
      (t.moves (List.replicate n .turn)).queue.head? = some e := by
  obtain ⟨rest, hrest⟩ := List.head?_eq_some_iff.1 hs
  have hfilter : ∃ before after, t.queue = before ++ e :: after ∧
      ∀ e' ∈ before, e'.isElsewhere i = false := by
    have hqueue := h.queue
    rw [hrest, List.filter_cons_of_pos he] at hqueue
    obtain ⟨before, after, hsplit, hbefore, -, -⟩ := List.filter_eq_cons_iff.1 hqueue
    exact ⟨before, after, hsplit, by simpa using hbefore⟩
  obtain ⟨before, after, hsplit, hbefore⟩ := hfilter
  induction before generalizing t after with
  | nil => exact ⟨0, h, by rw [List.replicate_zero, moves_nil, hsplit]; rfl⟩
  | cons e' before ih =>
    have hq : t.queue.head? = some e' := by rw [hsplit]; rfl
    obtain ⟨more, hmore⟩ := exists_queue_turn hp
    rw [hsplit, List.cons_append, List.tail_cons, List.append_assoc] at hmore
    obtain ⟨n, hn, hhead⟩ := ih (moved hp .turn).placed
      (h.trans (turn_own hq (hbefore e' List.mem_cons_self))) (after ++ more) hmore
      fun e' he' => hbefore e' (List.mem_cons_of_mem _ he')
    exact ⟨n + 1, hn, hhead⟩

/-- The calls of other tasks among some moves. -/
def callsIn (ms : List Move) : List Move := ms.filter fun m => !m.isOwn

theorem callsIn_append (ms ns : List Move) : callsIn (ms ++ ns) = callsIn ms ++ callsIn ns :=
  List.filter_append ms ns

theorem callsIn_replicate_turn (n : Nat) : callsIn (List.replicate n .turn) = [] := by
  apply List.filter_eq_nil_iff.2
  intro m hm
  rw [List.eq_of_mem_replicate hm]
  exact Bool.false_ne_true

/-- A move that is refused nothing elsewhere can be followed up with the same calls. -/
theorem Elsewhere.move (hps : ∀ k, s.Placed k) (hpt : ∀ k, t.Placed k)
    (hsink : ∀ before ev, t.sink.refuses before ev = none) (h : Elsewhere i s t) (m : Move)
    (hr : ∀ k, k ≠ i → (s.move m).reason? k = none) :
    ∃ ns, callsIn ns = callsIn [m] ∧ Elsewhere i (s.move m) (t.moves ns) := by
  cases m with
  | start e => exact ⟨[.start e], rfl, h.start e⟩
  | cancel k => exact ⟨[.cancel k], rfl, h.cancel k⟩
  | cancelAll => exact ⟨[.cancelAll], rfl, h.cancelAll⟩
  | wait k limit => exact ⟨[.wait k limit], rfl, h.wait k limit⟩
  | abandon c => exact ⟨[.abandon c], rfl, h.abandon c⟩
  | pause => exact ⟨[.pause], rfl, h.pause⟩
  | turn =>
    cases hq : s.queue.head? with
    | none =>
      rw [move_turn_of_nil hq]
      exact ⟨[], rfl, h⟩
    | some e =>
      cases he : e.isElsewhere i with
      | false => exact ⟨[], rfl, (turn_own hq he).symm.trans h⟩
      | true =>
        obtain ⟨n, hn, hhead⟩ := h.exists_turns hpt hq he
        have hsink' : ∀ before ev,
            (t.moves (List.replicate n .turn)).sink.refuses before ev = none := by
          rwa [sink_moves hpt]
        refine ⟨List.replicate n .turn ++ [.turn], ?_, ?_⟩
        · rw [callsIn_append, callsIn_replicate_turn, List.nil_append]
        · rw [moves_concat]
          exact hn.turn hps hq hhead he hr hsink'
  | elapse u =>
    by_cases hu : u ∈ s.timers
    · have hmove : s.move (.elapse u) = s.elapse u := if_pos hu
      rw [hmove]
      by_cases hw : ∀ k, u.sleeper = .job k → k = i
      · exact ⟨[], rfl, (elapse_own hu hw).symm.trans h⟩
      · obtain ⟨k, hk⟩ := not_forall.1 hw
        obtain ⟨hw, hk⟩ := Classical.not_imp.1 hk
        obtain ⟨v, hv, hsame⟩ := h.elapse hu hw hk
        refine ⟨[.elapse v], rfl, ?_⟩
        have hmove' : t.move (.elapse v) = t.elapse v := if_pos hv
        rw [moves_cons, moves_nil, hmove']
        exact hsame
    · have hmove : s.move (.elapse u) = s := if_neg hu
      rw [hmove]
      exact ⟨[], rfl, h⟩

end Turn

section Run

variable {settings : Settings} {sink : Sink} {ms : List Move} {i k c : Nat} {s t : Scheduler}
  {ev : Event} {w : List Char}

theorem reason?_of_moves (hp : ∀ k, s.Placed k) (h : (s.moves ms).reason? k = none) :
    s.reason? k = none := by
  cases ho : s.outcome k with
  | none => rw [reason?, ho, Option.bind_none]
  | some r => rwa [reason?, outcome_moves hp ho ms, ← ho] at h

/-- A run that is refused nothing elsewhere can be followed up with the same calls. -/
theorem Elsewhere.moves (hps : ∀ k, s.Placed k) (hpt : ∀ k, t.Placed k)
    (hsink : ∀ before ev, t.sink.refuses before ev = none) (h : Elsewhere i s t)
    (hr : ∀ k, k ≠ i → (s.moves ms).reason? k = none) :
    ∃ ns, callsIn ns = callsIn ms ∧ Elsewhere i (s.moves ms) (t.moves ns) := by
  induction ms generalizing s t with
  | nil => exact ⟨[], rfl, h⟩
  | cons m ms ih =>
    have hps' := (moved hps m).placed
    obtain ⟨ns, hns, hm⟩ := h.move hps hpt hsink m fun k hk => reason?_of_moves hps' (hr k hk)
    have hsink' : ∀ before ev, (t.moves ns).sink.refuses before ev = none := by
      rwa [sink_moves hpt]
    obtain ⟨ns', hns', hms⟩ := ih hps' (placed_moves hpt ns) hsink' hm hr
    refine ⟨ns ++ ns', ?_, ?_⟩
    · rw [callsIn_append, hns, hns', ← callsIn_append]
      rfl
    · rw [moves_append]
      exact hms

theorem verdict_of_mem (h : (i, ev, w) ∈ (after settings sink ms).refusals) :
    (after settings sink ms).outcome i = some (.refused w) ∧
      ((after settings sink ms).eventsOf i).getLast? = some ev := by
  have hmem : (i, ev, w) ∈ (after settings sink ms).refusalsOf i :=
    List.mem_filter.2 ⟨h, by simp⟩
  cases verdict_after settings sink ms i with
  | accepted _ hr =>
    rw [hr] at hmem
    cases hmem
  | @refused ev' w' hreason hr hl =>
    rw [hr, List.mem_singleton] at hmem
    cases hmem
    refine ⟨?_, hl⟩
    obtain ⟨r, hr, hrw⟩ := Option.bind_eq_some_iff.1 hreason
    cases r with
    | refused w' =>
      cases hrw
      exact hr
    | _ => cases hrw

/-- A job that has ended gives the sink nothing more. -/
theorem eventsOf_moves_of_ended (hp : ∀ k, s.Placed k) {r : JobResult} (h : s.outcome i = some r)
    (ms : List Move) : (s.moves ms).eventsOf i = s.eventsOf i := by
  induction ms generalizing s with
  | nil => rfl
  | cons m ms ih =>
    refine (ih (moved hp m).placed (outcome_move hp h m)).trans ?_
    cases (moved hp m).effect i with
    | rests _ _ hd hne => exact eventsOf_of_others hd hne
    | starts _ hj => simp [outcome, hj] at h
    | steps _ hj _ hres =>
      rw [(outcome_eq_none hj).2 hres.isFinished] at h
      cases h

theorem Elsewhere.linesOf_eq (h : Elsewhere i s t) (hk : k ≠ i) : t.linesOf k = s.linesOf k := by
  have hfilter (es : List Entry) : es.filter (fun en => en.job = k) =
      (es.filter fun en => en.job ≠ i).filter fun en => en.job = k := by
    rw [List.filter_filter]
    apply List.filter_congr
    rintro en -
    by_cases hen : en.job = k <;> simp [hen, hk]
  rw [linesOf, linesOf, hfilter, h.journal, ← hfilter]

/-- The second scheduler has the other jobs with their lines, events and outcomes, in one journal
and with the same of them active. -/
structure Untouched (i : Nat) (s t : Scheduler) : Prop where
  journal : t.journal.filter (fun en => en.job ≠ i) = s.journal.filter (fun en => en.job ≠ i)
  jobs : ∀ k, k ≠ i → t.jobs[k]? = s.jobs[k]?
  lines : ∀ k, k ≠ i → t.linesOf k = s.linesOf k
  events : ∀ k, k ≠ i → t.eventsOf k = s.eventsOf k
  outcomes : ∀ k, k ≠ i → t.outcome k = s.outcome k
  active : t.active.filter (· ≠ i) = s.active.filter (· ≠ i)

theorem Elsewhere.untouched (h : Elsewhere i s t) : Untouched i s t where
  journal := h.journal
  jobs := h.jobs
  lines _ hk := h.linesOf_eq hk
  events k hk := by rw [eventsOf_eq, eventsOf_eq, h.linesOf_eq hk]
  outcomes k hk := by rw [outcome, outcome, h.jobs k hk]
  active := h.active

/-- The refused event `ev` of the job `i` ends this job with the reason `w` of the refusal, and
nothing else. -/
structure Contained (settings : Settings) (sink : Sink) (ms : List Move) (i : Nat) (ev : Event)
    (w : List Char) : Prop where
  ended : (after settings sink ms).outcome i = some (.refused w)
  last : ((after settings sink ms).eventsOf i).getLast? = some ev
  silent : ∀ ms', (after settings sink (ms ++ ms')).eventsOf i = (after settings sink ms).eventsOf i
  not_completed : ∀ e n, .completed i e n ∉ (after settings sink ms).journal
  no_completion : ev.isCompletion = false →
    ∀ ev' ∈ (after settings sink ms).eventsOf i, ev'.isCompletion = false
  dropped : i ∈ (after settings sink ms).active ↔ .discard i ∈ (after settings sink ms).queue
  gone : i ∉ ((after settings sink ms).runUntil fun s => s.queue.isEmpty).active
  waits : ∀ ms₁ limit ms₂ c, ms = ms₁ ++ .wait i limit :: ms₂ →
    ((after settings sink ms₁).wait i limit).2 = some c →
    ∃ reply, ((after settings sink ms).await c).2 = some reply ∧ Answers (some (.refused w))
      ((after settings sink ms₁).Missed i limit ∨
        ((after settings sink ms₁).wait i limit).1.Lapses c i ms₂) (.abandon c ∈ ms₂) reply
  untouched : (∀ r ∈ (after settings sink ms).refusals, r.1 = i) →
    ∀ sink' : Sink, (∀ before ev, sink'.refuses before ev = none) →
      ∃ ms', callsIn ms' = callsIn ms ∧
        Untouched i (after settings sink ms) (after settings sink' ms')

theorem exists_untouched (hall : ∀ r ∈ (after settings sink ms).refusals, r.1 = i) {sink' : Sink}
    (hsink : ∀ before ev, sink'.refuses before ev = none) :
    ∃ ms', callsIn ms' = callsIn ms ∧
      Untouched i (after settings sink ms) (after settings sink' ms') := by
  have hinitial : Elsewhere i (initial settings sink) (initial settings sink') :=
    ⟨rfl, rfl, rfl, fun _ _ => rfl, rfl, rfl, fun _ _ => rfl, rfl⟩
  have hothers : ∀ k, k ≠ i → (after settings sink ms).reason? k = none := by
    intro k hk
    cases verdict_after settings sink ms k with
    | accepted hr => exact hr
    | @refused ev' w' _ hr =>
      have hmem : (k, ev', w') ∈ (after settings sink ms).refusalsOf k :=
        hr ▸ List.mem_singleton_self _
      exact absurd (hall _ (List.mem_filter.1 hmem).1) hk
  obtain ⟨ms', hcalls, hms'⟩ := hinitial.moves (placed_initial settings sink)
    (placed_initial settings sink') hsink hothers
  exact ⟨ms', hcalls, hms'.untouched⟩

section Contained

variable (h : (i, ev, w) ∈ (after settings sink ms).refusals)
include h

theorem not_completed_of_refused (e : List Char) (n : Nat) :
    .completed i e n ∉ (after settings sink ms).journal := by
  obtain ⟨j, hj, hr⟩ := Option.bind_eq_some_iff.1 (verdict_of_mem h).1
  intro hmem
  have hclosing : .completed i e n ∈ (after settings sink ms).closings i :=
    List.mem_filter.2 ⟨List.mem_filter.2 ⟨hmem, by simp [Entry.job]⟩, rfl⟩
  rw [((accounted_after settings sink ms i).account j hj).eq.1, hr, mem_closing?_iff] at hclosing
  simp at hclosing

theorem no_completion_of_refused (hev : ev.isCompletion = false) :
    ∀ ev' ∈ (after settings sink ms).eventsOf i, ev'.isCompletion = false := by
  obtain ⟨ho, hl⟩ := verdict_of_mem h
  obtain ⟨j, hj, -⟩ := Option.bind_eq_some_iff.1 ho
  obtain ⟨before, hbefore⟩ := List.getLast?_eq_some_iff.1 hl
  have hdrop := ((accounted_after settings sink ms i).account j hj).isCompletion_dropLast
  rw [hbefore, List.dropLast_concat] at hdrop
  rw [hbefore]
  refine List.forall_mem_append.2 ⟨fun ev' hev' => ?_, List.forall_mem_singleton.2 hev⟩
  simpa using List.any_eq_false.1 hdrop ev' hev'

theorem gone_of_refused :
    i ∉ ((after settings sink ms).runUntil fun s => s.queue.isEmpty).active := by
  obtain ⟨ms', -, hms'⟩ := exists_moves_runUntil (fun s => s.queue.isEmpty)
    (after settings sink ms)
  have hqueue : ((after settings sink ms).runUntil fun s => s.queue.isEmpty).queue = [] := by
    rcases runUntil_stops (fun s => s.queue.isEmpty) (after settings sink ms) with hq | hq
    · exact List.isEmpty_iff.1 hq
    · exact queue_of_turn?_eq_none hq
  have ho := outcome_moves (placed_after settings sink ms) (verdict_of_mem h).1 ms'
  obtain ⟨j, hj, hr⟩ := Option.bind_eq_some_iff.1 ho
  have ht : ((after settings sink ms).moves ms').Tracked :=
    moves_append (initial settings sink) ms ms' ▸ tracked_after settings sink (ms ++ ms')
  rw [← hms'] at hqueue ⊢
  intro hi
  have hdiscard := (ht.mem_iff hj (by rw [Job.isFinished, hr]; rfl)).1 hi
  rw [hqueue] at hdiscard
  cases hdiscard

theorem waits_of_refused {ms₁ ms₂ : List Move} {limit : Option Rat}
    (hms : ms = ms₁ ++ .wait i limit :: ms₂)
    (hc : ((after settings sink ms₁).wait i limit).2 = some c) :
    ∃ reply, ((after settings sink ms).await c).2 = some reply ∧ Answers (some (.refused w))
      ((after settings sink ms₁).Missed i limit ∨
        ((after settings sink ms₁).wait i limit).1.Lapses c i ms₂) (.abandon c ∈ ms₂) reply := by
  have ho := (verdict_of_mem h).1
  have hsplit : after settings sink ms = ((after settings sink ms₁).wait i limit).1.moves ms₂ := by
    rw [hms, after, moves_append]
    rfl
  obtain ⟨-, p, hat, ht⟩ := at_wait (unmade_after settings sink ms₁) hc
  have hp : ∀ k, ((after settings sink ms₁).wait i limit).1.Placed k :=
    (moved (placed_after settings sink ms₁) (.wait i limit)).placed
  obtain ⟨p', hat', ht'⟩ := hat.moves hp ht ms₂
  rw [hsplit] at ho ⊢
  exact hat'.answers_await (placed_moves hp ms₂)
    (ht'.mono Iff.rfl (false_or (Move.abandon c ∈ ms₂)).symm.to_iff) ho

end Contained

end Run

/-- In every run, a job whose event the sink refuses ends with the reason of the refusal, says
nothing more and never completes; it is dropped as every other job is, and each wait for it returns
the refusal. If the sink refuses nothing of other jobs, these are as if it had refused nothing. -/
theorem refusal_contained (settings : Settings) (sink : Sink) (ms : List Move) {i : Nat}
    {ev : Event} {w : List Char} (h : (i, ev, w) ∈ (after settings sink ms).refusals) :
    Contained settings sink ms i ev w := by
  have hp := placed_after settings sink ms
  obtain ⟨ho, hl⟩ := verdict_of_mem h
  obtain ⟨j, hj, hr⟩ := Option.bind_eq_some_iff.1 ho
  have hf : j.isFinished = true := by rw [Job.isFinished, hr]; rfl
  exact {
    ended := ho
    last := hl
    silent := fun ms' => by
      rw [after, moves_append]
      exact eventsOf_moves_of_ended hp ho ms'
    not_completed := not_completed_of_refused h
    no_completion := no_completion_of_refused h
    dropped := (tracked_after settings sink ms).mem_iff hj hf
    gone := gone_of_refused h
    waits := fun _ _ _ _ => waits_of_refused h
    untouched := fun hall _ => exists_untouched hall }

theorem refusal_contained_two :
    let refuses (_ : List Event) (ev : Event) : Option (List Char) :=
      if ev = .progress ['b'] (percentOf 1 1) then some ['x'] else none
    let ms : List Move := [.start ['a'], .start ['b'], .wait 1 none] ++ List.replicate 12 .turn
    let s := after default { refuses } ms
    s.refusals = [(1, .progress ['b'] (percentOf 1 1), ['x'])] ∧
      s.outcome 0 = some (.found [⟨.var, 0, 1, ['a']⟩]) ∧ s.outcome 1 = some (.refused ['x']) ∧
      (∃ reply, (s.await 0).2 = some reply ∧ reply = .result (.refused ['x'])) ∧
      ∃ ms', callsIn ms' = [.start ['a'], .start ['b'], .wait 1 none] ∧
        Untouched 1 s (after default default ms') := by
  intro refuses ms s
  have hrefusals : s.refusals = [(1, .progress ['b'] (percentOf 1 1), ['x'])] := by decide +kernel
  have hcontained : Contained default { refuses } ms 1 (.progress ['b'] (percentOf 1 1)) ['x'] :=
    refusal_contained default { refuses } ms (hrefusals ▸ List.mem_singleton_self _)
  refine ⟨hrefusals, by decide +kernel, hcontained.ended, ?_, ?_⟩
  · obtain ⟨reply, hreply, hanswers⟩ := hcontained.waits [.start ['a'], .start ['b']] none
      (List.replicate 12 .turn) 0 rfl (by decide +kernel)
    refine ⟨reply, hreply, ?_⟩
    cases hanswers with
    | result _ hr =>
      cases hr
      rfl
    | timeout hlate =>
      have hresult : (s.await 0).2 = some (.result (.refused ['x'])) := by decide +kernel
      rw [hresult] at hreply
      cases hreply
    | abandoned hgiven => simp at hgiven
  · exact hcontained.untouched (by rw [hrefusals]; simp) default fun _ _ => rfl

end Scheduler

end PartScan
