import Mathlib.Data.List.Nodup
import PartScan.Proofs.Scheduler.Calls
import PartScan.Proofs.Scheduler.Completion
import PartScan.Proofs.Scheduler.Request
import PartScan.Proofs.Scheduler.Rotation

/-! # Jobs in line

Where delays let no time pass and nothing is cancelled, every job that has not ended stands in the
queue once, with a number of steps left and events for each of them. A step gives the sink the first
of these events and sends the job to the end of the queue.
-/

namespace PartScan

/-- The job whose next step an entry takes. -/
def Handle.step? : Handle → Option Nat
  | .step i => some i
  | _ => none

/-- Whether a move asks jobs to cancel. -/
def Move.cancels : Move → Bool
  | .cancel _ => true
  | .cancelAll => true
  | _ => false

namespace Move

theorem started_of_isOwn {m : Move} (h : m.isOwn = true) : m.started = [] := by
  cases m <;> first | rfl | cases h

theorem cancels_of_isOwn {m : Move} (h : m.isOwn = true) : m.cancels = false := by
  cases m <;> first | rfl | cases h

end Move

/-- The events of every resumption of a job on an expression that runs alone. -/
def trace (rules : Rules) (e : List Char) : List (List Event) := [] :: loneEvents rules e

/-- The events of every resumption that a job has left, where it is not cancelled. -/
def Job.rest (rules : Rules) (j : Job) : List (List Event) :=
  match j.stage with
  | .created => trace rules j.expression
  | .deferred => loneEvents rules j.expression
  | .scanning scan => eventLists j.expression scan.run.2 scan.run.1
  | .finished _ => []

namespace Job

variable {rules : Rules} {j : Job}

theorem rest_eq_nil : j.rest rules = [] ↔ j.isFinished = true := by
  have hscan (e : List Char) (scan : Scan) : eventLists e scan.run.2 scan.run.1 ≠ [] :=
    eventLists_ne_nil _ _ scan.run_ne_nil
  unfold rest
  cases hst : j.stage with
  | created => simp [trace, isFinished, result?, hst]
  | deferred => simp [loneEvents, hscan, isFinished, result?, hst]
  | scanning scan => simp [hscan, isFinished, result?, hst]
  | finished r => simp [isFinished, result?, hst]

theorem rest_of_scan? {scan : Scan} (h : j.scan? rules = some scan) :
    j.rest rules = eventLists j.expression scan.run.2 scan.run.1 := by
  unfold scan? at h
  split at h
  · rename_i hst
    cases h
    rw [rest, hst]
    rfl
  · rename_i hst
    cases h
    rw [rest, hst]
  · cases h

theorem rest_of_finished {r : JobResult} (h : j.stage = .finished r) : j.rest rules = [] := by
  rw [rest, h]

theorem rest_of_bare {j' : Job} (h : j'.bare = j.bare) : j'.rest rules = j.rest rules := by
  have ht := Touched.of_bare h
  rw [rest, rest, ht.expression, ht.stage]

end Job

namespace Scheduler

variable {s s' : Scheduler} {i k : Nat} {m : Move}

/-- A step of a job that is not cancelled takes the first of the resumptions that it has left. -/
theorem Resumed.rest_eq {set : Settings} {sink : Sink} {j j' : Job} {es : List Entry}
    (hsink : ∀ before ev, sink.refuses before ev = none) (hc : j.cancelRequested = false)
    (h : Resumed set sink i j es j') :
    j.rest set.rules = es.filterMap Entry.event? :: j'.rest set.rules := by
  cases h with
  | ends h' hs =>
    rw [Job.rest_of_finished hs]
    cases h' with
    | dropped _ hc' => simp [hc] at hc'
    | cancelled _ hc' => simp [hc] at hc'
    | fault hsc _ hr =>
      rw [Job.rest_of_scan? hsc, Scan.run_of_finished hr, List.filterMap_append,
        filterMap_event?_entry]
      rfl
    | found hsc _ hr hv =>
      rw [Job.rest_of_scan? hsc, Scan.run_of_finished hr, List.filterMap_append,
        filterMap_event?_entry, hv]
      rfl
    | refused _ _ _ hw => simp [hsink] at hw
    | refusedFound _ _ _ _ hw => simp [hsink] at hw
  | goes h' hs he =>
    cases h' with
    | deferred hst =>
      rw [Job.rest, Job.rest, hst, hs, he]
      rfl
    | @scanning _ next ns hsc _ hr =>
      obtain ⟨ns', nss, hrun⟩ := List.exists_cons_of_ne_nil next.run_ne_nil
      rw [Job.rest_of_scan? hsc, Scan.run_of_suspended hr, filterMap_event?_entry, Job.rest, hs, he]
      simp only [hrun, eventLists]

/-- The jobs whose next step is in the queue, in the order of the queue. -/
def line (s : Scheduler) : List Nat := s.queue.filterMap Handle.step?

theorem count_line (s : Scheduler) (i : Nat) : s.line.count i = s.steps i := by
  rw [line, steps]
  induction s.queue with
  | nil => rfl
  | cons h q ih =>
    rw [List.filterMap_cons, List.count_cons]
    cases h with
    | step k => simp [Handle.step?, List.count_cons, ih]
    | _ => simp [Handle.step?, ih]

theorem line_post (s : Scheduler) (h : Handle) :
    (s.post h).line = s.line ++ h.step?.toList := by
  rw [line, post, List.filterMap_append, ← line]
  cases h <;> rfl

theorem line_popped {h : Handle} (hq : s.queue.head? = some h) :
    s.line = h.step?.toList ++ s.popped.line := by
  obtain ⟨rest, hrest⟩ := List.head?_eq_some_iff.1 hq
  rw [line, line, popped, hrest]
  cases h <;> rfl

/-- The line stays where no further step comes into the queue. -/
theorem Serves.line {P : Nat → Prop} (h : Serves P s s') (hs : ∀ i, s'.steps i = s.steps i) :
    s'.line = s.line := by
  obtain ⟨hs', hq, -⟩ := h.queue
  have hnil : hs'.filterMap Handle.step? = [] := by
    apply List.filterMap_eq_nil_iff.2
    intro e he
    cases e with
    | step i =>
      have hcount := hs i
      rw [steps, hq, List.count_append] at hcount
      have hpos : 0 < hs'.count (.step i) := List.count_pos_iff.2 he
      rw [steps] at hcount
      omega
    | _ => rfl
  rw [Scheduler.line, hq, List.filterMap_append, hnil, List.append_nil]
  rfl

/-- Delays let no time pass, no event is refused, no job is to be cancelled and none sleeps. -/
structure Awake (s : Scheduler) : Prop where
  placed : ∀ i, s.Placed i
  awake : ∀ i, s.Of i fun j => j.asleep = false
  spared : ∀ i, s.Of i Job.Spared
  accepts : ∀ before ev, s.sink.refuses before ev = none
  due : s.settings.dueTime.isPositive = false
  step : s.settings.stepDelay.isPositive = false

theorem Awake.nodup (h : Awake s) : s.line.Nodup := by
  apply List.nodup_iff_count_le_one.2
  intro i
  rw [count_line]
  by_contra hlt
  obtain ⟨j, -, -, -, hone, -⟩ := (h.placed i).step (by omega)
  omega

theorem Awake.job (h : Awake s) (hi : i ∈ s.line) :
    ∃ j, s.jobs[i]? = some j ∧ j.isFinished = false := by
  have hpos : 0 < s.steps i := by
    rw [← count_line]
    exact List.count_pos_iff.2 hi
  obtain ⟨j, hj, hf, -⟩ := (h.placed i).step hpos
  exact ⟨j, hj, hf⟩

theorem Awake.mem_line (h : Awake s) {j : Job} (hj : s.jobs[i]? = some j)
    (hf : j.isFinished = false) : i ∈ s.line := by
  have hp := h.placed i
  rw [Placed, hj, Placing, if_neg (by simp [hf]), if_neg (by simp [h.awake i j hj])] at hp
  rw [← List.count_pos_iff, count_line]
  omega

/-- What a move does to the line: a job joins it, it stays, or its first job takes a step. -/
inductive Shift (s : Scheduler) (m : Move) : Prop
  | starts {e : List Char} (hm : m = .start e)
  | rests (hm : m.started = []) (hl : (s.move m).line = s.line)
      (hj : (s.move m).jobs.map Job.bare = s.jobs.map Job.bare)
      (hd : (s.move m).deliveries = s.deliveries)
  | steps {i : Nat} {j : Job} (j' : Job) {es : List Entry} {line : List Nat}
      (hr : s.resumes i m = true) (hl : s.line = i :: line) (hj : s.jobs[i]? = some j)
      (hl' : (s.move m).line = line ++ if j'.isFinished then [] else [i])
      (hj' : (s.move m).jobs = s.jobs.set i j') (ha : j'.asleep = false)
      (h : Resumed s.settings s.sink i j es j')
      (hd : (s.move m).deliveries =
        s.deliveries ++ (es.filterMap Entry.event?).map (Prod.mk i))

/-- The line stays where nothing changes that a job sees. -/
theorem line_of_aside (hp : ∀ i, s.Placed i) (hm : m.started = [])
    (hr : ∀ i, s.resumes i m = false) (ha : Aside s (s.move m)) : (s.move m).line = s.line := by
  cases acts hp m with
  | starts e => cases hm
  | @drops i hq =>
    rw [move_turn hq, line_popped hq]
    rfl
  | @ends i j es r hq =>
    have hri := hr i
    simp [resumes, hq] at hri
  | serves _ _ hserves =>
    have hline : (s.before m).line = s.line := by
      cases m with
      | turn =>
        cases hq : s.queue.head? with
        | none => rw [before, line, popped, line, List.head?_eq_none_iff.1 hq]; rfl
        | some h =>
          have hnone : h.step? = none := by
            cases h with
            | step i =>
              have hri := hr i
              simp [resumes, hq] at hri
            | _ => rfl
          rw [line_popped hq, hnone]
          rfl
      | _ => rfl
    rw [hserves.line fun i => ?_, hline]
    rw [ha.steps, ← count_line, ← count_line, hline]

theorem Shift.of_aside (hp : ∀ i, s.Placed i) (hm : m.started = [])
    (hr : ∀ i, s.resumes i m = false) (ha : Aside s (s.move m)) : Shift s m := by
  refine .rests hm (line_of_aside hp hm hr ha) ha.jobs ?_
  rw [deliveries, deliveries, ha.journal]

theorem line_callbacks (i : Nat) (bs : List Callback) :
    (bs.map (Callback.handle i)).filterMap Handle.step? = [] := by
  apply List.filterMap_eq_nil_iff.2
  intro h hmem
  obtain ⟨b, -, rfl⟩ := List.mem_map.1 hmem
  cases b <;> rfl

/-- A job that goes on after a step comes to the end of the line, where delays let no time pass. -/
theorem Stepped.line {j : Job} (h : Stepped s i j s') (hf : j.isFinished = false)
    (hdue : s.settings.dueTime.isPositive = false)
    (hstep : s.settings.stepDelay.isPositive = false) :
    ∃ es j', Resumed s.settings s.sink i j es j' ∧ s'.journal = s.journal ++ es ∧
      s'.jobs = s.jobs.set i j' ∧ j'.asleep = j.asleep ∧
      s'.line = s.line ++ if j'.isFinished then [] else [i] := by
  cases h with
  | @ends es r he =>
    refine ⟨es, { j with stage := .finished r, callbacks := [] }, .ends he rfl rfl rfl, rfl, rfl,
      rfl, ?_⟩
    show (s.queue ++ j.callbacks.map (Callback.handle i)).filterMap Handle.step? = _
    rw [List.filterMap_append, line_callbacks]
    rfl
  | @goes es stage hg =>
    have hpositive : (j.delay s.settings).isPositive = false := by
      unfold Job.delay
      split
      · exact hdue
      · exact hstep
    have hrun : Job.isFinished { j with stage } = false := by
      cases hg <;> rfl
    rw [defer, if_neg (by simp [hpositive])]
    refine ⟨es, { j with stage }, .goes hg rfl rfl rfl, rfl, rfl, rfl, ?_⟩
    rw [line_post, hrun]
    rfl
  | idle hfin => simp [hf] at hfin

theorem Awake.shift_step (h : Awake s) (hq : s.queue.head? = some (.step i)) : Shift s .turn := by
  have hline : s.line = i :: s.popped.line := line_popped hq
  obtain ⟨j, hj, hf⟩ := h.job (hline ▸ List.mem_cons_self)
  obtain ⟨es, j', hres, hjournal, hjobs, hasleep, hl⟩ :=
    (stepped_step s.popped i j).line hf h.due h.step
  rw [← move_step hq hj] at hjournal hjobs hl
  refine .steps j' (by simp [resumes, hq]) hline hj hl hjobs (hasleep.trans (h.awake i j hj)) hres ?_
  rw [deliveries, hjournal, List.filterMap_append, hres.deliveries]
  rfl

theorem Awake.shift (h : Awake s) (hm : m.cancels = false) : Shift s m := by
  cases m with
  | start e => exact .starts rfl
  | cancel i => cases hm
  | cancelAll => cases hm
  | wait i limit => exact .of_aside h.placed rfl (fun _ => rfl) (.wait s i limit)
  | abandon c => exact .of_aside h.placed rfl (fun _ => rfl) (.abandon s c)
  | pause => exact .of_aside h.placed rfl (fun _ => rfl) (.pause s)
  | elapse t =>
    refine .of_aside h.placed rfl (fun _ => rfl) ?_
    rw [Scheduler.move]
    split
    · rename_i ht
      cases hw : t.sleeper with
      | call c => exact .elapse ht hw
      | job i =>
        have hpos : 0 < s.sleepers i := List.countP_pos_iff.2 ⟨t, ht, by simp [hw]⟩
        obtain ⟨j, hj, -, hasleep, -⟩ := (h.placed i).sleeper hpos
        rw [h.awake i j hj] at hasleep
        cases hasleep
    · exact .refl s
  | turn =>
    rcases s.step_or_aside with ⟨i, hq⟩ | ⟨hne, ha⟩
    · exact h.shift_step hq
    · exact .of_aside h.placed rfl (fun i => by simp [resumes, hne i]) ha

theorem Awake.move (h : Awake s) (hm : m.cancels = false) : Awake (s.move m) := by
  have hmoved := moved h.placed m
  refine ⟨hmoved.placed, fun k => ?_, fun k => ?_, hmoved.sink ▸ h.accepts, hmoved.settings ▸ h.due,
    hmoved.settings ▸ h.step⟩
  · cases h.shift hm with
    | @starts e he =>
      subst he
      exact (h.awake k).start (fun _ => rfl) e
    | rests _ _ hj =>
      intro j' hj'
      have hbare : (s.jobs[k]?).map Job.bare = some j'.bare := by
        rw [← List.getElem?_map, ← hj, List.getElem?_map, hj']
        rfl
      obtain ⟨j, hj, heq⟩ := Option.map_eq_some_iff.1 hbare
      exact (congrArg Job.asleep heq).symm.trans (h.awake k j hj)
    | steps j' _ _ hj _ hj' ha => exact of_setJob _ hj hj' (fun _ _ => ha) (h.awake k)
  · refine (h.spared k).move (keeps_spared _ _ ?_ ?_)
    · rintro rfl
      cases hm
    · rintro rfl
      cases hm

theorem Awake.moves (h : Awake s) {ms : List Move} (hms : ∀ m ∈ ms, m.cancels = false) :
    Awake (s.moves ms) := by
  induction ms generalizing s with
  | nil => exact h
  | cons m ms ih =>
    obtain ⟨hm, hms⟩ := List.forall_mem_cons.1 hms
    exact ih (h.move hm) hms

theorem awake_initial {settings : Settings} {sink : Sink}
    (hdue : settings.dueTime.isPositive = false) (hstep : settings.stepDelay.isPositive = false)
    (hsink : ∀ before ev, sink.refuses before ev = none) : Awake (initial settings sink) where
  placed := placed_initial settings sink
  awake i j hj := by cases hj
  spared i j hj := by cases hj
  accepts := hsink
  due := hdue
  step := hstep

/-- The resumptions that a job has had and those that it has left are its solo trace. -/
theorem Traced.append_rest {rs : List (List Event)} {j : Job} (h : Traced s i rs)
    (hj : s.jobs[i]? = some j) (hs : j.Spared) :
    rs ++ j.rest s.settings.rules = trace s.settings.rules j.expression := by
  have hrun := h.present j hj
  unfold Job.rest
  cases hst : j.stage with
  | created =>
    rw [hst] at hrun
    cases hrun
    rfl
  | deferred =>
    rw [hst] at hrun
    cases hrun
    rfl
  | scanning scan =>
    rw [hst] at hrun
    cases hrun with
    | scanning hl => rw [trace, hl.loneEvents_eq, List.cons_append]
  | finished r =>
    rw [hst] at hrun
    cases hrun with
    | found => exact List.append_nil _
    | fault => exact List.append_nil _
    | cancelled => exact absurd (by rw [Job.result?, hst]) hs.2

/-- The events of every resumption that the job with the number `i` has left. -/
def restOf (s : Scheduler) (i : Nat) : List (List Event) :=
  ((s.jobs[i]?).map (Job.rest s.settings.rules)).getD []

/-- The jobs in line, each with what it has left. -/
def lineup (s : Scheduler) : List (Nat × List (List Event)) := s.line.map fun i => (i, s.restOf i)

theorem restOf_eq {j : Job} (hj : s.jobs[i]? = some j) : s.restOf i = j.rest s.settings.rules := by
  rw [restOf, hj]
  rfl

theorem restOf_of_bare (hset : s'.settings = s.settings)
    (hj : s'.jobs.map Job.bare = s.jobs.map Job.bare) (i : Nat) : s'.restOf i = s.restOf i := by
  have hrest : Job.rest s.settings.rules = Job.rest s.settings.rules ∘ Job.bare :=
    funext fun j => (Job.rest_of_bare rfl).symm
  have hbare : (s'.jobs[i]?).map Job.bare = (s.jobs[i]?).map Job.bare := by
    rw [← List.getElem?_map, ← List.getElem?_map, hj]
  rw [restOf, restOf, hset, hrest, ← Option.map_map, ← Option.map_map, hbare]

theorem map_fst_lineup (s : Scheduler) : s.lineup.map Prod.fst = s.line := by
  rw [lineup, List.map_map]
  exact List.map_id _

theorem Awake.rest_ne_nil (h : Awake s) : ∀ item ∈ s.lineup, item.2 ≠ [] := by
  intro item hitem
  obtain ⟨i, hi, rfl⟩ := List.mem_map.1 hitem
  obtain ⟨j, hj, hf⟩ := h.job hi
  show s.restOf i ≠ []
  rw [restOf_eq hj, ne_eq, Job.rest_eq_nil, hf]
  exact Bool.false_ne_true

theorem Awake.mem_line_iff (h : Awake s) (hlt : i < s.jobs.length) :
    i ∈ s.line ↔ s.outcome i = none := by
  have hj := List.getElem?_eq_getElem hlt
  rw [outcome_eq_none hj]
  constructor
  · intro hi
    obtain ⟨j, hj', hf⟩ := h.job hi
    rw [hj] at hj'
    cases hj'
    exact hf
  · exact h.mem_line hj

/-- What a move that starts and cancels nothing does to the jobs in line: nothing, or the first of
them has its turn. -/
inductive Rotates (s : Scheduler) (m : Move) : Prop
  | rests (hl : (s.move m).lineup = s.lineup) (hd : (s.move m).deliveries = s.deliveries)
  | turns {i : Nat} {evs : List Event} {rest : List (List Event)}
      {line : List (Nat × List (List Event))} (hl : s.lineup = (i, evs :: rest) :: line)
      (hl' : (s.move m).lineup = line ++ lined i rest)
      (hd : (s.move m).deliveries = s.deliveries ++ evs.map (Prod.mk i))

theorem Awake.rotates (h : Awake s) (hm : m.cancels = false) (hstart : m.started = []) :
    Rotates s m := by
  have hset := (moved h.placed m).settings
  cases h.shift hm with
  | starts he =>
    subst he
    cases hstart
  | rests _ hl hj hd =>
    refine .rests ?_ hd
    rw [lineup, lineup, hl]
    exact List.map_congr_left fun i _ => by rw [restOf_of_bare hset hj]
  | @steps i j j' es line _ hl hj hl' hj' _ hres hd =>
    have hfirst : s.lineup = (i, es.filterMap Entry.event? :: j'.rest s.settings.rules) ::
        line.map fun k => (k, s.restOf k) := by
      rw [lineup, hl, List.map_cons, restOf_eq hj, hres.rest_eq h.accepts (h.spared i j hj).1]
    have hi : (s.move m).restOf i = j'.rest s.settings.rules := by
      rw [restOf, hj', List.getElem?_set_self (List.getElem?_eq_some_iff.1 hj).1, hset]
      rfl
    have hothers : ∀ k ∈ line, (s.move m).restOf k = s.restOf k := by
      intro k hk
      have hne : i ≠ k := by
        rintro rfl
        exact (List.nodup_cons.1 (hl ▸ h.nodup)).1 hk
      rw [restOf, restOf, hj', List.getElem?_set_ne hne, hset]
    have hlast : (if j'.isFinished then [] else [i]).map (fun k => (k, (s.move m).restOf k)) =
        lined i (j'.rest s.settings.rules) := by
      split
      · rename_i hf
        rw [Job.rest_eq_nil.2 hf]
        rfl
      · rename_i hf
        rw [lined_of_ne_nil (hf ∘ Job.rest_eq_nil.1), List.map_singleton, hi]
    refine .turns hfirst ?_ hd
    rw [lineup, hl', List.map_append, hlast]
    congr 1
    exact List.map_congr_left fun k hk => by rw [hothers k hk]

/-- At most one job leaves the line at a time. -/
theorem Rotates.leaves (h : Rotates s m) (hi : i ∈ s.line) (hk : k ∈ s.line)
    (hi' : i ∉ (s.move m).line) (hk' : k ∉ (s.move m).line) : i = k := by
  rw [← map_fst_lineup] at hi hk hi' hk'
  cases h with
  | rests hl => exact absurd (hl ▸ hi) hi'
  | @turns x evs rest line hl hl' =>
    have hfirst {n : Nat} (hn : n ∈ s.lineup.map Prod.fst)
        (hn' : n ∉ (s.move m).lineup.map Prod.fst) : n = x := by
      rw [hl, List.map_cons] at hn
      rw [hl', List.map_append] at hn'
      exact (List.mem_cons.1 hn).resolve_right fun hmem => hn' (List.mem_append_left _ hmem)
    exact (hfirst hi hi').trans (hfirst hk hk').symm

end Scheduler

end PartScan
