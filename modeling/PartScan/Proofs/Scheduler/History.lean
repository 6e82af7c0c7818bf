import PartScan.Proofs.Scheduler.Quiet
import PartScan.Proofs.Scheduler.Step

/-! # Resumptions of jobs

Seen from one job, a move resumes it or leaves it at its stage, and only a resumption gives the sink
something of it. Since a move is not interrupted, the events of a resumption stand together.
-/

namespace PartScan

/-- The event of an entry with its job, if it is one. -/
def Entry.delivery? : Entry → Option (Nat × Event)
  | .event i ev => some (i, ev)
  | _ => none

/-- The event of a report on an expression, if it is one. -/
def Notice.event? (e : List Char) : Notice → Option Event
  | .progress p => some (.progress e p)
  | _ => none

def heard (e : List Char) (ns : List Notice) : List Event := ns.filterMap (Notice.event? e)

namespace Scheduler

/-- The events that the sink was given so far, each with its job. -/
def deliveries (s : Scheduler) : List (Nat × Event) := s.journal.filterMap Entry.delivery?

def eventsOf (s : Scheduler) (i : Nat) : List Event :=
  (s.deliveries.filter fun d => d.1 = i).map Prod.snd

/-- Whether a move takes the next step of a job. -/
def resumes (s : Scheduler) (i : Nat) : Move → Bool
  | .turn => s.queue.head? = some (.step i)
  | _ => false

/-- The events that a move gives to the sink. -/
def emitted (s : Scheduler) (m : Move) : List Event := (s.move m).events.drop s.events.length

/-- The events of every resumption of a job in a run. -/
def resumptions (i : Nat) (s : Scheduler) : List Move → List (List Event)
  | [] => []
  | m :: ms => (if s.resumes i m then [s.emitted m] else []) ++ resumptions i (s.move m) ms

theorem map_snd_deliveries (es : List Entry) :
    (es.filterMap Entry.delivery?).map Prod.snd = es.filterMap Entry.event? := by
  rw [List.map_filterMap]
  apply List.filterMap_congr
  intro en _
  cases en <;> rfl

theorem eventsOf_of_self {s s' : Scheduler} {i : Nat} {evs : List Event}
    (h : s'.deliveries = s.deliveries ++ evs.map (Prod.mk i)) :
    s'.eventsOf i = s.eventsOf i ++ evs := by
  rw [eventsOf, eventsOf, h, List.filter_append, List.map_append]
  simp [List.filter_map, Function.comp_def]

theorem eventsOf_of_others {s s' : Scheduler} {i : Nat} {ds : List (Nat × Event)}
    (h : s'.deliveries = s.deliveries ++ ds) (hd : ∀ d ∈ ds, d.1 ≠ i) :
    s'.eventsOf i = s.eventsOf i := by
  have hnil : ds.filter (fun d => decide (d.1 = i)) = [] :=
    List.filter_eq_nil_iff.2 fun d hmem => by simpa using hd d hmem
  rw [eventsOf, eventsOf, h, List.filter_append, hnil, List.append_nil]

theorem emitted_of_deliveries {s : Scheduler} {m : Move} {ds : List (Nat × Event)}
    (h : (s.move m).deliveries = s.deliveries ++ ds) : s.emitted m = ds.map Prod.snd := by
  have hevents (s : Scheduler) : s.events = s.deliveries.map Prod.snd :=
    (map_snd_deliveries s.journal).symm
  rw [emitted, hevents, hevents, h, List.map_append, List.drop_left]

/-- What a step makes of the job `j` with the number `i`. -/
inductive Resumed (set : Settings) (sink : Sink) (i : Nat) (j : Job) : List Entry → Job → Prop
  | ends {es : List Entry} {r : JobResult} {j' : Job} (h : Ends set sink i j es r)
      (hs : j'.stage = .finished r) (he : j'.expression = j.expression)
      (hc : j'.cancelRequested = j.cancelRequested) : Resumed set sink i j es j'
  | goes {es : List Entry} {stage : Stage} {j' : Job} (h : Goes set i j es stage)
      (hs : j'.stage = stage) (he : j'.expression = j.expression)
      (hc : j'.cancelRequested = j.cancelRequested) : Resumed set sink i j es j'

theorem Resumed.expression {set : Settings} {sink : Sink} {i : Nat} {j j' : Job}
    {es : List Entry} (h : Resumed set sink i j es j') : j'.expression = j.expression := by
  cases h <;> assumption

theorem filterMap_event?_entry (i : Nat) (e : List Char) (ns : List Notice) :
    (ns.map (Notice.entry i e)).filterMap Entry.event? = heard e ns := by
  rw [heard, List.filterMap_map]
  apply List.filterMap_congr
  intro n _
  cases n <;> rfl

/-- A step of a job gives the sink events of this job only. -/
theorem Resumed.deliveries {set : Settings} {sink : Sink} {i : Nat} {j j' : Job}
    {es : List Entry} (h : Resumed set sink i j es j') :
    es.filterMap Entry.delivery? = (es.filterMap Entry.event?).map (Prod.mk i) := by
  have hreports (ns : List Notice) {rest : List Entry}
      (hrest : rest.filterMap Entry.delivery? = (rest.filterMap Entry.event?).map (Prod.mk i)) :
      (ns.map (Notice.entry i j.expression) ++ rest).filterMap Entry.delivery? =
        ((ns.map (Notice.entry i j.expression) ++ rest).filterMap Entry.event?).map
          (Prod.mk i) := by
    rw [List.filterMap_append, List.filterMap_append, List.map_append, hrest,
      List.append_left_inj, List.map_filterMap, List.filterMap_map, List.filterMap_map]
    apply List.filterMap_congr
    intro n _
    cases n <;> rfl
  cases h with
  | ends h =>
    cases h with
    | dropped => rfl
    | cancelled => rfl
    | fault => exact hreports _ rfl
    | found => exact hreports _ rfl
    | refused => exact hreports _ rfl
    | refusedFound => exact hreports _ rfl
  | goes h =>
    cases h with
    | deferred => rfl
    | @scanning _ _ ns =>
      have hnil := hreports ns (rfl : ([] : List Entry).filterMap Entry.delivery? = _)
      rwa [List.append_nil] at hnil

theorem count_handle (i k : Nat) (bs : List Callback) :
    (bs.map (Callback.handle i)).count (.step k) = 0 := by
  rw [List.count_eq_zero]
  rintro h
  obtain ⟨b, -, hb⟩ := List.mem_map.1 h
  cases b <;> cases hb

/-- A step of the job `j` with the number `i` has made it the job `j'`, which waits for its next step
if it goes on, and has left everything of the other jobs. -/
structure StepEffect (s s' : Scheduler) (i : Nat) (j : Job) (es : List Entry) (j' : Job) : Prop where
  settings : s'.settings = s.settings
  sink : s'.sink = s.sink
  journal : s'.journal = s.journal ++ es
  jobs : s'.jobs = s.jobs.set i j'
  resumed : Resumed s.settings s.sink i j es j'
  placing : Placing (some j') (s'.steps i) (s'.sleepers i)
  steps : ∀ k, k ≠ i → s'.steps k = s.steps k
  sleepers : ∀ k, k ≠ i → s'.sleepers k = s.sleepers k

section Step

variable {s s' : Scheduler} {i : Nat} {j : Job}

theorem Stepped.effect (h : Stepped s i j s') (hf : j.isFinished = false)
    (ha : j.asleep = false) (hsteps : s.steps i = 0) (hsleepers : s.sleepers i = 0) :
    ∃ es j', StepEffect s s' i j es j' := by
  cases h with
  | @ends es r h =>
    have hcount (k : Nat) : ((s.recordAll es).finish i j r).steps k = s.steps k := by
      simp [Scheduler.steps, finish, recordAll, List.count_append, count_handle]
    refine ⟨es, _, rfl, rfl, rfl, rfl, .ends h rfl rfl rfl, ?_, fun k _ => hcount k,
      fun _ _ => rfl⟩
    rw [hcount, hsteps]
    exact ⟨rfl, hsleepers⟩
  | @goes es stage h =>
    have hstage : ∀ r, stage ≠ .finished r := by
      cases h <;> simp
    have hrun (a : Bool) : Job.isFinished { j with stage, asleep := a } = false := by
      cases stage with
      | finished r => exact absurd rfl (hstage r)
      | _ => rfl
    unfold defer
    split
    · cases hd : (j.delay s.settings).length? with
      | none =>
        -- a timer that never elapses leaves the job asleep without one
        refine ⟨es, _, rfl, rfl, rfl, rfl, .goes h rfl rfl rfl, ?_, fun _ _ => rfl, fun _ _ => rfl⟩
        rw [Placing, if_neg (by simp [hrun]), if_pos rfl]
        exact ⟨hsteps, Nat.le_trans (Nat.le_of_eq hsleepers) (Nat.zero_le 1)⟩
      | some t =>
        have hcount (k : Nat) : (((s.recordAll es).setJob i
            { j with stage, asleep := true }).setTimer (some t) (.job i)).sleepers k =
            s.sleepers k + if i = k then 1 else 0 := by
          by_cases hk : i = k <;> simp [Scheduler.sleepers, setTimer, setJob, recordAll, hk]
        refine ⟨es, _, rfl, rfl, rfl, rfl, .goes h rfl rfl rfl, ?_, fun _ _ => rfl, fun k hk => ?_⟩
        · rw [hcount, hsleepers, Placing, if_neg (by simp [hrun]), if_pos rfl]
          exact ⟨hsteps, by simp⟩
        · rw [hcount, if_neg hk.symm, Nat.add_zero]
    · refine ⟨es, _, rfl, rfl, rfl, rfl, .goes h rfl rfl rfl, ?_, fun k hk => ?_, fun _ _ => rfl⟩
      · rw [steps_post, if_pos rfl, sleepers_post]
        show Placing _ (s.steps i + 1) (s.sleepers i)
        rw [hsteps, hsleepers]
        exact placing_awake (ha ▸ hrun j.asleep) ha
      · rw [steps_post, if_neg (by simpa using hk.symm)]
        rfl
  | idle h => simp [hf] at h

end Step

/-- What a move does to the job with the number `i`: it leaves the job at its stage, it makes the
job, or it takes the job's next step. -/
inductive Effect (s : Scheduler) (i : Nat) (m : Move) : Prop
  | rests {ds : List (Nat × Event)} (hr : s.resumes i m = false)
      (hj : Option.Rel Job.Touched s.jobs[i]? (s.move m).jobs[i]?)
      (hd : (s.move m).deliveries = s.deliveries ++ ds) (hne : ∀ d ∈ ds, d.1 ≠ i)
  | starts {e : List Char} (hr : s.resumes i m = false) (hj : s.jobs[i]? = none)
      (hj' : (s.move m).jobs[i]? = some { expression := e })
      (hd : (s.move m).deliveries = s.deliveries)
  | steps {j j' : Job} {es : List Entry} (hr : s.resumes i m = true) (hj : s.jobs[i]? = some j)
      (hj' : (s.move m).jobs[i]? = some j') (h : Resumed s.settings s.sink i j es j')
      (hd : (s.move m).deliveries =
        s.deliveries ++ (es.filterMap Entry.event?).map (Prod.mk i))

/-- What every move keeps, and what it does to each job. -/
structure Moved (s : Scheduler) (m : Move) : Prop where
  settings : (s.move m).settings = s.settings
  sink : (s.move m).sink = s.sink
  placed : ∀ i, (s.move m).Placed i
  expressions : (s.move m).jobs.map Job.expression = s.jobs.map Job.expression ++ m.started
  effect : ∀ i, s.Effect i m

variable {s : Scheduler}

theorem Quiet.moved {m : Move} (hp : ∀ i, s.Placed i) (h : Quiet s (s.move m))
    (hm : m.started = []) (hr : ∀ i, s.resumes i m = false) : s.Moved m where
  settings := h.settings
  sink := h.sink
  placed i := h.placed i (hp i)
  expressions := by
    rw [hm, List.append_nil]
    apply List.ext_getElem?
    intro i
    rw [List.getElem?_map, List.getElem?_map]
    exact map_expression_of_rel (h.jobs i)
  effect i := .rests (hr i) (h.jobs i) (by rw [deliveries, h.journal, List.append_nil]; rfl)
    (by simp)

/-- A new job comes behind the others, with its first step in the queue. -/
theorem moved_start (hp : ∀ i, s.Placed i) (e : List Char) : s.Moved (.start e) where
  settings := rfl
  sink := rfl
  placed i := by
    have hcount : (s.move (.start e)).steps i =
        s.steps i + if s.jobs.length = i then 1 else 0 := by
      by_cases hi : s.jobs.length = i <;>
        simp [move, start, record, post, steps, List.count_append, hi]
    have hi := hp i
    rw [Placed, hcount]
    show Placing (s.jobs ++ [{ expression := e }])[i]? _ (s.sleepers i)
    rw [Placed] at hi
    rcases Nat.lt_trichotomy i s.jobs.length with hlt | rfl | hgt
    · rwa [List.getElem?_append_left hlt, if_neg (Nat.ne_of_gt hlt)]
    · rw [List.getElem?_eq_none (Nat.le_refl _)] at hi
      rw [List.getElem?_concat_length, if_pos rfl, hi.1, hi.2]
      exact placing_awake rfl rfl
    · rw [List.getElem?_eq_none (Nat.le_of_lt hgt)] at hi
      rwa [List.getElem?_eq_none (by simpa [Nat.succ_le_iff] using hgt), if_neg (Nat.ne_of_lt hgt)]
  expressions := List.map_append
  effect i := by
    have hd : (s.move (.start e)).deliveries = s.deliveries := by
      simp [move, start, record, post, deliveries, Entry.delivery?]
    rcases eq_or_ne i s.jobs.length with rfl | hi
    · exact .starts rfl (List.getElem?_eq_none (Nat.le_refl _)) List.getElem?_concat_length hd
    · refine .rests rfl ?_ (hd.trans (List.append_nil _).symm) (by simp)
      have hsame : (s.move (.start e)).jobs[i]? = s.jobs[i]? := by
        show (s.jobs ++ [({ expression := e } : Job)])[i]? = s.jobs[i]?
        rw [List.getElem?_append]
        split
        · rfl
        · rw [List.getElem?_eq_none (l := s.jobs) (by omega), List.getElem?_eq_none (by simp; omega)]
      rw [hsame]
      exact rel_touched_refl _

/-- What a turn does that takes the next step of the job `i`. -/
theorem step_effect (hp : ∀ i, s.Placed i) {i : Nat} (hq : s.queue.head? = some (.step i)) :
    ∃ j es j', s.jobs[i]? = some j ∧ StepEffect s.popped (s.move .turn) i j es j' ∧
      ∀ k, s.steps k = s.popped.steps k + if i = k then 1 else 0 := by
  obtain ⟨rest, hrest⟩ := List.head?_eq_some_iff.1 hq
  have hcount (k : Nat) : s.steps k = s.popped.steps k + if i = k then 1 else 0 := by
    by_cases hk : i = k <;> simp [Scheduler.steps, popped, hrest, hk]
  obtain ⟨j, hj, hf, ha, hsteps, hsleepers⟩ := (hp i).step (by rw [hcount, if_pos rfl]; omega)
  have hzero : s.popped.steps i = 0 := by
    have := hcount i
    rw [if_pos rfl] at this
    omega
  obtain ⟨es, j', heffect⟩ := (stepped_step s.popped i j).effect hf ha hzero hsleepers
  rw [← move_step hq hj] at heffect
  exact ⟨j, es, j', hj, heffect, hcount⟩

theorem moved_step (hp : ∀ i, s.Placed i) {i : Nat} (hq : s.queue.head? = some (.step i)) :
    s.Moved .turn := by
  obtain ⟨j, es, j', hj, heffect, hcount⟩ := step_effect hp hq
  have hjobs : (s.move .turn).jobs = s.jobs.set i j' := heffect.jobs
  have hlt : i < s.jobs.length := (List.getElem?_eq_some_iff.1 hj).1
  have hd : (s.move .turn).deliveries =
      s.deliveries ++ (es.filterMap Entry.event?).map (Prod.mk i) := by
    rw [deliveries, heffect.journal, List.filterMap_append, heffect.resumed.deliveries]
    rfl
  refine ⟨heffect.settings, heffect.sink, fun k => ?_, ?_, fun k => ?_⟩
  · refine placed_of_set hj hjobs (fun _ => heffect.placing) (fun k hk => ?_) heffect.sleepers k
      (hp k)
    rw [heffect.steps k hk, hcount k, if_neg hk.symm, Nat.add_zero]
  · show (s.move .turn).jobs.map Job.expression = s.jobs.map Job.expression ++ []
    rw [hjobs, List.append_nil]
    apply List.ext_getElem?
    intro k
    rw [List.getElem?_map, List.getElem?_map]
    rcases eq_or_ne k i with rfl | hk
    · rw [List.getElem?_set_self hlt, hj]
      exact congrArg some heffect.resumed.expression
    · rw [List.getElem?_set_ne hk.symm]
  · rcases eq_or_ne k i with rfl | hk
    · refine .steps (by simp [resumes, hq]) hj ?_ heffect.resumed hd
      rw [hjobs]
      exact List.getElem?_set_self hlt
    · refine .rests (by simp [resumes, hq, hk.symm]) ?_ hd ?_
      · rw [hjobs, List.getElem?_set_ne hk.symm]
        exact rel_touched_refl _
      · rintro d hmem
        obtain ⟨ev, -, rfl⟩ := List.mem_map.1 hmem
        exact hk.symm

/-- A move makes a job, takes the next step of one, or is quiet. -/
theorem starts_or_steps_or_quiet (hp : ∀ i, s.Placed i) (m : Move) :
    (∃ e, m = .start e) ∨ (∃ i, m = .turn ∧ s.queue.head? = some (.step i)) ∨
      m.started = [] ∧ (∀ i, s.resumes i m = false) ∧ Quiet s (s.move m) := by
  cases m with
  | start e => exact .inl ⟨e, rfl⟩
  | cancel i => exact .inr (.inr ⟨rfl, fun _ => rfl, .cancel s i⟩)
  | cancelAll => exact .inr (.inr ⟨rfl, fun _ => rfl, .cancelAll s⟩)
  | wait i limit => exact .inr (.inr ⟨rfl, fun _ => rfl, .of_aside (.wait s i limit)⟩)
  | abandon c => exact .inr (.inr ⟨rfl, fun _ => rfl, .of_aside (.abandon s c)⟩)
  | pause => exact .inr (.inr ⟨rfl, fun _ => rfl, .of_aside (.pause s)⟩)
  | turn =>
    rcases s.step_or_aside with ⟨i, hq⟩ | ⟨hne, haside⟩
    · exact .inr (.inl ⟨i, rfl, hq⟩)
    · exact .inr (.inr ⟨rfl, fun i => by simp [resumes, hne i], .of_aside haside⟩)
  | elapse t =>
    refine .inr (.inr ⟨rfl, fun _ => rfl, ?_⟩)
    rw [move]
    split
    · exact .elapse hp ‹_›
    · exact .refl s

/-- Every move leaves each job at its stage, makes it, or takes its next step. -/
theorem moved (hp : ∀ i, s.Placed i) (m : Move) : s.Moved m := by
  rcases starts_or_steps_or_quiet hp m with ⟨e, rfl⟩ | ⟨i, rfl, hq⟩ | ⟨hm, hr, hquiet⟩
  · exact moved_start hp e
  · exact moved_step hp hq
  · exact hquiet.moved hp hm hr

theorem placed_initial (settings : Settings) (sink : Sink) (i : Nat) :
    (initial settings sink).Placed i := ⟨rfl, rfl⟩

theorem placed_moves (hp : ∀ i, s.Placed i) (ms : List Move) : ∀ i, (s.moves ms).Placed i :=
  moves_induction (P := fun s => ∀ i, s.Placed i) (fun _ m h => (moved h m).placed) hp ms

/-- In every run, a job that has not ended waits for exactly one next step. -/
theorem placed_after (settings : Settings) (sink : Sink) (ms : List Move) :
    ∀ i, (after settings sink ms).Placed i := placed_moves (placed_initial settings sink) ms

theorem sink_moves (hp : ∀ i, s.Placed i) (ms : List Move) : (s.moves ms).sink = s.sink := by
  induction ms generalizing s with
  | nil => rfl
  | cons m ms ih => exact (ih (moved hp m).placed).trans (moved hp m).sink

theorem deliveries_prefix_move (hp : ∀ i, s.Placed i) (m : Move) :
    s.deliveries <+: (s.move m).deliveries := by
  cases (moved hp m).effect 0 with
  | rests _ _ hd => exact ⟨_, hd.symm⟩
  | starts _ _ _ hd => exact ⟨[], (List.append_nil _).trans hd.symm⟩
  | steps _ _ _ _ hd => exact ⟨_, hd.symm⟩

/-- The sink keeps what it was given. -/
theorem deliveries_prefix_moves (hp : ∀ i, s.Placed i) (ms : List Move) :
    s.deliveries <+: (s.moves ms).deliveries := by
  induction ms generalizing s with
  | nil => exact List.prefix_refl _
  | cons m ms ih => exact (deliveries_prefix_move hp m).trans (ih (moved hp m).placed)

end Scheduler

end PartScan
