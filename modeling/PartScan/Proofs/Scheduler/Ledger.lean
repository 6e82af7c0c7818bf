import PartScan.Proofs.Scheduler.Completion
import PartScan.Proofs.Scheduler.Journal

/-! # The ledger of a job

A job is scheduled once, and closed at most once, by the line that its end calls for. An end is
silent where the job never began, and where the sink has refused its completion.
-/

namespace PartScan

open Number Text

theorem Notice.isClosing_entry (i : Nat) (e : List Char) (n : Notice) :
    (n.entry i e).isClosing = false := by
  cases n <;> rfl

namespace Scheduler

/-- How many steps a job has had in a run. The step that ends it is one of them. -/
def stepsTaken (i : Nat) (s : Scheduler) (ms : List Move) : Nat := (resumptions i s ms).length

def closings (s : Scheduler) (i : Nat) : List Entry := (s.linesOf i).filter Entry.isClosing

/-- The line that closes the job with the number `i` and the expression `e`, which has had `n` steps
and given the sink the events `evs`. -/
def closing? (sink : Sink) (i : Nat) (e : List Char) (n : Nat) (evs : List Event) :
    Option JobResult → Option Entry
  | none => none
  | some (.found vs) => some (.completed i e vs.length)
  | some (.fault f) => some (.failed i e (some f))
  | some (.refused w) =>
    if evs.any Event.isCompletion then none else some (.failed i e (sink.fault? w))
  | some .cancelled => if n ≤ 1 then none else some (.cancelled i e)

section Account

variable {set : Settings} {sink : Sink} {i n : Nat} {j j' : Job} {es : List Entry}
  {evs : List Event} {ls : List Entry}

/-- The closing lines `ls` of a job at a stage, after `n` steps in which it gave the sink `evs`. -/
inductive Account (sink : Sink) (i : Nat) (e : List Char) :
    Stage → Nat → List Event → List Entry → Prop
  | created : Account sink i e .created 0 [] []
  | began {stage : Stage} {n : Nat} {evs : List Event} (hn : 1 ≤ n)
      (hs : stage = .deferred ∨ ∃ scan, stage = .scanning scan)
      (hc : evs.any Event.isCompletion = false) : Account sink i e stage n evs []
  | ended {r : JobResult} {n : Nat} {evs : List Event} (hn : 1 ≤ n)
      (hc : evs.dropLast.any Event.isCompletion = false) :
      Account sink i e (.finished r) n evs (closing? sink i e n evs (some r)).toList

theorem Account.of_scan? {scan : Scan} (h : Account sink i j.expression j.stage n evs ls)
    (hs : j.scan? set.rules = some scan) :
    1 ≤ n ∧ evs.any Event.isCompletion = false ∧ ls = [] := by
  unfold Job.scan? at hs
  generalize j.stage = stage at h hs
  cases h with
  | created => cases hs
  | began hn _ hc => exact ⟨hn, hc, rfl⟩
  | ended => cases hs

theorem filter_isClosing_reports (ns : List Notice) (e : List Char) :
    (ns.map (Notice.entry i e)).filter Entry.isClosing = [] := by
  apply List.filter_eq_nil_iff.2
  rintro en hen
  obtain ⟨n, -, rfl⟩ := List.mem_map.1 hen
  simp [Notice.isClosing_entry]

theorem any_isCompletion_heard (e : List Char) (ns : List Notice) :
    (heard e ns).any Event.isCompletion = false :=
  List.any_eq_false.2 fun ev hev => by simp [isCompletion_heard hev]

theorem any_isCompletion_dropLast {front last : List Event}
    (hf : front.any Event.isCompletion = false) (hl : last.length ≤ 1) :
    (front ++ last).dropLast.any Event.isCompletion = false := by
  match last, hl with
  | [], _ =>
    rw [List.append_nil, List.any_eq_false]
    exact fun ev hev => List.any_eq_false.1 hf ev (List.dropLast_subset front hev)
  | [ev], _ => rwa [List.dropLast_concat]

theorem Account.ends {r : JobResult} (h : Account sink i j.expression j.stage n evs ls)
    (he : Ends set sink i j es r) :
    Account sink i j.expression (.finished r) (n + 1) (evs ++ es.filterMap Entry.event?)
      (ls ++ es.filter Entry.isClosing) := by
  have hsilent {scan : Scan} (ns : List Notice) (hs : j.scan? set.rules = some scan) :
      (evs ++ heard j.expression ns).any Event.isCompletion = false := by
    rw [List.any_append, any_isCompletion_heard, (h.of_scan? hs).2.1]
    rfl
  -- what a resumed scan reports is no closing line and no completion
  have hreports {scan : Scan} (ns : List Notice) (rest : List Entry)
      (hs : j.scan? set.rules = some scan) (hlast : (rest.filterMap Entry.event?).length ≤ 1)
      (hrest : rest.filter Entry.isClosing = (closing? sink i j.expression (n + 1)
        (evs ++ heard j.expression ns ++ rest.filterMap Entry.event?) (some r)).toList) :
      Account sink i j.expression (.finished r) (n + 1)
        (evs ++ (ns.map (Notice.entry i j.expression) ++ rest).filterMap Entry.event?)
        (ls ++ (ns.map (Notice.entry i j.expression) ++ rest).filter Entry.isClosing) := by
    obtain ⟨-, -, rfl⟩ := h.of_scan? hs
    rw [List.filterMap_append, filterMap_event?_entry, List.filter_append,
      filter_isClosing_reports, List.nil_append, List.nil_append, hrest, ← List.append_assoc]
    exact .ended (Nat.le_add_left 1 n) (any_isCompletion_dropLast (hsilent ns hs) hlast)
  cases he with
  | dropped hs =>
    rw [hs] at h
    cases h with
    | created => exact .ended (Nat.le_refl 1) rfl
    | began _ hs => simp at hs
  | cancelled hs =>
    have hn := (h.of_scan? hs).1
    refine hreports [] [.cancelled i j.expression] hs (Nat.zero_le 1) (Eq.symm ?_)
    exact congrArg Option.toList (if_neg (by omega))
  | fault hs => exact hreports _ _ hs (Nat.zero_le 1) rfl
  | found hs => exact hreports _ _ hs (Nat.le_refl 1) rfl
  | @refused _ ns _ p _ _ _ hs =>
    refine hreports _ _ hs (Nat.zero_le 1) (Eq.symm ?_)
    have hnone := hsilent (ns ++ [.progress p]) hs
    rw [← List.append_nil (evs ++ _)] at hnone
    exact congrArg Option.toList (if_neg (Bool.eq_false_iff.1 hnone))
  | refusedFound hs =>
    refine hreports _ _ hs (Nat.le_refl 1) ?_
    rw [closing?, if_pos (by simp [Entry.event?, Event.isCompletion])]
    rfl

theorem Account.resumed (h : Account sink i j.expression j.stage n evs ls)
    (hr : Resumed set sink i j es j') :
    Account sink i j'.expression j'.stage (n + 1) (evs ++ es.filterMap Entry.event?)
      (ls ++ es.filter Entry.isClosing) := by
  rw [hr.expression]
  cases hr with
  | ends he hs =>
    rw [hs]
    exact h.ends he
  | goes hg hs =>
    rw [hs]
    cases hg with
    | deferred hst =>
      rw [hst] at h
      cases h with
      | created => exact .began (Nat.le_refl 1) (.inl rfl) rfl
      | began _ hb => simp at hb
    | scanning hscan =>
      obtain ⟨hn, hc, rfl⟩ := h.of_scan? hscan
      rw [filter_isClosing_reports, filterMap_event?_entry]
      refine .began (by omega) (.inr ⟨_, rfl⟩) ?_
      rw [List.any_append, hc, any_isCompletion_heard]
      rfl

theorem Account.eq (h : Account sink i j.expression j.stage n evs ls) :
    ls = (closing? sink i j.expression n evs j.result?).toList ∧ (j.result? ≠ none → 1 ≤ n) := by
  rw [Job.result?]
  generalize j.stage = stage at h
  cases h with
  | created => exact ⟨rfl, fun h => absurd rfl h⟩
  | began hn hs =>
    rcases hs with rfl | ⟨scan, rfl⟩
    · exact ⟨rfl, fun _ => hn⟩
    · exact ⟨rfl, fun _ => hn⟩
  | ended hn _ => exact ⟨rfl, fun _ => hn⟩

/-- A completion is the last event of a job. -/
theorem Account.isCompletion_dropLast (h : Account sink i j.expression j.stage n evs ls) :
    evs.dropLast.any Event.isCompletion = false := by
  generalize j.stage = stage at h
  cases h with
  | created => rfl
  | began _ _ hc =>
    rw [← List.append_nil evs]
    exact any_isCompletion_dropLast hc (Nat.zero_le 1)
  | ended _ hc => exact hc

end Account

section Run

variable {s : Scheduler} {i n : Nat} {j : Job}

/-- The lines of the job with the number `i`, which has had `n` steps: that it is scheduled, and
what its steps have left. -/
structure Accounted (s : Scheduler) (i n : Nat) : Prop where
  placed : ∀ k, s.Placed k
  absent : s.jobs[i]? = none → n = 0 ∧ s.linesOf i = []
  lines : ∀ j, s.jobs[i]? = some j → ∃ es, s.linesOf i = .scheduled i j.expression :: es ∧
    ∀ en ∈ es, Entry.OfStep i j.expression en
  account : ∀ j, s.jobs[i]? = some j →
    Account s.sink i j.expression j.stage n (s.eventsOf i) (s.closings i)

theorem closings_of_linesOf {s' : Scheduler} {es : List Entry}
    (h : s'.linesOf i = s.linesOf i ++ es) :
    s'.closings i = s.closings i ++ es.filter Entry.isClosing := by
  rw [closings, h, List.filter_append]
  rfl

theorem eventsOf_of_linesOf {s' : Scheduler} {es : List Entry}
    (h : s'.linesOf i = s.linesOf i ++ es) :
    s'.eventsOf i = s.eventsOf i ++ es.filterMap Entry.event? := by
  rw [eventsOf_eq, eventsOf_eq, h, List.filterMap_append]

theorem accounted_initial (settings : Settings) (sink : Sink) (i : Nat) :
    Accounted (initial settings sink) i 0 where
  placed := placed_initial settings sink
  absent _ := ⟨rfl, rfl⟩
  lines j hj := by cases hj
  account j hj := by cases hj

theorem Accounted.move (h : Accounted s i n) (m : Move) :
    Accounted (s.move m) i (n + if s.resumes i m then 1 else 0) := by
  obtain ⟨-, hsink, hp, -, -⟩ := moved h.placed m
  cases writes h.placed i m with
  | rests hr hj hl =>
    rw [hr, if_neg Bool.false_ne_true, Nat.add_zero]
    refine ⟨hp, ?_, ?_, ?_⟩
    · intro hnone
      rw [hl]
      exact h.absent (none_of_rel_touched hj hnone)
    · intro j' hj'
      obtain ⟨j, hs, ht⟩ := exists_of_touched_rel hj hj'
      rw [hl, ht.expression]
      exact h.lines j hs
    · intro j' hj'
      obtain ⟨j, hs, ht⟩ := exists_of_touched_rel hj hj'
      rw [hsink, eventsOf_eq, closings, hl, ht.expression, ht.stage, ← eventsOf_eq]
      exact h.account j hs
  | @starts e hr hj hj' hl =>
    obtain ⟨rfl, hnil⟩ := h.absent hj
    rw [hnil, List.nil_append] at hl
    rw [hr, if_neg Bool.false_ne_true]
    refine ⟨hp, ?_, ?_, ?_⟩
    · intro hnone
      rw [hj'] at hnone
      cases hnone
    · intro j hsome
      rw [hj'] at hsome
      cases hsome
      exact ⟨[], hl, List.forall_mem_nil _⟩
    · intro j hsome
      rw [hj'] at hsome
      cases hsome
      rw [eventsOf_eq, closings, hl]
      exact .created
  | @steps j j' es hr hj hj' hres hl =>
    rw [hr, if_pos rfl]
    refine ⟨hp, ?_, ?_, ?_⟩
    · intro hnone
      rw [hj'] at hnone
      cases hnone
    · intro j'' hsome
      rw [hj'] at hsome
      cases hsome
      obtain ⟨es₀, hlines, hof⟩ := h.lines j hj
      refine ⟨es₀ ++ es, ?_, ?_⟩
      · rw [hl, hlines, hres.expression, List.cons_append]
      · rw [hres.expression]
        exact List.forall_mem_append.2 ⟨hof, hres.ofStep⟩
    · intro j'' hsome
      rw [hj'] at hsome
      cases hsome
      rw [hsink, eventsOf_of_linesOf hl, closings_of_linesOf hl]
      exact (h.account j hj).resumed hres

theorem Accounted.moves (h : Accounted s i n) (ms : List Move) :
    Accounted (s.moves ms) i (n + stepsTaken i s ms) := by
  induction ms generalizing s n with
  | nil => exact h
  | cons m ms ih =>
    have hcons : stepsTaken i s (m :: ms) =
        (if s.resumes i m then 1 else 0) + stepsTaken i (s.move m) ms := by
      rw [stepsTaken, resumptions, List.length_append]
      split <;> rfl
    rw [hcons, ← Nat.add_assoc]
    exact ih (h.move m)

/-- Every run keeps account of each of its jobs. -/
theorem accounted_after (settings : Settings) (sink : Sink) (ms : List Move) (i : Nat) :
    Accounted (after settings sink ms) i (stepsTaken i (initial settings sink) ms) := by
  have h := (accounted_initial settings sink i).moves ms
  rwa [Nat.zero_add] at h

/-- The lines of a job in the log of the jobs. -/
def jobLog (id : Nat → List Char) (s : Scheduler) (i : Nat) : List LogLine :=
  ((s.linesOf i).map (Entry.logLine id)).filter fun l => l.source = .jobs

/-- The lines of a job in the log of the jobs behind its first one. -/
def closingLog (id : Nat → List Char) (s : Scheduler) (i : Nat) : List LogLine :=
  (jobLog id s i).tail

/-- What the log of the jobs, which names them by `id`, says of the job `j` with the number `i`,
which has had `n` steps: first and only once that it is scheduled, and then in at most one line how
it has ended. The end of a job is silent if its first step cancelled it, or if the sink has refused
its completion. -/
structure Ledger (id : Nat → List Char) (s : Scheduler) (i : Nat) (j : Job) (n : Nat) :
    Prop where
  scheduled : jobLog id s i = ⟨.info, .jobs, "Scheduled job ".toList ++ id i ++ " for ".toList ++
    quoted j.expression⟩ :: closingLog id s i
  scheduled_once : ∀ l ∈ closingLog id s i, ¬ "Scheduled".toList <+: l.message
  at_most_one : (closingLog id s i).length ≤ 1
  completed : ∀ m, ⟨.info, .jobs, m⟩ ∈ closingLog id s i ↔
    ∃ vs, j.result? = some (.found vs) ∧ m = "Job ".toList ++ id i ++ " for ".toList ++
      quoted j.expression ++ " completed with ".toList ++ Nat.toDigits 10 vs.length ++
      " variables".toList
  failed : ∀ m, ⟨.error, .jobs, m⟩ ∈ closingLog id s i ↔
    (∃ f, j.result? = some (.fault f) ∧ m = "Job ".toList ++ id i ++ " for ".toList ++
      quoted j.expression ++ " failed: ".toList ++ f.message) ∨
    ∃ w, j.result? = some (.refused w) ∧ (∀ ev ∈ s.eventsOf i, ev.isCompletion = false) ∧
      m = "Job ".toList ++ id i ++ " for ".toList ++ quoted j.expression ++
        (s.sink.fault? w).elim " failed".toList fun f => " failed: ".toList ++ f.message
  cancelled : ∀ m, ⟨.warning, .jobs, m⟩ ∈ closingLog id s i ↔
    j.result? = some .cancelled ∧ 2 ≤ n ∧ m = "Job ".toList ++ id i ++ " for ".toList ++
      quoted j.expression ++ " cancelled".toList
  silent : closingLog id s i = [] ↔ j.result? = none ∨ j.result? = some .cancelled ∧ n = 1 ∨
    ∃ w, j.result? = some (.refused w) ∧ ∃ ev ∈ s.eventsOf i, ev.isCompletion = true

theorem Accounted.jobLog_eq (h : Accounted s i n) (hj : s.jobs[i]? = some j)
    (id : Nat → List Char) : jobLog id s i = (Entry.scheduled i j.expression).logLine id ::
      (s.closings i).map (Entry.logLine id) := by
  obtain ⟨es, hlines, hof⟩ := h.lines j hj
  rw [jobLog, closings, hlines, List.map_cons, List.filter_cons_of_pos rfl,
    List.filter_cons_of_neg Bool.false_ne_true, List.filter_map]
  congr 2
  apply List.filter_congr
  intro en hen
  cases hof en hen with
  | report n => cases n <;> rfl
  | failed f? => cases f? <;> rfl
  | _ => rfl

theorem mem_closing?_iff (sink : Sink) (i : Nat) (e : List Char) (n : Nat) (evs : List Event)
    (r? : Option JobResult) (en : Entry) :
    en ∈ (closing? sink i e n evs r?).toList ↔
      (∃ vs, r? = some (.found vs) ∧ en = .completed i e vs.length) ∨
      (∃ f, r? = some (.fault f) ∧ en = .failed i e (some f)) ∨
      (∃ w, r? = some (.refused w) ∧ evs.any Event.isCompletion = false ∧
        en = .failed i e (sink.fault? w)) ∨
      r? = some .cancelled ∧ 2 ≤ n ∧ en = .cancelled i e := by
  cases r? with
  | none => simp [closing?]
  | some r =>
    cases r with
    | found vs => simp [closing?]
    | fault f => simp [closing?]
    | refused w => cases hc : evs.any Event.isCompletion <;> simp [closing?, hc]
    | cancelled =>
      rcases Nat.lt_or_ge n 2 with hn | hn
      · simp [closing?, Nat.le_of_lt_succ hn, Nat.not_le.2 hn]
      · simp [closing?, Nat.not_le.2 hn, hn]

theorem closing?_eq_none_iff (sink : Sink) (i : Nat) (e : List Char) {n : Nat} (evs : List Event)
    {r? : Option JobResult} (hn : r? ≠ none → 1 ≤ n) :
    closing? sink i e n evs r? = none ↔ r? = none ∨ r? = some .cancelled ∧ n = 1 ∨
      ∃ w, r? = some (.refused w) ∧ evs.any Event.isCompletion = true := by
  cases r? with
  | none => simp [closing?]
  | some r =>
    have hpos : 1 ≤ n := hn (by simp)
    cases r with
    | found vs => simp [closing?]
    | fault f => simp [closing?]
    | refused w => simp [closing?]
    | cancelled =>
      simp [closing?]
      omega

section Line

variable (id : Nat → List Char) (i : Nat) (e : List Char)

theorem logLine_completed (count : Nat) :
    (Entry.completed i e count).logLine id = ⟨.info, .jobs, "Job ".toList ++ id i ++
      " for ".toList ++ quoted e ++ " completed with ".toList ++ Nat.toDigits 10 count ++
      " variables".toList⟩ := rfl

theorem logLine_failed (f? : Option Fault) :
    (Entry.failed i e f?).logLine id = ⟨.error, .jobs, "Job ".toList ++ id i ++ " for ".toList ++
      quoted e ++ f?.elim " failed".toList fun f => " failed: ".toList ++ f.message⟩ := by
  cases f? with
  | none => rfl
  | some f => exact congrArg (LogLine.mk .error .jobs) (List.append_assoc _ _ _)

theorem logLine_cancelled :
    (Entry.cancelled i e).logLine id = ⟨.warning, .jobs, "Job ".toList ++ id i ++
      " for ".toList ++ quoted e ++ " cancelled".toList⟩ := rfl

/-- A line that closes a job does not begin like the line that it is scheduled. -/
theorem not_scheduled_of_isClosing {en : Entry} (h : en.isClosing = true) :
    ¬ "Scheduled".toList <+: (en.logLine id).message := by
  have hfront : (en.logLine id).message.head? = some 'J' := by
    cases en with
    | completed => rfl
    | cancelled => rfl
    | failed _ _ f? => cases f? <;> rfl
    | _ => cases h
  rintro ⟨rest, hrest⟩
  have hletters : some 'S' = some 'J' := (congrArg List.head? hrest).trans hfront
  exact absurd hletters (by decide)

end Line

/-- The line that closes a job, with what its end calls for. -/
theorem mem_closingLines_iff (id : Nat → List Char) (sink : Sink) (i : Nat) (e : List Char)
    (n : Nat) (evs : List Event) (r? : Option JobResult) (l : LogLine) :
    l ∈ (closing? sink i e n evs r?).toList.map (Entry.logLine id) ↔
      (∃ vs, r? = some (.found vs) ∧ l = (Entry.completed i e vs.length).logLine id) ∨
      (∃ f, r? = some (.fault f) ∧ l = (Entry.failed i e (some f)).logLine id) ∨
      (∃ w, r? = some (.refused w) ∧ evs.any Event.isCompletion = false ∧
        l = (Entry.failed i e (sink.fault? w)).logLine id) ∨
      r? = some .cancelled ∧ 2 ≤ n ∧ l = (Entry.cancelled i e).logLine id := by
  rw [List.mem_map]
  constructor
  · rintro ⟨en, hen, rfl⟩
    rcases (mem_closing?_iff sink i e n evs r? en).1 hen with
      ⟨vs, hr, rfl⟩ | ⟨f, hr, rfl⟩ | ⟨w, hr, hc, rfl⟩ | ⟨hr, hn, rfl⟩
    · exact .inl ⟨vs, hr, rfl⟩
    · exact .inr (.inl ⟨f, hr, rfl⟩)
    · exact .inr (.inr (.inl ⟨w, hr, hc, rfl⟩))
    · exact .inr (.inr (.inr ⟨hr, hn, rfl⟩))
  · rintro (⟨vs, hr, rfl⟩ | ⟨f, hr, rfl⟩ | ⟨w, hr, hc, rfl⟩ | ⟨hr, hn, rfl⟩)
    · exact ⟨_, (mem_closing?_iff ..).2 (.inl ⟨vs, hr, rfl⟩), rfl⟩
    · exact ⟨_, (mem_closing?_iff ..).2 (.inr (.inl ⟨f, hr, rfl⟩)), rfl⟩
    · exact ⟨_, (mem_closing?_iff ..).2 (.inr (.inr (.inl ⟨w, hr, hc, rfl⟩))), rfl⟩
    · exact ⟨_, (mem_closing?_iff ..).2 (.inr (.inr (.inr ⟨hr, hn, rfl⟩))), rfl⟩

theorem Accounted.ledger (h : Accounted s i n) (hj : s.jobs[i]? = some j)
    (id : Nat → List Char) : Ledger id s i j n := by
  obtain ⟨hclosings, hn⟩ := (h.account j hj).eq
  have hlines : closingLog id s i = (s.closings i).map (Entry.logLine id) := by
    rw [closingLog, h.jobLog_eq hj, List.tail_cons]
  have hlog : closingLog id s i =
      (closing? s.sink i j.expression n (s.eventsOf i) j.result?).toList.map
        (Entry.logLine id) := by
    rw [hlines, hclosings]
  constructor
  case scheduled =>
    rw [hlines]
    exact h.jobLog_eq hj id
  case scheduled_once =>
    rw [hlines]
    exact List.forall_mem_map.2 fun en hen =>
      not_scheduled_of_isClosing id (List.mem_filter.1 hen).2
  case at_most_one =>
    rw [hlog, List.length_map]
    exact Option.length_toList_le
  -- the level of a line says which of the four ends it belongs to
  case completed =>
    intro m
    rw [hlog, mem_closingLines_iff, logLine_cancelled]
    simp only [logLine_completed, logLine_failed, LogLine.mk.injEq, reduceCtorEq, false_and,
      and_false, exists_false, or_false, true_and]
  case failed =>
    intro m
    rw [hlog, mem_closingLines_iff, logLine_cancelled]
    simp only [logLine_completed, logLine_failed, LogLine.mk.injEq, reduceCtorEq, false_and,
      and_false, exists_false, or_false, false_or, true_and, Option.elim_some, List.append_assoc,
      List.any_eq_false, Bool.not_eq_true]
  case cancelled =>
    intro m
    rw [hlog, mem_closingLines_iff, logLine_cancelled]
    simp only [logLine_completed, logLine_failed, LogLine.mk.injEq, reduceCtorEq, false_and,
      and_false, exists_false, false_or, true_and]
  case silent =>
    rw [hlog, List.map_eq_nil_iff, Option.toList_eq_nil_iff, closing?_eq_none_iff _ _ _ _ hn]
    simp

end Run

/-- Every run of a scheduler, whatever events its sink refuses, keeps such a ledger of each job. -/
theorem job_ledger (id : Nat → List Char) (settings : Settings) (sink : Sink) (ms : List Move)
    {i : Nat} {j : Job} (hj : (after settings sink ms).jobs[i]? = some j) :
    Ledger id (after settings sink ms) i j (stepsTaken i (initial settings sink) ms) :=
  (accounted_after settings sink ms i).ledger hj id

/-- The sink refuses the progress of the job 0 and the completion of the job 2. The job 1 fails by
itself, the jobs 3 and 4 are cancelled, before their first step and after it, and the job 5 ends
with its variable. -/
theorem job_ledger_endings :
    let refuses (_ : List Event) (ev : Event) : Option (List Char) :=
      if ev = .progress ['b'] (percentOf 1 1) then some ['x']
      else if ev = .completed [] [] then some ['y'] else none
    let ms : List Move := [.start ['b'], .start ['('], .start [], .start ['a'], .start ['a'],
      .start ['1', ' ', 'c'], .cancel 3] ++ List.replicate 6 .turn ++
      .cancel 4 :: List.replicate 20 .turn
    let s := after default { refuses } ms
    s.jobs.map Job.result? = [some (.refused ['x']),
        some (.fault (.unclosed ['('] (some 0) none)), some (.refused ['y']), some .cancelled,
        some .cancelled, some (.found [⟨.var, 2, 3, ['c']⟩])] ∧
      jobLog natText s 5 = ⟨.info, .jobs, "Scheduled job 5 for '1 c'".toList⟩ ::
        closingLog natText s 5 ∧
      ⟨.error, .jobs, "Job 0 for 'b' failed".toList⟩ ∈ closingLog natText s 0 ∧
      ⟨.error, .jobs,
        "Job 1 for '(' failed: No closing parenthesis for '(' at offset 0 in '('".toList⟩ ∈
          closingLog natText s 1 ∧
      closingLog natText s 2 = [] ∧ closingLog natText s 3 = [] ∧
      ⟨.warning, .jobs, "Job 4 for 'a' cancelled".toList⟩ ∈ closingLog natText s 4 ∧
      ⟨.info, .jobs, "Job 5 for '1 c' completed with 1 variables".toList⟩ ∈
        closingLog natText s 5 := by
  intro refuses ms s
  let jobs : List Job :=
    [⟨['b'], .finished (.refused ['x']), false, false, []⟩,
      ⟨['('], .finished (.fault (.unclosed ['('] (some 0) none)), false, false, []⟩,
      ⟨[], .finished (.refused ['y']), false, false, []⟩,
      ⟨['a'], .finished .cancelled, false, true, []⟩,
      ⟨['a'], .finished .cancelled, false, true, []⟩,
      ⟨['1', ' ', 'c'], .finished (.found [⟨.var, 2, 3, ['c']⟩]), false, false, []⟩]
  have hjobs : s.jobs = jobs := by decide +kernel
  have hledger (i : Nat) (hi : i < jobs.length) :=
    job_ledger natText default { refuses } ms (i := i) (j := jobs[i])
      ((congrArg (·[i]?) hjobs).trans (List.getElem?_eq_getElem hi))
  have hfound := hledger 5 (by decide)
  refine ⟨congrArg (List.map Job.result?) hjobs, hfound.scheduled, ?_, ?_, ?_, ?_, ?_,
    (hfound.completed _).2 ⟨_, rfl, ?_⟩⟩
  · refine ((hledger 0 (by decide)).failed _).2 (.inr ⟨['x'], rfl, ?_, ?_⟩)
    · decide +kernel
    · decide +kernel
  · refine ((hledger 1 (by decide)).failed _).2 (.inl ⟨_, rfl, ?_⟩)
    decide +kernel
  · refine (hledger 2 (by decide)).silent.2 (.inr (.inr ⟨['y'], rfl, ?_⟩))
    decide +kernel
  · refine (hledger 3 (by decide)).silent.2 (.inr (.inl ⟨rfl, ?_⟩))
    decide +kernel
  · refine ((hledger 4 (by decide)).cancelled _).2 ⟨rfl, ?_, ?_⟩
    · decide +kernel
    · decide +kernel
  · decide +kernel

end Scheduler

end PartScan
