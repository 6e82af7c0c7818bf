import PartScan.Scheduler.Turn

/-! # Steps of a job

All that a step of a job can do: the job ends or goes on after a delay, and the journal gets the
entries that say so.
-/

namespace PartScan

open Number

/-- The entry that a report of a scan leaves in the journal. -/
def Notice.entry (i : Nat) (e : List Char) : Notice → Entry
  | .started => .started i e
  | .progress p => .event i (.progress e p)
  | .ended n => .ended i e n

/-- The scan that the next step of a job resumes. -/
def Job.scan? (rules : Rules) (j : Job) : Option Scan :=
  match j.stage with
  | .deferred => some (.ready rules j.expression)
  | .scanning scan => some scan
  | _ => none

/-- How long a job that goes on is deferred after a step. -/
def Job.delay (set : Settings) (j : Job) : Delay :=
  match j.stage with
  | .created => set.dueTime
  | _ => set.stepDelay

namespace Scheduler

def recordAll (s : Scheduler) (es : List Entry) : Scheduler :=
  { s with journal := s.journal ++ es }

@[simp] theorem recordAll_nil (s : Scheduler) : s.recordAll [] = s := by simp [recordAll]

theorem record_eq (s : Scheduler) (e : Entry) : s.record e = s.recordAll [e] := rfl

@[simp] theorem recordAll_recordAll (s : Scheduler) (es es' : List Entry) :
    (s.recordAll es).recordAll es' = s.recordAll (es ++ es') := by
  simp [recordAll]

/-- How a step ends a job: the entries that it leaves and the result. -/
inductive Ends (set : Settings) (sink : Sink) (i : Nat) (j : Job) : List Entry → JobResult → Prop
  | dropped (hs : j.stage = .created) (hc : j.cancelRequested = true) :
      Ends set sink i j [] .cancelled
  | cancelled {scan : Scan} (hs : j.scan? set.rules = some scan) (hc : j.cancelRequested = true) :
      Ends set sink i j [.cancelled i j.expression] .cancelled
  | fault {scan : Scan} {ns : List Notice} {f : Fault} (hs : j.scan? set.rules = some scan)
      (hc : j.cancelRequested = false) (hr : scan.resume = (ns, .finished (.error f))) :
      Ends set sink i j
        (ns.map (Notice.entry i j.expression) ++ [.failed i j.expression (some f)]) (.fault f)
  | found {scan : Scan} {ns : List Notice} {ps vs : List Part}
      (hs : j.scan? set.rules = some scan) (hc : j.cancelRequested = false)
      (hr : scan.resume = (ns, .finished (.ok ps))) (hv : vs = ps.filter Part.isVariable) :
      Ends set sink i j (ns.map (Notice.entry i j.expression) ++
        [.event i (.completed j.expression vs), .completed i j.expression vs.length]) (.found vs)
  | refused {scan : Scan} {ns ns' : List Notice} {p : Decimal} {next : Next} {heard : List Event}
      {w : List Char} (hs : j.scan? set.rules = some scan) (hc : j.cancelRequested = false)
      (hr : scan.resume = (ns ++ .progress p :: ns', next))
      (hw : sink.refuses heard (.progress j.expression p) = some w) :
      Ends set sink i j ((ns ++ [Notice.progress p]).map (Notice.entry i j.expression) ++
        [.failed i j.expression (sink.fault? w)]) (.refused w)
  | refusedFound {scan : Scan} {ns : List Notice} {ps vs : List Part} {heard : List Event}
      {w : List Char} (hs : j.scan? set.rules = some scan) (hc : j.cancelRequested = false)
      (hr : scan.resume = (ns, .finished (.ok ps))) (hv : vs = ps.filter Part.isVariable)
      (hw : sink.refuses heard (.completed j.expression vs) = some w) :
      Ends set sink i j
        (ns.map (Notice.entry i j.expression) ++ [.event i (.completed j.expression vs)])
        (.refused w)

/-- How a job goes on after a step: the entries that it leaves and its next stage. -/
inductive Goes (set : Settings) (i : Nat) (j : Job) : List Entry → Stage → Prop
  | deferred (hs : j.stage = .created) (hc : j.cancelRequested = false) :
      Goes set i j [] .deferred
  | scanning {scan next : Scan} {ns : List Notice} (hs : j.scan? set.rules = some scan)
      (hc : j.cancelRequested = false) (hr : scan.resume = (ns, .suspended next)) :
      Goes set i j (ns.map (Notice.entry i j.expression)) (.scanning next)

/-- The schedulers to which a step of the job `j` with the number `i` can lead. -/
inductive Stepped (s : Scheduler) (i : Nat) (j : Job) : Scheduler → Prop
  | ends {es : List Entry} {r : JobResult} (h : Ends s.settings s.sink i j es r) :
      Stepped s i j ((s.recordAll es).finish i j r)
  | goes {es : List Entry} {stage : Stage} (h : Goes s.settings i j es stage) :
      Stepped s i j ((s.recordAll es).defer i j stage (j.delay s.settings))
  | idle (h : j.isFinished = true) : Stepped s i j s

/-- Reports are passed on up to the first refusal. -/
theorem report_cases (s : Scheduler) (i : Nat) (e : List Char) (ns : List Notice) :
    s.report i e ns = (s.recordAll (ns.map (Notice.entry i e)), none) ∨
      ∃ ns₁ p ns₂ heard w, ns = ns₁ ++ .progress p :: ns₂ ∧
        s.sink.refuses heard (.progress e p) = some w ∧
        s.report i e ns = (s.recordAll ((ns₁ ++ [.progress p]).map (Notice.entry i e)), some w) := by
  induction ns generalizing s with
  | nil => exact .inl (by simp [report])
  | cons n ns ih =>
    -- an accepted report is one more entry in front of those of the rest
    have hcons (entry : Entry) (hn : n.entry i e = entry)
        (hstep : s.report i e (n :: ns) = (s.recordAll [entry]).report i e ns) :
        s.report i e (n :: ns) = (s.recordAll ((n :: ns).map (Notice.entry i e)), none) ∨
          ∃ ns₁ p ns₂ heard w, n :: ns = ns₁ ++ .progress p :: ns₂ ∧
            s.sink.refuses heard (.progress e p) = some w ∧
            s.report i e (n :: ns) =
              (s.recordAll ((ns₁ ++ [.progress p]).map (Notice.entry i e)), some w) := by
      rcases ih (s.recordAll [entry]) with h | ⟨ns₁, p, ns₂, heard, w, rfl, hw, h⟩
      · exact .inl (by simp [hstep, h, hn])
      · exact .inr ⟨n :: ns₁, p, ns₂, heard, w, rfl, hw, by simp [hstep, h, hn]⟩
    cases n with
    | started => exact hcons _ rfl rfl
    | ended c => exact hcons _ rfl rfl
    | progress p =>
      cases hw : (s.emit i (.progress e p)).2 with
      | none =>
        refine hcons _ rfl ?_
        rw [report, show s.emit i (.progress e p) = (_, none) from Prod.ext_iff.2 ⟨rfl, hw⟩]
        rfl
      | some w =>
        refine .inr ⟨[], p, ns, s.events, w, rfl, hw, ?_⟩
        rw [report, show s.emit i (.progress e p) = (_, some w) from Prod.ext_iff.2 ⟨rfl, hw⟩]
        rfl

variable {s : Scheduler} {i : Nat} {j : Job} {scan : Scan}

theorem stepped_resume (hs : j.scan? s.settings.rules = some scan)
    (hc : j.cancelRequested = false) : Stepped s i j (s.resume i j scan) := by
  rcases report_cases s i j.expression scan.resume.1 with h | ⟨ns₁, p, ns₂, heard, w, hns, hw, h⟩
  · rw [resume, h]
    cases hn : scan.resume.2 with
    | suspended next =>
      have hdelay : j.delay s.settings = s.settings.stepDelay := by
        unfold Job.scan? at hs
        unfold Job.delay
        split
        · simp [*] at hs
        · rfl
      show Stepped s i j ((s.recordAll _).defer i j (.scanning next) s.settings.stepDelay)
      rw [← hdelay]
      exact .goes (.scanning hs hc (Prod.ext_iff.2 ⟨rfl, hn⟩))
    | finished o =>
      cases o with
      | error f =>
        simp only [follow, record_eq, recordAll_recordAll]
        exact .ends (.fault hs hc (Prod.ext_iff.2 ⟨rfl, hn⟩))
      | ok ps =>
        simp only [follow, complete]
        generalize hs' : s.recordAll (scan.resume.1.map (Notice.entry i j.expression)) = s'
        have hr : scan.resume = (scan.resume.1, .finished (.ok ps)) := Prod.ext_iff.2 ⟨rfl, hn⟩
        cases hw : (s'.emit i (.completed j.expression (ps.filter Part.isVariable))).2 with
        | none =>
          rw [show s'.emit i (.completed j.expression (ps.filter Part.isVariable)) = (_, none) from
            Prod.ext_iff.2 ⟨rfl, hw⟩]
          simp only [emit, record_eq, ← hs', recordAll_recordAll, List.append_assoc]
          exact .ends (.found hs hc hr rfl)
        | some w =>
          rw [show s'.emit i (.completed j.expression (ps.filter Part.isVariable)) =
            (_, some w) from Prod.ext_iff.2 ⟨rfl, hw⟩]
          simp only [emit, record_eq, ← hs', recordAll_recordAll]
          have hrefuses : s.sink.refuses s'.events
              (.completed j.expression (ps.filter Part.isVariable)) = some w := by
            subst hs'
            exact hw
          exact .ends (.refusedFound hs hc hr rfl hrefuses)
  · rw [resume, h]
    simp only [follow, record_eq, recordAll_recordAll]
    exact .ends (.refused hs hc (Prod.ext_iff.2 ⟨hns, rfl⟩) hw)

/-- A step of a job does one of these things. -/
theorem stepped_step (s : Scheduler) (i : Nat) (j : Job) : Stepped s i j (s.step i j) := by
  unfold step
  cases hst : j.stage with
  | created =>
    dsimp only
    split
    · rename_i hc
      simpa using Stepped.ends (s := s) (.dropped hst hc)
    · rename_i hc
      have hgoes := Stepped.goes (s := s) (i := i) (.deferred hst (by simpa using hc))
      rwa [Job.delay, hst, recordAll_nil] at hgoes
  | deferred =>
    have hs : j.scan? s.settings.rules = some (.ready s.settings.rules j.expression) := by
      simp [Job.scan?, hst]
    dsimp only
    split
    · rename_i hc
      exact .ends (.cancelled hs hc)
    · rename_i hc
      exact stepped_resume hs (by simpa using hc)
  | scanning scan =>
    have hs : j.scan? s.settings.rules = some scan := by simp [Job.scan?, hst]
    dsimp only
    split
    · rename_i hc
      exact .ends (.cancelled hs hc)
    · rename_i hc
      exact stepped_resume hs (by simpa using hc)
  | finished r => exact .idle (by simp [Job.isFinished, Job.result?, hst])

end Scheduler

end PartScan
