import PartScan.Proofs.Scheduler.Calls

/-! # Refused events

A job whose sink refuses one of its events ends at once, with the reason of the refusal, and the
refused event is its last one. No other job is refused anything by that.
-/

namespace PartScan

def JobResult.reason? : JobResult → Option (List Char)
  | .refused w => some w
  | _ => none

/-- The refusals of a sink among the events that it is given after those that it has heard, each with
its job and its reason. -/
def refusalsAfter (sink : Sink) (heard : List Event) :
    List (Nat × Event) → List (Nat × Event × List Char)
  | [] => []
  | (i, ev) :: ds =>
    ((sink.refuses heard ev).map fun w => (i, ev, w)).toList ++
      refusalsAfter sink (heard ++ [ev]) ds

theorem refusalsAfter_append (sink : Sink) (heard : List Event) (ds ds' : List (Nat × Event)) :
    refusalsAfter sink heard (ds ++ ds') =
      refusalsAfter sink heard ds ++ refusalsAfter sink (heard ++ ds.map Prod.snd) ds' := by
  induction ds generalizing heard with
  | nil => simp [refusalsAfter]
  | cons d ds ih =>
    obtain ⟨i, ev⟩ := d
    rw [List.cons_append, refusalsAfter, refusalsAfter, ih, List.map_cons, List.append_assoc,
      List.append_assoc]
    rfl

theorem mem_refusalsAfter {sink : Sink} {heard : List Event} {ds : List (Nat × Event)}
    {r : Nat × Event × List Char} (h : r ∈ refusalsAfter sink heard ds) : (r.1, r.2.1) ∈ ds := by
  induction ds generalizing heard with
  | nil => cases h
  | cons d ds ih =>
    obtain ⟨i, ev⟩ := d
    rcases List.mem_append.1 h with hd | hrest
    · obtain ⟨w, -, rfl⟩ : ∃ w, sink.refuses heard ev = some w ∧ (i, ev, w) = r := by
        simpa using hd
      exact List.mem_cons_self
    · exact List.mem_cons_of_mem _ (ih hrest)

namespace Scheduler

/-- The events that were refused so far, each with its job and the reason. -/
def refusals (s : Scheduler) : List (Nat × Event × List Char) :=
  refusalsAfter s.sink [] s.deliveries

def refusalsOf (s : Scheduler) (i : Nat) : List (Nat × Event × List Char) :=
  s.refusals.filter fun r => r.1 = i

/-- The reason why a job was refused, if it was. -/
def reason? (s : Scheduler) (i : Nat) : Option (List Char) :=
  (s.outcome i).bind JobResult.reason?

theorem refusals_append {s s' : Scheduler} {ds : List (Nat × Event)} (hsink : s'.sink = s.sink)
    (hd : s'.deliveries = s.deliveries ++ ds) :
    s'.refusals = s.refusals ++ refusalsAfter s.sink s.events ds := by
  rw [refusals, hsink, hd, refusalsAfter_append, List.nil_append]
  congr 2
  exact map_snd_deliveries s.journal

theorem refusalsOf_of_others {s s' : Scheduler} {i : Nat} {ds : List (Nat × Event)}
    (hsink : s'.sink = s.sink) (hd : s'.deliveries = s.deliveries ++ ds)
    (hne : ∀ d ∈ ds, d.1 ≠ i) : s'.refusalsOf i = s.refusalsOf i := by
  have hnil : (refusalsAfter s.sink s.events ds).filter (fun r => r.1 = i) = [] :=
    List.filter_eq_nil_iff.2 fun r hr => by simpa using hne _ (mem_refusalsAfter hr)
  rw [refusalsOf, refusals_append hsink hd, List.filter_append, hnil, List.append_nil]
  rfl

/-- What an operation on the job with the number `i` adds to the refusals: nothing, or the last event
that it gives to the sink, with the reason. -/
inductive Judged (s s' : Scheduler) (i : Nat) : Option (List Char) → Prop
  | accepted (h : s'.refusals = s.refusals) : Judged s s' i none
  | refused {ev : Event} {w : List Char} (h : s'.refusals = s.refusals ++ [(i, ev, w)])
      (hl : s'.deliveries.getLast? = some (i, ev)) : Judged s s' i (some w)

section Judged

variable {s s' s'' : Scheduler} {i : Nat} {j : Job} {reason? : Option (List Char)}

theorem Judged.trans (h : Judged s s' i none) (h' : Judged s' s'' i reason?) :
    Judged s s'' i reason? := by
  cases h with
  | accepted h =>
    cases h' with
    | accepted h' => exact .accepted (h'.trans h)
    | refused h' hl => exact .refused (h ▸ h') hl

/-- What gives the sink no event changes no judgement. -/
theorem Judged.quiet (h : Judged s s' i reason?) (hsink : s''.sink = s'.sink)
    (hd : s''.deliveries = s'.deliveries) : Judged s s'' i reason? := by
  have hsame : s''.refusals = s'.refusals := by rw [refusals, hsink, hd]; rfl
  cases h with
  | accepted h => exact .accepted (hsame.trans h)
  | refused h hl => exact .refused (hsame.trans h) (hd ▸ hl)

theorem Judged.refl (s : Scheduler) (i : Nat) : Judged s s i none := .accepted rfl

theorem deliveries_record_event (s : Scheduler) (i : Nat) (ev : Event) :
    (s.record (.event i ev)).deliveries = s.deliveries ++ [(i, ev)] := by
  simp [deliveries, record, Entry.delivery?]

theorem deliveries_record {en : Entry} (s : Scheduler) (h : en.delivery? = none) :
    (s.record en).deliveries = s.deliveries := by
  simp [deliveries, record, h]

theorem judged_emit (s : Scheduler) (i : Nat) (ev : Event) :
    Judged s (s.record (.event i ev)) i (s.sink.refuses s.events ev) := by
  have hd := deliveries_record_event s i ev
  have hr : (s.record (.event i ev)).refusals =
      s.refusals ++ refusalsAfter s.sink s.events [(i, ev)] := refusals_append rfl hd
  cases hw : s.sink.refuses s.events ev with
  | none => exact .accepted (by rw [hr]; simp [refusalsAfter, hw])
  | some w =>
    have hlast : (s.record (.event i ev)).deliveries.getLast? = some (i, ev) := by
      rw [hd, List.getLast?_concat]
    exact .refused (by rw [hr]; simp [refusalsAfter, hw]) hlast

theorem judged_report (s : Scheduler) (i : Nat) (e : List Char) (ns : List Notice) :
    Judged s (s.report i e ns).1 i (s.report i e ns).2 := by
  induction ns generalizing s with
  | nil => exact .refl s i
  | cons n ns ih =>
    cases n with
    | started =>
      have hone : Judged s (s.record (.started i e)) i none :=
        (Judged.refl s i).quiet rfl (deliveries_record s rfl)
      exact hone.trans (ih _)
    | ended c =>
      have hone : Judged s (s.record (.ended i e c)) i none :=
        (Judged.refl s i).quiet rfl (deliveries_record s rfl)
      exact hone.trans (ih _)
    | progress p =>
      have hone := judged_emit s i (.progress e p)
      simp only [report, emit]
      cases hw : s.sink.refuses s.events (.progress e p) with
      | none => exact (hw ▸ hone).trans (ih _)
      | some w =>
        rw [hw] at hone
        exact hone

theorem reason?_finish (hlt : i < s.jobs.length) (r : JobResult) :
    (s.finish i j r).reason? i = r.reason? := by
  have hj : (s.finish i j r).jobs[i]? = some { j with stage := .finished r, callbacks := [] } :=
    List.getElem?_set_self hlt
  rw [Scheduler.reason?, outcome, hj]
  rfl

theorem Judged.finish {r : JobResult} (h : Judged s s' i r.reason?) (hlt : i < s'.jobs.length) :
    Judged s (s'.finish i j r) i ((s'.finish i j r).reason? i) := by
  rw [reason?_finish hlt]
  exact h.quiet rfl rfl

theorem Judged.defer {stage : Stage} {d : Delay} (h : Judged s s' i none)
    (hlt : i < s'.jobs.length) (hs : ∀ r, stage ≠ .finished r) :
    Judged s (s'.defer i j stage d) i ((s'.defer i j stage d).reason? i) := by
  have hjobs (t : Scheduler) (a : Bool)
      (ht : t.jobs = s'.jobs.set i { j with stage, asleep := a }) : t.reason? i = none := by
    rw [Scheduler.reason?, outcome, ht, List.getElem?_set_self hlt, Option.bind_some, Job.result?]
    cases stage with
    | finished r => exact absurd rfl (hs r)
    | _ => rfl
  unfold Scheduler.defer
  split
  · cases d.length? with
    | none =>
      rw [hjobs _ true rfl]
      exact h.quiet rfl rfl
    | some t =>
      rw [hjobs _ true rfl]
      exact h.quiet rfl rfl
  · rw [hjobs _ j.asleep rfl]
    exact h.quiet rfl rfl

theorem judged_complete (hlt : i < s.jobs.length) (vs : List Part) :
    Judged s (s.complete i j vs) i ((s.complete i j vs).reason? i) := by
  have hone := judged_emit s i (.completed j.expression vs)
  simp only [complete, emit]
  cases hw : s.sink.refuses s.events (.completed j.expression vs) with
  | none =>
    rw [hw] at hone
    have htwo : Judged s ((s.record (.event i (.completed j.expression vs))).record
        (.completed i j.expression vs.length)) i none := hone.quiet rfl (deliveries_record _ rfl)
    exact htwo.finish hlt
  | some w =>
    rw [hw] at hone
    exact Judged.finish hone hlt

theorem Judged.follow (h : Judged s s' i reason?) (hlt : i < s'.jobs.length) (next : Next) :
    Judged s (s'.follow i j next reason?) i ((s'.follow i j next reason?).reason? i) := by
  cases reason? with
  | some w =>
    have hfailed : Judged s (s'.record (.failed i j.expression (s'.sink.fault? w))) i (some w) :=
      h.quiet rfl (deliveries_record _ rfl)
    exact Judged.finish hfailed hlt
  | none =>
    cases next with
    | suspended scan => exact h.defer hlt (by simp)
    | finished o =>
      cases o with
      | error f =>
        have hfailed : Judged s (s'.record (.failed i j.expression (some f))) i none :=
          h.quiet rfl (deliveries_record _ rfl)
        exact hfailed.finish hlt
      | ok ps => exact h.trans (judged_complete hlt _)

theorem judged_resume (hlt : i < s.jobs.length) (scan : Scan) :
    Judged s (s.resume i j scan) i ((s.resume i j scan).reason? i) := by
  have hjobs := (report_jobs s i j.expression scan.resume.1).1
  exact (judged_report s i j.expression scan.resume.1).follow (hjobs ▸ hlt) scan.resume.2

/-- A step of a job is refused an event exactly if it ends the job for that reason. -/
theorem judged_step (hlt : i < s.jobs.length) (hf : j.isFinished = false) :
    Judged s (s.step i j) i ((s.step i j).reason? i) := by
  have hcancelled : Judged s (s.record (.cancelled i j.expression)) i none :=
    (Judged.refl s i).quiet rfl (deliveries_record s rfl)
  unfold step
  cases hst : j.stage with
  | created =>
    dsimp only
    split
    · exact (Judged.refl s i).finish hlt
    · exact (Judged.refl s i).defer hlt (by simp)
  | deferred =>
    dsimp only
    split
    · exact hcancelled.finish hlt
    · exact judged_resume hlt _
  | scanning scan =>
    dsimp only
    split
    · exact hcancelled.finish hlt
    · exact judged_resume hlt scan
  | finished r => simp [Job.isFinished, Job.result?, hst] at hf

end Judged

/-- What the refusals say of a job: none if it was not refused, or else its last event. -/
inductive Verdict (s : Scheduler) (i : Nat) : Prop
  | accepted (h : s.reason? i = none) (hr : s.refusalsOf i = [])
  | refused {ev : Event} {w : List Char} (h : s.reason? i = some w)
      (hr : s.refusalsOf i = [(i, ev, w)]) (hl : (s.eventsOf i).getLast? = some ev)

section Verdict

variable {s s' : Scheduler} {i : Nat}

theorem Verdict.same (h : Verdict s i) (hreason : s'.reason? i = s.reason? i)
    (hr : s'.refusalsOf i = s.refusalsOf i) (he : s'.eventsOf i = s.eventsOf i) : Verdict s' i := by
  cases h with
  | accepted h hnil => exact .accepted (hreason.trans h) (hr.trans hnil)
  | refused h hone hl => exact .refused (hreason.trans h) (hr.trans hone) (he ▸ hl)

theorem Judged.verdict (h : Judged s s' i (s'.reason? i)) (hnil : s.refusalsOf i = []) :
    Verdict s' i := by
  generalize hw : s'.reason? i = reason? at h
  cases h with
  | accepted h =>
    refine .accepted hw ?_
    rw [refusalsOf, h]
    exact hnil
  | @refused ev w h hl =>
    obtain ⟨ds, hds⟩ := List.getLast?_eq_some_iff.1 hl
    have hone : s'.refusalsOf i = [(i, ev, w)] := by
      rw [refusalsOf, h, List.filter_append]
      show s.refusalsOf i ++ _ = _
      rw [hnil, List.nil_append, List.filter_cons_of_pos (by simp), List.filter_nil]
    refine .refused hw hone ?_
    rw [eventsOf, hds, List.filter_append, List.filter_cons_of_pos (by simp), List.filter_nil,
      List.map_append]
    exact List.getLast?_concat

theorem Verdict.move (hp : ∀ k, s.Placed k) (h : Verdict s i) (m : Move) : Verdict (s.move m) i := by
  have hsink := (moved hp m).sink
  cases (moved hp m).effect i with
  | rests _ hj hd hne =>
    refine h.same ?_ (refusalsOf_of_others hsink hd hne) (eventsOf_of_others hd hne)
    rw [reason?, reason?, outcome_of_rel hj]
  | starts _ hj hj' hd =>
    have hd' : (s.move m).deliveries = s.deliveries ++ [] := hd.trans (List.append_nil _).symm
    refine h.same ?_ (refusalsOf_of_others hsink hd' (by simp)) (eventsOf_of_others hd' (by simp))
    rw [reason?, reason?, outcome, outcome, hj, hj']
    rfl
  | @steps j j' es hr hj hj' hres _ =>
    have hf := hres.isFinished
    have hnil : s.refusalsOf i = [] := by
      cases h with
      | accepted _ hr => exact hr
      | refused h =>
        rw [reason?, (outcome_eq_none hj).2 hf] at h
        cases h
    cases m with
    | turn =>
      have hq : s.queue.head? = some (.step i) := by simpa [resumes] using hr
      have hjudged : Judged s.popped (s.popped.step i j) i ((s.popped.step i j).reason? i) :=
        judged_step (List.getElem?_eq_some_iff.1 hj).1 hf
      rw [move_step hq hj]
      exact hjudged.verdict hnil
    | _ => cases hr

/-- Every run refuses a job at most one event, its last one, and exactly if it ends refused. -/
theorem verdict_after (settings : Settings) (sink : Sink) (ms : List Move) (i : Nat) :
    Verdict (after settings sink ms) i := by
  induction ms using List.reverseRecOn with
  | nil => exact .accepted rfl rfl
  | append_singleton ms m ih =>
    rw [after_concat]
    exact ih.move (placed_after settings sink ms) m

end Verdict

end Scheduler

end PartScan
