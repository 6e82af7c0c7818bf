import PartScan.Proofs.Scheduler.Lone

/-! # Isolation of jobs

Whatever other jobs there are and however they are cancelled, fail or are waited for, each job has
the resumptions of an extraction that runs alone, and ends like it unless it is cancelled.
-/

namespace PartScan

open Number

namespace Scheduler

variable {s : Scheduler} {i : Nat} {rs : List (List Event)}

/-- The job with the number `i` has had the given resumptions, none of which another job has
interrupted. -/
structure Traced (s : Scheduler) (i : Nat) (rs : List (List Event)) : Prop where
  accepts : ∀ before ev, s.sink.refuses before ev = none
  placed : ∀ k, s.Placed k
  events : s.eventsOf i = rs.flatten
  together : ∃ before after, (∀ d ∈ after, d.1 ≠ i) ∧
    s.deliveries = before ++ (rs.getLastD []).map (Prod.mk i) ++ after
  absent : s.jobs[i]? = none → rs = []
  present : ∀ j, s.jobs[i]? = some j → JobRun s.settings.rules j.expression j.stage rs

theorem traced_initial (settings : Settings) {sink : Sink}
    (hsink : ∀ before ev, sink.refuses before ev = none) (i : Nat) :
    Traced (initial settings sink) i [] where
  accepts := hsink
  placed := placed_initial settings sink
  events := rfl
  together := ⟨[], [], by simp, rfl⟩
  absent _ := rfl
  present j hj := by cases hj

theorem Traced.move (h : Traced s i rs) (m : Move) :
    Traced (s.move m) i (rs ++ if s.resumes i m then [s.emitted m] else []) := by
  obtain ⟨hset, hsink, hp, -, heffect⟩ := moved h.placed m
  have haccepts : ∀ before ev, (s.move m).sink.refuses before ev = none :=
    hsink.symm ▸ h.accepts
  obtain ⟨before, after, hafter, htogether⟩ := h.together
  cases heffect i with
  | @rests ds hr hj hd hne =>
    rw [hr, if_neg Bool.false_ne_true, List.append_nil]
    refine ⟨haccepts, hp, ?_, ⟨before, after ++ ds, ?_, ?_⟩, ?_, ?_⟩
    · rw [eventsOf_of_others hd hne]
      exact h.events
    · intro d hmem
      exact (List.mem_append.1 hmem).elim (hafter d) (hne d)
    · rw [hd, htogether, List.append_assoc]
    · exact fun hnone => h.absent (none_of_rel_touched hj hnone)
    · intro j' hj'
      obtain ⟨j, hs, ht⟩ := exists_of_touched_rel hj hj'
      rw [hset, ht.expression, ht.stage]
      exact h.present j hs
  | starts hr hj hj' hd =>
    rw [hr, if_neg Bool.false_ne_true, List.append_nil]
    refine ⟨haccepts, hp, ?_, ⟨before, after, hafter, hd.trans htogether⟩, fun _ => h.absent hj, ?_⟩
    · rw [eventsOf, hd]
      exact h.events
    · intro j hsome
      rw [hj'] at hsome
      cases hsome
      rw [h.absent hj]
      exact .created
  | @steps j j' es hr hj hj' hres hd =>
    have hemitted : s.emitted m = es.filterMap Entry.event? := by
      rw [emitted_of_deliveries hd, List.map_map]
      exact List.map_id _
    rw [hr, if_pos rfl, hemitted]
    refine ⟨haccepts, hp, ?_, ⟨s.deliveries, [], by simp, ?_⟩, ?_, ?_⟩
    · rw [eventsOf_of_self hd, h.events, List.flatten_append, List.flatten_singleton]
    · rw [hd, List.getLastD_concat, List.append_nil]
    · intro hnone
      rw [hj'] at hnone
      cases hnone
    · intro j'' hsome
      rw [hj'] at hsome
      cases hsome
      rw [hset]
      exact (h.present j hj).resumed h.accepts hres

theorem Traced.moves (h : Traced s i rs) (ms : List Move) :
    Traced (s.moves ms) i (rs ++ resumptions i s ms) := by
  induction ms generalizing s rs with
  | nil =>
    rw [resumptions, List.append_nil]
    exact h
  | cons m ms ih =>
    rw [resumptions, ← List.append_assoc]
    exact ih (h.move m)

/-- Every run of a scheduler whose sink accepts every event traces each of its jobs. -/
theorem traced_after (settings : Settings) {sink : Sink}
    (hsink : ∀ before ev, sink.refuses before ev = none) (ms : List Move) (i : Nat) :
    Traced (after settings sink ms) i (resumptions i (initial settings sink) ms) :=
  (traced_initial settings hsink i).moves ms

theorem settings_after (settings : Settings) (sink : Sink) (ms : List Move) :
    (after settings sink ms).settings = settings := by
  induction ms using List.reverseRecOn with
  | nil => rfl
  | append_singleton ms m ih =>
    rw [after_concat, (moved (placed_after settings sink ms) m).settings, ih]

theorem sink_after (settings : Settings) (sink : Sink) (ms : List Move) :
    (after settings sink ms).sink = sink := sink_moves (placed_initial settings sink) ms

/-- Every start makes a job of its own. -/
theorem expressions_after (settings : Settings) (sink : Sink) (ms : List Move) :
    (after settings sink ms).jobs.map Job.expression = ms.flatMap Move.started := by
  induction ms using List.reverseRecOn with
  | nil => rfl
  | append_singleton ms m ih =>
    rw [after_concat, (moved (placed_after settings sink ms) m).expressions, ih,
      List.flatMap_append, List.flatMap_singleton]

/-- The resumptions of a job with the given expression and result are those of a lone extraction,
after one that gives the sink nothing. -/
def RunsAlone (rules : Rules) (e : List Char) (result : Option JobResult)
    (rs : List (List Event)) : Prop :=
  match result with
  | none => rs <+: [] :: loneEvents rules e ∧ rs.length < ([] :: loneEvents rules e).length
  | some .cancelled => ∃ before, rs = before ++ [[]] ∧
      before <+: [] :: loneEvents rules e ∧ before.length < ([] :: loneEvents rules e).length
  | some (.found vs) => rs = [] :: loneEvents rules e ∧ variableParts rules e = .ok vs
  | some (.fault f) => rs = [] :: loneEvents rules e ∧ variableParts rules e = .error f
  | some (.refused _) => False

theorem runsAlone_of_jobRun {rules : Rules} {j : Job}
    (h : JobRun rules j.expression j.stage rs) : RunsAlone rules j.expression j.result? rs := by
  cases hst : j.stage with
  | finished r =>
    rw [hst] at h
    rw [Job.result?, hst]
    cases h with
    | found hv => exact ⟨rfl, hv⟩
    | fault hf => exact ⟨rfl, hf⟩
    | cancelled hpre hlt => exact ⟨_, rfl, hpre, hlt⟩
  | _ =>
    rw [Job.result?, hst]
    exact h.unfinished (by simp [hst])

/-- In every run of a scheduler whose sink accepts every event, each start makes a job of its own,
and each job has the resumptions of an extraction that runs alone, up to its end or to the
cancellation in place of one of them. It gives the sink nothing but the events of its resumptions,
and if it is not cancelled it ends as the expression's variables or their failure say. -/
theorem job_runs_alone (settings : Settings) {sink : Sink}
    (hsink : ∀ before ev, sink.refuses before ev = none) (ms : List Move) :
    (after settings sink ms).jobs.map Job.expression = ms.flatMap Move.started ∧
      ∀ i j, (after settings sink ms).jobs[i]? = some j →
        (after settings sink ms).eventsOf i =
          (resumptions i (initial settings sink) ms).flatten ∧
        RunsAlone settings.rules j.expression j.result?
          (resumptions i (initial settings sink) ms) := by
  refine ⟨expressions_after settings sink ms, ?_⟩
  intro i j hj
  have htraced := traced_after settings hsink ms i
  have hrun := htraced.present j hj
  rw [settings_after] at hrun
  exact ⟨htraced.events, runsAlone_of_jobRun hrun⟩

theorem job_runs_alone_same :
    let ms : List Move := [.start ['a'], .start ['a'], .turn, .turn, .turn, .cancel 0, .turn, .turn,
      .turn]
    (∀ before ev, (default : Sink).refuses before ev = none) ∧
      resumptions 1 (initial default default) ms = [] :: loneEvents default ['a'] ∧
      variableParts default ['a'] = .ok [⟨.var, 0, 1, ['a']⟩] := by
  refine ⟨fun _ _ => rfl, ?_⟩
  exact ((job_runs_alone default (fun _ _ => rfl) _).2 1
    { expression := ['a'], stage := .finished (.found [⟨.var, 0, 1, ['a']⟩]), callbacks := [] }
    (by decide +kernel)).2

end Scheduler

end PartScan
