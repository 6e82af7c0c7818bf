import PartScan.Proofs.Scheduler.History

/-! # The journal of a job

Every entry of the journal is about one job. A move adds to the lines of a job what a step of it
leaves, or the line that it is scheduled; all other moves leave its lines as they are.
-/

namespace PartScan

/-- The job that an entry is about. -/
def Entry.job : Entry → Nat
  | .scheduled i _ => i
  | .started i _ => i
  | .event i _ => i
  | .ended i _ _ => i
  | .completed i _ _ => i
  | .cancelled i _ => i
  | .failed i _ _ => i

/-- Whether an entry says how a job has ended. -/
def Entry.isClosing : Entry → Bool
  | .completed .. => true
  | .cancelled .. => true
  | .failed .. => true
  | _ => false

/-- The entries that the steps of the job with the number `i` and the expression `e` can leave. -/
inductive Entry.OfStep (i : Nat) (e : List Char) : Entry → Prop
  | report (n : Notice) : OfStep i e (n.entry i e)
  | completion (vs : List Part) : OfStep i e (.event i (.completed e vs))
  | completed (count : Nat) : OfStep i e (.completed i e count)
  | cancelled : OfStep i e (.cancelled i e)
  | failed (f? : Option Fault) : OfStep i e (.failed i e f?)

theorem Entry.OfStep.job_eq {i : Nat} {e : List Char} {en : Entry} (h : OfStep i e en) :
    en.job = i := by
  cases h with
  | report n => cases n <;> rfl
  | _ => rfl

namespace Scheduler

/-- The entries of the journal that are about a job. -/
def linesOf (s : Scheduler) (i : Nat) : List Entry := s.journal.filter fun en => en.job = i

theorem filter_deliveries (es : List Entry) (i : Nat) :
    (es.filterMap Entry.delivery?).filter (fun d => d.1 = i) =
      (es.filter fun en => en.job = i).filterMap Entry.delivery? := by
  rw [List.filter_filterMap, List.filterMap_filter]
  apply List.filterMap_congr
  rintro en -
  cases en with
  | event k ev => by_cases hk : k = i <;> simp [Entry.delivery?, Entry.job, hk]
  | _ => simp [Entry.delivery?]

/-- The events of a job stand among its lines. -/
theorem eventsOf_eq (s : Scheduler) (i : Nat) :
    s.eventsOf i = (s.linesOf i).filterMap Entry.event? := by
  rw [eventsOf, deliveries, filter_deliveries, map_snd_deliveries]
  rfl

section Resumed

variable {set : Settings} {sink : Sink} {i : Nat} {j j' : Job} {es : List Entry}

theorem Resumed.ofStep (h : Resumed set sink i j es j') :
    ∀ en ∈ es, Entry.OfStep i j.expression en := by
  have hreports (ns : List Notice) : ∀ en ∈ ns.map (Notice.entry i j.expression),
      Entry.OfStep i j.expression en := by
    rintro en hen
    obtain ⟨n, -, rfl⟩ := List.mem_map.1 hen
    exact .report n
  cases h with
  | ends h =>
    cases h with
    | dropped => exact List.forall_mem_nil _
    | cancelled => exact List.forall_mem_singleton.2 .cancelled
    | fault =>
      exact List.forall_mem_append.2 ⟨hreports _, List.forall_mem_singleton.2 (.failed _)⟩
    | found =>
      refine List.forall_mem_append.2 ⟨hreports _, List.forall_mem_cons.2 ⟨.completion _, ?_⟩⟩
      exact List.forall_mem_singleton.2 (.completed _)
    | refused =>
      exact List.forall_mem_append.2 ⟨hreports _, List.forall_mem_singleton.2 (.failed _)⟩
    | refusedFound =>
      exact List.forall_mem_append.2 ⟨hreports _, List.forall_mem_singleton.2 (.completion _)⟩
  | goes h =>
    cases h with
    | deferred => exact List.forall_mem_nil _
    | scanning => exact hreports _

end Resumed

variable {s : Scheduler} {i : Nat} {m : Move}

/-- What a move does to a job with its lines: it leaves them, it makes the job, or it takes the
job's next step. -/
inductive Writes (s : Scheduler) (i : Nat) (m : Move) : Prop
  | rests (hr : s.resumes i m = false)
      (hj : Option.Rel Job.Touched s.jobs[i]? (s.move m).jobs[i]?)
      (hl : (s.move m).linesOf i = s.linesOf i)
  | starts {e : List Char} (hr : s.resumes i m = false) (hj : s.jobs[i]? = none)
      (hj' : (s.move m).jobs[i]? = some { expression := e })
      (hl : (s.move m).linesOf i = s.linesOf i ++ [.scheduled i e])
  | steps {j j' : Job} {es : List Entry} (hr : s.resumes i m = true) (hj : s.jobs[i]? = some j)
      (hj' : (s.move m).jobs[i]? = some j') (h : Resumed s.settings s.sink i j es j')
      (hl : (s.move m).linesOf i = s.linesOf i ++ es)

theorem linesOf_of_journal {s' : Scheduler} {es : List Entry}
    (h : s'.journal = s.journal ++ es) :
    s'.linesOf i = s.linesOf i ++ es.filter fun en => en.job = i := by
  rw [linesOf, h, List.filter_append]
  rfl

theorem writes_start (e : List Char) : s.Writes i (.start e) := by
  have hl : (s.move (.start e)).linesOf i = s.linesOf i ++
      [Entry.scheduled s.jobs.length e].filter fun en => en.job = i := linesOf_of_journal rfl
  rcases eq_or_ne i s.jobs.length with rfl | hi
  · refine .starts rfl (List.getElem?_eq_none (Nat.le_refl _)) List.getElem?_concat_length ?_
    rw [hl, List.filter_cons_of_pos (by simp [Entry.job]), List.filter_nil]
  · refine .rests rfl ?_ ?_
    · have hsame : (s.move (.start e)).jobs[i]? = s.jobs[i]? := by
        show (s.jobs ++ [({ expression := e } : Job)])[i]? = s.jobs[i]?
        rcases Nat.lt_or_ge i s.jobs.length with hlt | hge
        · exact List.getElem?_append_left hlt
        · rw [List.getElem?_eq_none hge, List.getElem?_eq_none (by simp; omega)]
      rw [hsame]
      exact rel_touched_refl _
    · rw [hl, List.filter_cons_of_neg (by simp [Entry.job, hi.symm]), List.filter_nil,
        List.append_nil]

theorem writes_step (hp : ∀ k, s.Placed k) {k : Nat} (hq : s.queue.head? = some (.step k)) :
    s.Writes i .turn := by
  obtain ⟨j, es, j', hj, heffect, -⟩ := step_effect hp hq
  have hjobs : (s.move .turn).jobs = s.jobs.set k j' := heffect.jobs
  have hof := heffect.resumed.ofStep
  have hl := linesOf_of_journal (i := i) heffect.journal
  rcases eq_or_ne i k with rfl | hi
  · refine .steps (by simp [resumes, hq]) hj ?_ heffect.resumed ?_
    · rw [hjobs]
      exact List.getElem?_set_self (List.getElem?_eq_some_iff.1 hj).1
    · rw [hl, List.filter_eq_self.2 fun en hen => by simpa using (hof en hen).job_eq]
      rfl
  · refine .rests (by simp [resumes, hq, hi.symm]) ?_ ?_
    · rw [hjobs, List.getElem?_set_ne hi.symm]
      exact rel_touched_refl _
    · rw [hl, List.filter_eq_nil_iff.2 fun en hen => by simp [(hof en hen).job_eq, hi.symm],
        List.append_nil]
      rfl

/-- Every move leaves a job with its lines, makes it, or takes its next step. -/
theorem writes (hp : ∀ k, s.Placed k) (i : Nat) (m : Move) : s.Writes i m := by
  rcases starts_or_steps_or_quiet hp m with ⟨e, rfl⟩ | ⟨k, rfl, hq⟩ | ⟨-, hr, hquiet⟩
  · exact writes_start e
  · exact writes_step hp hq
  · refine .rests (hr i) (hquiet.jobs i) ?_
    rw [linesOf, hquiet.journal]
    rfl

end Scheduler

end PartScan
