import PartScan.Scheduler.Turn

/-! # Work left

A bound on the turns that a scheduler still has to take. Every turn lowers it, so a scheduler that
is given no new work comes to rest.
-/

namespace PartScan

def Handle.size : Handle → Nat
  | .step _ => 1
  | .discard _ => 1
  | .wake _ hops => hops + 3
  | .hop _ hops => hops + 2
  | .gather _ => 2
  | .caller _ => 1

def Stage.size (expression : List Char) : Stage → Nat
  | .created => 3 * (expression.length + 2) + 3
  | .deferred => 3 * (expression.length + 2)
  | .scanning scan => 3 * scan.size
  | .finished _ => 0

def Job.size (j : Job) : Nat :=
  j.stage.size j.expression + total (fun b => (b.handle 0).size) j.callbacks

def Timer.size (t : Timer) : Nat :=
  match t.sleeper with
  | .job _ => 2
  | .call _ => 4

theorem total_callbacks (i : Nat) (bs : List Callback) :
    total Handle.size (bs.map (Callback.handle i)) = total (fun b => (b.handle 0).size) bs := by
  rw [total_map]
  congr 1
  funext b
  cases b <;> rfl

namespace Scheduler

/-- The work left in the queue, the jobs and the timers. -/
def size (s : Scheduler) : Nat :=
  total Handle.size s.queue + total Job.size s.jobs + total Timer.size s.timers

theorem size_post (s : Scheduler) (h : Handle) : (s.post h).size = s.size + h.size := by
  simp only [size, post, total_append, total_cons, total_nil]
  omega

@[simp] theorem size_record (s : Scheduler) (e : Entry) : (s.record e).size = s.size := rfl

@[simp] theorem jobs_record (s : Scheduler) (e : Entry) : (s.record e).jobs = s.jobs := rfl

@[simp] theorem size_setCall (s : Scheduler) (i : Nat) (c : Call) :
    (s.setCall i c).size = s.size := rfl

theorem size_setJob {s : Scheduler} {i : Nat} {a : Job} (b : Job) (h : s.jobs[i]? = some a) :
    (s.setJob i b).size + a.size = s.size + b.size := by
  have := total_set Job.size b h
  simp only [size, setJob]
  omega

theorem size_setTimer_le (s : Scheduler) (length : Option Rat) (who : Sleeper) :
    (s.setTimer length who).size ≤ s.size + (Timer.mk 0 who).size := by
  cases length with
  | none => exact Nat.le_add_right _ _
  | some t =>
    simp only [size, setTimer, total_append, total_cons, total_nil, Timer.size]
    omega

theorem size_stopTimer_le (s : Scheduler) (who : Sleeper) : (s.stopTimer who).size ≤ s.size := by
  have := total_filter_le Timer.size (fun t => decide (t.sleeper ≠ who)) s.timers
  simp only [size, stopTimer]
  omega

theorem size_hop (s : Scheduler) (c hops : Nat) : (s.hop c hops).size ≤ s.size + hops + 1 := by
  cases hops with
  | zero => simp [hop, size_post, Handle.size]
  | succ n =>
    simp only [hop, size_post, Handle.size]
    omega

theorem size_finish {s : Scheduler} {i : Nat} {j : Job} (r : JobResult)
    (h : s.jobs[i]? = some j) : (s.finish i j r).size + j.stage.size j.expression = s.size := by
  have := total_set Job.size { j with stage := .finished r, callbacks := [] } h
  have hj : j.size =
      j.stage.size j.expression + total (fun b => (b.handle 0).size) j.callbacks := rfl
  have hf : Job.size { j with stage := .finished r, callbacks := [] } = 0 := rfl
  simp only [size, finish, total_append, total_callbacks]
  omega

theorem size_defer_le {s : Scheduler} {i : Nat} {j : Job} {stage : Stage} (d : Delay)
    (h : s.jobs[i]? = some j) (hs : stage.size j.expression + 3 ≤ j.stage.size j.expression) :
    (s.defer i j stage d).size < s.size := by
  unfold defer
  split
  · have h₁ := size_setJob { j with stage, asleep := true } h
    have h₂ := size_setTimer_le (s.setJob i { j with stage, asleep := true }) d.length? (.job i)
    simp only [Job.size, Timer.size] at h₁ h₂
    omega
  · have h₁ := size_setJob { j with stage } h
    rw [size_post]
    simp only [Job.size, Handle.size] at h₁ ⊢
    omega

theorem report_jobs (s : Scheduler) (i : Nat) (e : List Char) (ns : List Notice) :
    (s.report i e ns).1.jobs = s.jobs ∧ (s.report i e ns).1.size = s.size := by
  induction ns generalizing s with
  | nil => exact ⟨rfl, rfl⟩
  | cons n ns ih =>
    cases n with
    | started => exact ih _
    | ended c => exact ih _
    | progress p =>
      rw [report]
      split
      · rename_i s' w h
        obtain rfl := (Prod.ext_iff.1 h).1
        exact ⟨rfl, rfl⟩
      · rename_i s' h
        obtain rfl := (Prod.ext_iff.1 h).1
        exact ih _

theorem size_complete_le {s : Scheduler} {i : Nat} {j : Job} (vs : List Part)
    (h : s.jobs[i]? = some j) : (s.complete i j vs).size ≤ s.size := by
  rw [complete]
  split
  · rename_i s' w he
    obtain rfl := (Prod.ext_iff.1 he).1
    have := size_finish (s := s.record (.event i (.completed j.expression vs))) (.refused w) h
    simp only [emit, size_record] at this ⊢
    omega
  · rename_i s' he
    obtain rfl := (Prod.ext_iff.1 he).1
    have := size_finish (s := (s.record (.event i (.completed j.expression vs))).record
      (.completed i j.expression vs.length)) (.found vs) h
    simp only [emit, size_record] at this ⊢
    omega

theorem size_resume_le {s : Scheduler} {i : Nat} {j : Job} {scan : Scan}
    (h : s.jobs[i]? = some j) (hs : 3 * scan.size ≤ j.stage.size j.expression) :
    (s.resume i j scan).size ≤ s.size := by
  obtain ⟨hj, hz⟩ := report_jobs s i j.expression scan.resume.1
  rw [← hj] at h
  rw [resume, ← hz]
  generalize (s.report i j.expression scan.resume.1).1 = s' at h
  cases (s.report i j.expression scan.resume.1).2 with
  | some reason =>
    have := size_finish (s := s'.record (.failed i j.expression (s'.sink.fault? reason)))
      (.refused reason) h
    simp only [follow, size_record] at this ⊢
    omega
  | none =>
    cases hn : scan.resume.2 with
    | suspended next =>
      have hlt := Scan.size_resume (Prod.ext_iff.2 ⟨rfl, hn⟩ : scan.resume = (_, .suspended next))
      refine Nat.le_of_lt (size_defer_le _ h ?_)
      have : Stage.size j.expression (.scanning next) = 3 * next.size := rfl
      omega
    | finished o =>
      cases o with
      | error f =>
        have := size_finish (s := s'.record (.failed i j.expression (some f))) (.fault f) h
        simp only [follow, size_record] at this ⊢
        omega
      | ok parts => exact size_complete_le _ h

theorem size_step_le {s : Scheduler} {i : Nat} {j : Job} (h : s.jobs[i]? = some j) :
    (s.step i j).size ≤ s.size := by
  rw [step]
  split
  · rename_i hst
    split
    · have := size_finish (s := s) .cancelled h
      omega
    · exact Nat.le_of_lt (size_defer_le _ h (by simp [hst, Stage.size]))
  · rename_i hst
    split
    · have := size_finish (s := s.record (.cancelled i j.expression)) .cancelled h
      simp only [size_record] at this
      omega
    · exact size_resume_le h (by simp [hst, Stage.size, Scan.size])
  · rename_i scan hst
    split
    · have := size_finish (s := s.record (.cancelled i j.expression)) .cancelled h
      simp only [size_record] at this
      omega
    · exact size_resume_le h (by simp [hst, Stage.size])
  · exact Nat.le_refl _

theorem size_handle_lt (s : Scheduler) (h : Handle) : (s.handle h).size < s.size + h.size := by
  cases h with
  | step i =>
    simp only [handle, Handle.size]
    split
    · exact Nat.lt_succ_of_le (size_step_le ‹_›)
    · omega
  | discard i => exact Nat.lt_succ_self _
  | wake c hops =>
    simp only [handle, Handle.size]
    split
    · split
      · rename_i call _ _
        have := size_hop (s.setCall c { call with state := .woken }) c hops
        rw [size_setCall] at this
        omega
      · omega
    · omega
  | hop c hops =>
    have := size_hop s c hops
    simp only [handle, Handle.size]
    omega
  | gather c =>
    simp only [handle, Handle.size]
    split
    · split
      · rw [size_post, size_setCall]
        exact Nat.lt_succ_self _
      · rw [size_setCall]
        omega
    · omega
  | caller c =>
    simp only [handle, Handle.size]
    split
    · rename_i call _
      have := size_stopTimer_le (s.setCall c { call with state := .answered (s.reply call) })
        (.call c)
      rw [size_setCall] at this
      omega
    · omega

theorem mem_of_earliest {l : List Timer} {t : Timer} (h : earliest l = some t) : t ∈ l := by
  induction l generalizing t with
  | nil => simp [earliest] at h
  | cons x l ih =>
    rw [earliest] at h
    split at h
    · rename_i u hu
      split at h
      · exact List.mem_cons_of_mem _ (ih (hu.trans h))
      · exact Option.some.inj h ▸ List.mem_cons_self
    · exact Option.some.inj h ▸ List.mem_cons_self

theorem size_elapse_lt {s : Scheduler} {t : Timer} (h : t ∈ s.timers) :
    (s.elapse t).size < s.size := by
  have he := total_erase Timer.size h
  unfold elapse
  split
  · rename_i i hs
    rw [size_post]
    simp only [Timer.size, hs] at he
    simp only [size, Handle.size]
    rw [total_modify Job.size (by intro j; rfl)]
    omega
  · rename_i c hs
    simp only [Timer.size, hs] at he
    dsimp only
    split
    · split
      · split
        · rw [size_post, size_setCall]
          simp only [size, Handle.size]
          omega
        · rw [size_post, size_setCall]
          simp only [size, Handle.size]
          omega
      · simp only [size]
        omega
    · simp only [size]
      omega

theorem size_turn {s s' : Scheduler} (h : s.turn? = some s') : s'.size < s.size := by
  unfold turn? at h
  split at h
  · rename_i hd rest hq
    cases h
    have := size_handle_lt { s with queue := rest } hd
    simp only [size, hq, total_cons] at this ⊢
    omega
  · obtain ⟨t, ht, rfl⟩ := Option.map_eq_some_iff.1 h
    exact size_elapse_lt (mem_of_earliest ht)

end Scheduler

end PartScan
