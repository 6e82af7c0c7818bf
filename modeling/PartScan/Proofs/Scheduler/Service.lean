import PartScan.Proofs.Scheduler.History

/-! # Calls and what concerns them

A call stands in entries of the queue, in callbacks of jobs and in timers. A move serves at most a
few calls; of any other call nothing changes but that the callbacks of a job that ends come into the
queue.
-/

namespace PartScan

/-- The call that an entry of the queue concerns. -/
def Handle.call? : Handle → Option Nat
  | .step _ | .discard _ => none
  | .wake c _ | .hop c _ | .gather c | .caller c => some c

def Callback.call? : Callback → Option Nat
  | .discard => none
  | .wake c _ | .gather c => some c

@[simp] theorem Callback.call?_handle (i : Nat) (b : Callback) : (b.handle i).call? = b.call? := by
  cases b <;> rfl

/-- The second job is the first one with further callbacks, which concern calls in a set. -/
structure Job.Grown (P : Nat → Prop) (j j' : Job) : Prop where
  isFinished : j'.isFinished = j.isFinished
  callbacks : ∃ bs, j'.callbacks = j.callbacks ++ bs ∧ .discard ∉ bs ∧
    (j.isFinished = true → bs = []) ∧ ∀ b ∈ bs, ∀ c, b.call? = some c → P c

namespace Job.Grown

variable {P : Nat → Prop} {j j' j'' : Job}

theorem of_eq (hf : j'.isFinished = j.isFinished) (hb : j'.callbacks = j.callbacks) :
    Grown P j j' :=
  ⟨hf, [], by simp [hb]⟩

theorem trans (h : Grown P j j') (h' : Grown P j' j'') : Grown P j j'' := by
  obtain ⟨bs, hbs, hd, hf, hc⟩ := h.callbacks
  obtain ⟨bs', hbs', hd', hf', hc'⟩ := h'.callbacks
  refine ⟨h'.isFinished.trans h.isFinished, bs ++ bs', ?_, ?_, ?_, ?_⟩
  · rw [hbs', hbs, List.append_assoc]
  · simp [hd, hd']
  · intro hj
    rw [hf hj, hf' (h.isFinished.trans hj), List.append_nil]
  · intro b hb
    exact (List.mem_append.1 hb).elim (hc b) (hc' b)

end Job.Grown

namespace Scheduler

/-- The entries of the queue that concern a call. -/
def entries (s : Scheduler) (c : Nat) : List Handle := s.queue.filter fun h => h.call? = some c

/-- The callbacks of a job that concern a call. -/
def notices (s : Scheduler) (i c : Nat) : List Callback :=
  (((s.jobs[i]?).map Job.callbacks).getD []).filter fun b => b.call? = some c

/-- How many timers will wake a call. -/
def alarms (s : Scheduler) (c : Nat) : Nat := s.timers.countP fun t => t.sleeper = .call c

/-- From the first scheduler to the second one only calls in a set are served: no job ends and none
is dropped. -/
structure Serves (P : Nat → Prop) (s s' : Scheduler) : Prop where
  active : s'.active = s.active
  queue : ∃ hs, s'.queue = s.queue ++ hs ∧ (∀ i, .discard i ∉ hs) ∧
    ∀ h ∈ hs, ∀ c, h.call? = some c → P c
  jobs : ∀ i : Nat, Option.Rel (Job.Grown P) s.jobs[i]? s'.jobs[i]?
  calls : ∀ c : Nat, ¬ P c → s'.calls[c]? = s.calls[c]?
  alarms : ∀ c, ¬ P c → s'.alarms c = s.alarms c
  length_le : s.calls.length ≤ s'.calls.length

theorem rel_grown_refl {P : Nat → Prop} (j? : Option Job) :
    Option.Rel (Job.Grown P) j? j? := by
  cases j? with
  | none => exact .none
  | some j => exact .some (.of_eq rfl rfl)

theorem rel_grown_trans {P : Nat → Prop} {a b c : Option Job} (h : Option.Rel (Job.Grown P) a b)
    (h' : Option.Rel (Job.Grown P) b c) : Option.Rel (Job.Grown P) a c := by
  cases h with
  | none =>
    cases h'
    exact .none
  | some h =>
    cases h' with
    | some h' => exact .some (h.trans h')

theorem alarms_stopTimer_ne (s : Scheduler) {who : Sleeper} {c : Nat} (h : who ≠ .call c) :
    (s.stopTimer who).alarms c = s.alarms c := by
  simp only [Scheduler.alarms, Scheduler.stopTimer, List.countP_filter]
  apply List.countP_congr
  intro t _
  simp only [ne_eq, Bool.and_eq_true, decide_eq_true_eq, and_iff_left_iff_imp]
  intro ht
  rw [ht]
  exact h.symm

theorem alarms_setTimer_ne (s : Scheduler) (length : Option Rat) {who : Sleeper} {c : Nat}
    (h : who ≠ .call c) : (s.setTimer length who).alarms c = s.alarms c := by
  cases length with
  | none => rfl
  | some t => simp [Scheduler.alarms, Scheduler.setTimer, h]

namespace Serves

variable {P : Nat → Prop} {s s' s'' : Scheduler}

theorem refl (P : Nat → Prop) (s : Scheduler) : Serves P s s :=
  ⟨rfl, ⟨[], by simp⟩, fun _ => rel_grown_refl _, fun _ _ => rfl, fun _ _ => rfl, Nat.le_refl _⟩

theorem trans (h : Serves P s s') (h' : Serves P s' s'') : Serves P s s'' := by
  obtain ⟨hs, hq, hd, hc⟩ := h.queue
  obtain ⟨hs', hq', hd', hc'⟩ := h'.queue
  refine ⟨h'.active.trans h.active, ⟨hs ++ hs', ?_, ?_, ?_⟩,
    fun i => rel_grown_trans (h.jobs i) (h'.jobs i), ?_, ?_,
    Nat.le_trans h.length_le h'.length_le⟩
  · rw [hq', hq, List.append_assoc]
  · intro i
    simp [hd i, hd' i]
  · intro e he
    exact (List.mem_append.1 he).elim (hc e) (hc' e)
  · intro c hc
    exact (h'.calls c hc).trans (h.calls c hc)
  · intro c hc
    exact (h'.alarms c hc).trans (h.alarms c hc)

theorem foldl {α : Type} {f : Scheduler → α → Scheduler} (h : ∀ s a, Serves P s (f s a))
    (s : Scheduler) (l : List α) : Serves P s (l.foldl f s) := by
  induction l generalizing s with
  | nil => exact refl P s
  | cons a l ih => exact (h s a).trans (ih _)

theorem post (s : Scheduler) {h : Handle} (hd : ∀ i, h ≠ .discard i)
    (hc : ∀ c, h.call? = some c → P c) : Serves P s (s.post h) := by
  refine ⟨rfl, ⟨[h], rfl, ?_, ?_⟩, fun _ => rel_grown_refl _, fun _ _ => rfl, fun _ _ => rfl,
    Nat.le_refl _⟩
  · intro i
    simpa using (hd i).symm
  · intro e he
    rw [List.mem_singleton.1 he]
    exact hc

theorem addCall (s : Scheduler) (call : Call) (hP : P s.calls.length) :
    Serves P s (s.addCall call).1 := by
  refine ⟨rfl, ⟨[], by simp [Scheduler.addCall]⟩, fun _ => rel_grown_refl _, ?_, fun _ _ => rfl,
    by simp [Scheduler.addCall]⟩
  intro c hc
  show (s.calls ++ [call])[c]? = s.calls[c]?
  rcases Nat.lt_trichotomy c s.calls.length with hlt | rfl | hgt
  · exact List.getElem?_append_left hlt
  · exact absurd hP hc
  · rw [List.getElem?_eq_none (Nat.le_of_lt hgt), List.getElem?_eq_none (by simp; omega)]

theorem setCall (s : Scheduler) {c : Nat} (call : Call) (hP : P c) :
    Serves P s (s.setCall c call) := by
  refine ⟨rfl, ⟨[], by simp [Scheduler.setCall]⟩, fun _ => rel_grown_refl _, ?_, fun _ _ => rfl,
    by simp [Scheduler.setCall]⟩
  intro d hd
  exact List.getElem?_set_ne (by rintro rfl; exact hd hP)

/-- A job is replaced, neither ended nor with other callbacks. -/
theorem replace {i : Nat} {j : Job} (j' : Job) (hj : s.jobs[i]? = some j)
    (h : Job.Grown P j j') : Serves P s (s.setJob i j') := by
  refine ⟨rfl, ⟨[], by simp [Scheduler.setJob]⟩, ?_, fun _ _ => rfl, fun _ _ => rfl, Nat.le_refl _⟩
  intro k
  show Option.Rel _ _ (s.jobs.set i j')[k]?
  rcases eq_or_ne k i with rfl | hk
  · rw [hj, List.getElem?_set_self (List.getElem?_eq_some_iff.1 hj).1]
    exact .some h
  · rw [List.getElem?_set_ne hk.symm]
    exact rel_grown_refl _

theorem addCallback {i : Nat} {j : Job} (hj : s.jobs[i]? = some j) (hf : j.isFinished = false)
    {b : Callback} (hb : b ≠ .discard) (hc : ∀ c, b.call? = some c → P c) :
    Serves P s (s.addCallback i b) := by
  have heq : s.addCallback i b = s.setJob i { j with callbacks := j.callbacks ++ [b] } := by
    rw [Scheduler.addCallback, Scheduler.setJob, modify_eq_set hj]
  rw [heq]
  refine replace _ hj ⟨rfl, [b], rfl, by simpa using hb.symm, fun hj' => ?_, ?_⟩
  · rw [hf] at hj'
    cases hj'
  · intro b' hb'
    rw [List.mem_singleton.1 hb']
    exact hc

theorem setTimer (s : Scheduler) (length : Option Rat) {who : Sleeper}
    (hc : ∀ c, who = .call c → P c) : Serves P s (s.setTimer length who) := by
  cases length with
  | none => exact refl P s
  | some t =>
    exact ⟨rfl, ⟨[], by simp [Scheduler.setTimer]⟩, fun _ => rel_grown_refl _, fun _ _ => rfl,
      fun c h => alarms_setTimer_ne s (some t) (h ∘ hc c), Nat.le_refl _⟩

theorem stopTimer (s : Scheduler) {who : Sleeper} (hc : ∀ c, who = .call c → P c) :
    Serves P s (s.stopTimer who) :=
  ⟨rfl, ⟨[], by simp [Scheduler.stopTimer]⟩, fun _ => rel_grown_refl _, fun _ _ => rfl,
    fun c h => alarms_stopTimer_ne s (h ∘ hc c), Nat.le_refl _⟩

theorem recordAll (s : Scheduler) (es : List Entry) : Serves P s (s.recordAll es) :=
  ⟨rfl, ⟨[], by simp [Scheduler.recordAll]⟩, fun _ => rel_grown_refl _, fun _ _ => rfl,
    fun _ _ => rfl, Nat.le_refl _⟩

theorem hop (s : Scheduler) {c : Nat} (hops : Nat) (hP : P c) : Serves P s (s.hop c hops) := by
  cases hops with
  | zero => exact post s (by simp) (by simpa [Handle.call?] using hP)
  | succ n => exact post s (by simp) (by simpa [Handle.call?] using hP)

theorem pause (s : Scheduler) (hP : P s.calls.length) : Serves P s s.pause.1 :=
  (addCall s _ hP).trans (post _ (by simp) (by simpa [Handle.call?] using hP))

theorem gatherJob (s : Scheduler) {c : Nat} (i : Nat) (hP : P c) :
    Serves P s (s.gatherJob c i) := by
  unfold Scheduler.gatherJob
  split
  · exact refl P s
  · rename_i j hj
    split
    · exact post s (by simp) (by simpa [Handle.call?] using hP)
    · rename_i hf
      exact addCallback hj (Bool.eq_false_iff.2 hf) (by simp) (by simpa [Callback.call?] using hP)

theorem wait (s : Scheduler) (i : Nat) (limit : Option Rat) (hP : P s.calls.length) :
    Serves P s (s.wait i limit).1 := by
  have hhandle (hops : Nat) : ∀ c, (Handle.hop s.calls.length hops).call? = some c → P c := by
    simpa [Handle.call?] using hP
  unfold Scheduler.wait
  split
  · exact refl P s
  · rename_i j hj
    have hback (call : Call) (hops : Nat) (h : j.result? = none) : Serves P (s.addCall call).1
        ((s.addCall call).1.addCallback i (.wake s.calls.length hops)) :=
      addCallback (s := (s.addCall call).1) (b := .wake s.calls.length hops) hj
        (by simp [Job.isFinished, h]) (by simp) (by simpa [Callback.call?] using hP)
    split
    · exact addCall s _ hP
    · split
      · exact addCall s _ hP
      · exact (addCall s _ hP).trans (post _ (by simp) (hhandle _))
    · rename_i hr
      exact (addCall s _ hP).trans (hback _ _ hr)
    · rename_i hr
      split
      · exact (addCall s _ hP).trans (post _ (by simp) (hhandle _))
      · refine ((addCall s _ hP).trans (hback _ _ hr)).trans (setTimer _ (some _) ?_)
        rintro c hc
        cases hc
        exact hP

theorem abandon (s : Scheduler) (c : Nat) (hP : c < s.calls.length → P c) :
    Serves P s (s.abandon c) := by
  unfold Scheduler.abandon
  split
  · exact refl P s
  · rename_i call hcall
    have hc : P c := hP (List.getElem?_eq_some_iff.1 hcall).1
    split
    · refine ((setCall s _ hc).trans (stopTimer _ ?_)).trans
        (post _ (by simp) (by simpa [Handle.call?] using hc))
      rintro d hd
      cases hd
      exact hc
    · exact setCall s _ hc
    · exact setCall s _ hc
    · exact refl P s

theorem cancelJob {i : Nat} {j : Job} (hj : s.jobs[i]? = some j) :
    Serves P s (s.cancelJob i j).1 := by
  unfold Scheduler.cancelJob
  split
  · exact refl P s
  · split
    · have hset : Serves P s _ :=
        replace { j with cancelRequested := true, asleep := false } hj (.of_eq rfl rfl)
      have hstop (s : Scheduler) : Serves P s (s.stopTimer (.job i)) := stopTimer s (by simp)
      exact (hset.trans (hstop _)).trans (post _ (by simp) (by simp [Handle.call?]))
    · exact replace _ hj (.of_eq rfl rfl)

theorem cancel (s : Scheduler) (i : Nat) : Serves P s (s.cancel i).1 := by
  unfold Scheduler.cancel
  split
  · exact refl P s
  · exact cancelJob ‹_›

theorem length_cancels (s : Scheduler) (l : List Nat) :
    (l.foldl (fun s i => (s.cancel i).1) s).calls.length = s.calls.length := by
  have h : Serves (fun _ => False) s (l.foldl (fun s i => (s.cancel i).1) s) := foldl cancel s l
  apply Nat.le_antisymm _ h.length_le
  by_contra hlt
  have hlast := h.calls s.calls.length id
  rw [List.getElem?_eq_none (Nat.le_refl _), List.getElem?_eq_none_iff] at hlast
  exact hlt hlast

theorem cancelAll (s : Scheduler) (hP : P s.calls.length) : Serves P s s.cancelAll.1 := by
  have hcancels : Serves P s (s.active.foldl (fun s i => (s.cancel i).1) s) :=
    foldl cancel s s.active
  have hlength := length_cancels s s.active
  rw [← hlength] at hP
  unfold Scheduler.cancelAll
  dsimp only
  split
  · exact hcancels.trans (addCall _ _ hP)
  · exact (hcancels.trans (addCall _ _ hP)).trans (foldl (fun s i => gatherJob s i hP) _ _)

theorem elapse {t : Timer} (ht : t ∈ s.timers) (hP : ∀ c, t.sleeper = .call c → P c) :
    Serves P s (s.elapse t) := by
  have herase : Serves P s { s with timers := s.timers.erase t, now := later s.now t.deadline } := by
    refine ⟨rfl, ⟨[], by simp⟩, fun _ => rel_grown_refl _, fun _ _ => rfl, fun c hc => ?_,
      Nat.le_refl _⟩
    have hne : t.sleeper ≠ .call c := fun h => hc (hP c h)
    have hperm := (List.perm_cons_erase ht).countP_eq fun u => u.sleeper = .call c
    simpa [Scheduler.alarms, hne] using hperm.symm
  unfold Scheduler.elapse
  split
  · rename_i i hw
    refine (herase.trans ?_).trans (post _ (by simp) (by simp [Handle.call?]))
    refine ⟨rfl, ⟨[], by simp⟩, fun k => ?_, fun _ _ => rfl, fun _ _ => rfl, Nat.le_refl _⟩
    show Option.Rel _ s.jobs[k]? (s.jobs.modify i _)[k]?
    rw [List.getElem?_modify]
    cases s.jobs[k]? with
    | none => exact .none
    | some j => by_cases hk : i = k <;> simp [hk] <;> exact .of_eq rfl rfl
  · rename_i c hw
    have hc : P c := hP c hw
    have hhandle {h : Handle} (hh : h.call? = some c) : ∀ d, h.call? = some d → P d := by
      rintro d hd
      rw [hh] at hd
      cases hd
      exact hc
    dsimp only
    split
    · split
      · split
        · exact (herase.trans (setCall _ _ hc)).trans (post _ (by simp) (hhandle rfl))
        · exact (herase.trans (setCall _ _ hc)).trans (post _ (by simp) (hhandle rfl))
      · exact herase
    · exact herase

theorem handle (s : Scheduler) {h : Handle} {c : Nat} (hc : h.call? = some c) (hP : P c) :
    Serves P s (s.handle h) := by
  cases h with
  | step i => cases hc
  | discard i => cases hc
  | wake d hops =>
    cases hc
    simp only [Scheduler.handle]
    split
    · split
      · exact (setCall s _ hP).trans (hop _ _ hP)
      · exact refl P s
    · exact refl P s
  | hop d hops =>
    cases hc
    exact hop s hops hP
  | gather d =>
    cases hc
    simp only [Scheduler.handle]
    split
    · split
      · exact (setCall s _ hP).trans (post _ (by simp) (by simpa [Handle.call?] using hP))
      · exact setCall s _ hP
    · exact refl P s
  | caller d =>
    cases hc
    simp only [Scheduler.handle]
    split
    · refine (setCall s _ hP).trans (stopTimer _ ?_)
      rintro e he
      cases he
      exact hP
    · exact refl P s

end Serves

variable {s s' : Scheduler} {c : Nat}

/-- Whether a move serves a call: it makes the call, has it given up, ends its timer or runs an entry
of the queue that concerns it. -/
def served (s : Scheduler) : Move → Nat → Prop
  | .turn, c => s.queue.head?.bind Handle.call? = some c
  | .elapse t, c => t ∈ s.timers ∧ t.sleeper = .call c
  | .abandon k, c => c = k ∧ c < s.calls.length
  | .start _, _ | .cancel _, _ => False
  | _, c => c = s.calls.length

/-- Where a move begins: a turn has taken the first entry off the queue. -/
def before (s : Scheduler) : Move → Scheduler
  | .turn => s.popped
  | _ => s

/-- What a move does: it makes a job, drops a job from the active ones, ends a job, or serves calls
at most. -/
inductive Acts (s : Scheduler) : Move → Prop
  | starts (e : List Char) : Acts s (.start e)
  | drops {i : Nat} (hq : s.queue.head? = some (.discard i)) : Acts s .turn
  | ends {i : Nat} {j : Job} {es : List Entry} {r : JobResult}
      (hq : s.queue.head? = some (.step i)) (hj : s.jobs[i]? = some j)
      (hf : j.isFinished = false) (h : Ends s.settings s.sink i j es r)
      (hm : s.move .turn = (s.popped.recordAll es).finish i j r) : Acts s .turn
  | serves {m : Move} (hm : m.started = [])
      (hd : ∀ i, m = .turn → s.queue.head? ≠ some (.discard i))
      (h : Serves (s.served m) (s.before m) (s.move m)) : Acts s m

theorem serves_defer {P : Nat → Prop} {i : Nat} {j : Job} {stage : Stage} {es : List Entry}
    (d : Delay) (hj : s.jobs[i]? = some j) (hf : j.isFinished = false)
    (hs : ∀ r, stage ≠ .finished r) : Serves P s ((s.recordAll es).defer i j stage d) := by
  have hrun (a : Bool) : Job.isFinished { j with stage, asleep := a } = j.isFinished := by
    rw [hf]
    cases stage with
    | finished r => exact absurd rfl (hs r)
    | _ => rfl
  have hset (a : Bool) : Serves P s ((s.recordAll es).setJob i { j with stage, asleep := a }) :=
    (Serves.recordAll s es).trans (.replace _ hj (.of_eq (hrun a) rfl))
  unfold defer
  split
  · refine (hset true).trans (.setTimer _ _ ?_)
    rintro c hc
    cases hc
  · exact (hset j.asleep).trans (.post _ (by simp) (by simp [Handle.call?]))

/-- A turn that takes the next step of a job. -/
theorem acts_step (hp : ∀ i, s.Placed i) {i : Nat} (hq : s.queue.head? = some (.step i)) :
    Acts s .turn := by
  obtain ⟨rest, hrest⟩ := List.head?_eq_some_iff.1 hq
  obtain ⟨j, hj, hf, -⟩ := (hp i).step (by simp [steps, hrest])
  have hmove := move_step hq hj
  have hserves (h : Serves (s.served .turn) s.popped (s.popped.step i j)) : Acts s .turn :=
    .serves rfl (by simp [hq]) (hmove ▸ h)
  have hstep := stepped_step s.popped i j
  generalize s.popped.step i j = s' at hmove hserves hstep
  cases hstep with
  | ends h => exact .ends hq hj hf h hmove
  | goes h =>
    refine hserves (serves_defer _ hj hf ?_)
    cases h <;> simp
  | idle h => simp [hf] at h

/-- Every move does one of these things. -/
theorem acts (hp : ∀ i, s.Placed i) (m : Move) : Acts s m := by
  cases m with
  | start e => exact .starts e
  | cancel i => exact .serves rfl (by simp) (.cancel s i)
  | cancelAll => exact .serves rfl (by simp) (.cancelAll s rfl)
  | wait i limit => exact .serves rfl (by simp) (.wait s i limit rfl)
  | abandon c => exact .serves rfl (by simp) (.abandon s c fun hc => ⟨rfl, hc⟩)
  | pause => exact .serves rfl (by simp) (.pause s rfl)
  | elapse t =>
    refine .serves rfl (by simp) ?_
    rw [move]
    split
    · exact .elapse ‹_› fun c hc => ⟨‹_›, hc⟩
    · exact .refl _ s
  | turn =>
    cases hq : s.queue.head? with
    | none =>
      have hnil : s.queue = [] := List.head?_eq_none_iff.1 hq
      have hpopped : s.popped = s := by rw [popped, hnil, List.tail_nil, ← hnil]
      refine .serves rfl (by simp [hq]) ?_
      rw [move_turn_of_nil hq, before, hpopped]
      exact .refl _ s
    | some h =>
      cases hc : h.call? with
      | some c =>
        refine .serves rfl ?_ (move_turn hq ▸ .handle _ hc (by simp [served, hq, hc]))
        rintro i -
        rw [hq]
        rintro ⟨⟩
        cases hc
      | none =>
        cases h with
        | step i => exact acts_step hp hq
        | discard i => exact .drops hq
        | _ => cases hc

end Scheduler

end PartScan
