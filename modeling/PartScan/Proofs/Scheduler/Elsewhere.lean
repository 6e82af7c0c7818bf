import PartScan.Proofs.Scheduler.Journal
import PartScan.Proofs.Scheduler.Without

/-! # Elsewhere

Two schedulers may differ in one job and in all that concerns only that job or a call, and be the
same elsewhere. What is done for the one job, or for a call, changes nothing elsewhere, and what is
done for another job is the same in both.
-/

namespace PartScan

/-- Whether a queue entry is about another job than the given one. -/
def Handle.isElsewhere (i : Nat) : Handle → Bool
  | .step k => k ≠ i
  | .discard k => k ≠ i
  | _ => false

theorem Callback.isElsewhere_handle (i : Nat) (b : Callback) :
    (b.handle i).isElsewhere i = false := by
  cases b with
  | discard => simp [Callback.handle, Handle.isElsewhere]
  | _ => rfl

namespace Scheduler

/-- Two schedulers with the same jobs but for one, and with the same to be done for these. -/
structure Elsewhere (i : Nat) (s t : Scheduler) : Prop where
  settings : t.settings = s.settings
  journal : t.journal.filter (fun en => en.job ≠ i) = s.journal.filter (fun en => en.job ≠ i)
  length : t.jobs.length = s.jobs.length
  jobs : ∀ k, k ≠ i → t.jobs[k]? = s.jobs[k]?
  active : t.active.filter (· ≠ i) = s.active.filter (· ≠ i)
  queue : t.queue.filter (Handle.isElsewhere i) = s.queue.filter (Handle.isElsewhere i)
  sleepers : ∀ k, k ≠ i → t.sleepers k = s.sleepers k
  calls : t.calls.length = s.calls.length

namespace Elsewhere

variable {i k c : Nat} {s s' t t' u : Scheduler} {j : Job}

theorem refl (i : Nat) (s : Scheduler) : Elsewhere i s s :=
  ⟨rfl, rfl, rfl, fun _ _ => rfl, rfl, rfl, fun _ _ => rfl, rfl⟩

theorem symm (h : Elsewhere i s t) : Elsewhere i t s :=
  ⟨h.settings.symm, h.journal.symm, h.length.symm, fun k hk => (h.jobs k hk).symm, h.active.symm,
    h.queue.symm, fun k hk => (h.sleepers k hk).symm, h.calls.symm⟩

theorem trans (h : Elsewhere i s t) (h' : Elsewhere i t u) : Elsewhere i s u :=
  ⟨h'.settings.trans h.settings, h'.journal.trans h.journal, h'.length.trans h.length,
    fun k hk => (h'.jobs k hk).trans (h.jobs k hk), h'.active.trans h.active,
    h'.queue.trans h.queue, fun k hk => (h'.sleepers k hk).trans (h.sleepers k hk),
    h'.calls.trans h.calls⟩

/-- What changes nothing elsewhere may be done on both sides. -/
theorem both (h : Elsewhere i s t) (hs : Elsewhere i s s') (ht : Elsewhere i t t') :
    Elsewhere i s' t' := hs.symm.trans (h.trans ht)

section Own

theorem post_own (s : Scheduler) {e : Handle} (he : e.isElsewhere i = false) :
    Elsewhere i s (s.post e) := by
  refine ⟨rfl, rfl, rfl, fun _ _ => rfl, rfl, ?_, fun _ _ => rfl, rfl⟩
  show (s.queue ++ [e]).filter _ = _
  rw [List.filter_append, List.filter_cons_of_neg (by simp [he]), List.filter_nil, List.append_nil]

theorem recordAll_own (s : Scheduler) {es : List Entry} (hes : ∀ en ∈ es, en.job = i) :
    Elsewhere i s (s.recordAll es) := by
  refine ⟨rfl, ?_, rfl, fun _ _ => rfl, rfl, rfl, fun _ _ => rfl, rfl⟩
  have hnil : es.filter (fun en => en.job ≠ i) = [] :=
    List.filter_eq_nil_iff.2 fun en hen => by simp [hes en hen]
  show (s.journal ++ es).filter _ = _
  rw [List.filter_append, hnil, List.append_nil]

theorem setJob_own (s : Scheduler) (i : Nat) (j : Job) : Elsewhere i s (s.setJob i j) :=
  ⟨rfl, rfl, List.length_set, fun _ hk => List.getElem?_set_ne hk.symm, rfl, rfl, fun _ _ => rfl,
    rfl⟩

theorem modify_own (s : Scheduler) (i : Nat) (f : Job → Job) :
    Elsewhere i s { s with jobs := s.jobs.modify i f } :=
  ⟨rfl, rfl, List.length_modify _ _ _, fun _ hk => List.getElem?_modify_ne _ _ hk.symm, rfl, rfl,
    fun _ _ => rfl, rfl⟩

theorem addCallback_own (s : Scheduler) (i : Nat) (b : Callback) :
    Elsewhere i s (s.addCallback i b) := modify_own s i _

theorem setCall_own (s : Scheduler) (c : Nat) (call : Call) : Elsewhere i s (s.setCall c call) :=
  ⟨rfl, rfl, rfl, fun _ _ => rfl, rfl, rfl, fun _ _ => rfl, List.length_set⟩

theorem setTimer_own (s : Scheduler) (length : Option Rat) {w : Sleeper}
    (hw : ∀ k, w = .job k → k = i) : Elsewhere i s (s.setTimer length w) := by
  cases length with
  | none => exact refl i s
  | some d =>
    refine ⟨rfl, rfl, rfl, fun _ _ => rfl, rfl, rfl, fun k hk => ?_, rfl⟩
    have hne : w ≠ .job k := fun h => hk (hw k h)
    simp [Scheduler.sleepers, Scheduler.setTimer, hne]

theorem stopTimer_own (s : Scheduler) {w : Sleeper} (hw : ∀ k, w = .job k → k = i) :
    Elsewhere i s (s.stopTimer w) := by
  refine ⟨rfl, rfl, rfl, fun _ _ => rfl, rfl, rfl, fun k hk => ?_, rfl⟩
  rw [sleepers_stopTimer, if_neg fun h => hk (hw k h)]

theorem finish_own (s : Scheduler) (i : Nat) (j : Job) (r : JobResult) :
    Elsewhere i s (s.finish i j r) := by
  have hjob := setJob_own s i { j with stage := .finished r, callbacks := [] }
  have hnil : (j.callbacks.map (Callback.handle i)).filter (Handle.isElsewhere i) = [] := by
    apply List.filter_eq_nil_iff.2
    rintro e he
    obtain ⟨b, -, rfl⟩ := List.mem_map.1 he
    simp [Callback.isElsewhere_handle]
  refine ⟨rfl, rfl, hjob.length, hjob.jobs, rfl, ?_, fun _ _ => rfl, rfl⟩
  show (s.queue ++ _).filter _ = _
  rw [List.filter_append, hnil, List.append_nil]

theorem defer_own (s : Scheduler) (i : Nat) (j : Job) (stage : Stage) (d : Delay) :
    Elsewhere i s (s.defer i j stage d) := by
  unfold Scheduler.defer
  split
  · refine (setJob_own s i _).trans (setTimer_own _ _ ?_)
    rintro k ⟨⟩
    rfl
  · exact (setJob_own s i _).trans (post_own _ (by simp [Handle.isElsewhere]))

theorem hop_own (s : Scheduler) (c hops : Nat) : Elsewhere i s (s.hop c hops) := by
  cases hops with
  | zero => exact post_own s rfl
  | succ n => exact post_own s rfl

end Own

section Common

theorem post (h : Elsewhere i s t) (e : Handle) : Elsewhere i (s.post e) (t.post e) where
  settings := h.settings
  journal := h.journal
  length := h.length
  jobs := h.jobs
  active := h.active
  queue := by
    show (t.queue ++ [e]).filter _ = (s.queue ++ [e]).filter _
    rw [List.filter_append, List.filter_append, h.queue]
  sleepers := h.sleepers
  calls := h.calls

theorem recordAll (h : Elsewhere i s t) (es : List Entry) :
    Elsewhere i (s.recordAll es) (t.recordAll es) where
  settings := h.settings
  journal := by
    show (t.journal ++ es).filter _ = (s.journal ++ es).filter _
    rw [List.filter_append, List.filter_append, h.journal]
  length := h.length
  jobs := h.jobs
  active := h.active
  queue := h.queue
  sleepers := h.sleepers
  calls := h.calls

/-- The same is done to the jobs, at most to one of the others. -/
theorem mapJobs (h : Elsewhere i s t) {f : List Job → List Job}
    (hlength : ∀ l, (f l).length = l.length)
    (hf : ∀ k (l l' : List Job), k ≠ i → l.length = l'.length → l[k]? = l'[k]? →
      (f l)[k]? = (f l')[k]?) :
    Elsewhere i { s with jobs := f s.jobs } { t with jobs := f t.jobs } where
  settings := h.settings
  journal := h.journal
  length := by
    show (f t.jobs).length = (f s.jobs).length
    rw [hlength, hlength, h.length]
  jobs k hk := hf k _ _ hk h.length (h.jobs k hk)
  active := h.active
  queue := h.queue
  sleepers := h.sleepers
  calls := h.calls

theorem setJob (h : Elsewhere i s t) (k : Nat) (j : Job) :
    Elsewhere i (s.setJob k j) (t.setJob k j) := by
  refine h.mapJobs (f := fun l => l.set k j) (fun _ => List.length_set) ?_
  intro n l l' _ hl hn
  rw [List.getElem?_set, List.getElem?_set, hl, hn]

theorem modify (h : Elsewhere i s t) (k : Nat) (f : Job → Job) :
    Elsewhere i { s with jobs := s.jobs.modify k f } { t with jobs := t.jobs.modify k f } := by
  refine h.mapJobs (f := fun l => l.modify k f) (fun _ => List.length_modify _ _ _) ?_
  intro n l l' _ _ hn
  rw [List.getElem?_modify, List.getElem?_modify, hn]

theorem addCallback (h : Elsewhere i s t) (k : Nat) (b : Callback) :
    Elsewhere i (s.addCallback k b) (t.addCallback k b) := h.modify k _

theorem addCall (h : Elsewhere i s t) (call call' : Call) :
    Elsewhere i (s.addCall call).1 (t.addCall call').1 where
  settings := h.settings
  journal := h.journal
  length := h.length
  jobs := h.jobs
  active := h.active
  queue := h.queue
  sleepers := h.sleepers
  calls := by
    show (t.calls ++ [call']).length = (s.calls ++ [call]).length
    rw [List.length_append, List.length_append, h.calls]
    rfl

theorem setTimer (h : Elsewhere i s t) (length : Option Rat) (w : Sleeper) :
    Elsewhere i (s.setTimer length w) (t.setTimer length w) := by
  cases length with
  | none => exact h
  | some d =>
    refine ⟨h.settings, h.journal, h.length, h.jobs, h.active, h.queue, fun k hk => ?_, h.calls⟩
    show (t.timers ++ [_]).countP _ = (s.timers ++ [_]).countP _
    rw [List.countP_append, List.countP_append]
    exact congrArg (· + _) (h.sleepers k hk)

theorem stopTimer (h : Elsewhere i s t) (w : Sleeper) :
    Elsewhere i (s.stopTimer w) (t.stopTimer w) := by
  refine ⟨h.settings, h.journal, h.length, h.jobs, h.active, h.queue, fun k hk => ?_, h.calls⟩
  rw [sleepers_stopTimer, sleepers_stopTimer, h.sleepers k hk]

theorem finish (h : Elsewhere i s t) (k : Nat) (j : Job) (r : JobResult) :
    Elsewhere i (s.finish k j r) (t.finish k j r) := by
  have hjob := h.setJob k { j with stage := .finished r, callbacks := [] }
  refine ⟨h.settings, h.journal, hjob.length, hjob.jobs, h.active, ?_, h.sleepers, h.calls⟩
  show (t.queue ++ _).filter _ = (s.queue ++ _).filter _
  rw [List.filter_append, List.filter_append, h.queue]

theorem defer (h : Elsewhere i s t) (k : Nat) (j : Job) (stage : Stage) (d : Delay) :
    Elsewhere i (s.defer k j stage d) (t.defer k j stage d) := by
  unfold Scheduler.defer
  split
  · exact (h.setJob k _).setTimer _ _
  · exact (h.setJob k _).post _

end Common

section Operations

theorem start (h : Elsewhere i s t) (e : List Char) : Elsewhere i (s.start e).1 (t.start e).1 := by
  have hpost := (h.recordAll [.scheduled s.jobs.length e]).post (.step s.jobs.length)
  have hstart (u : Scheduler) (hu : u.jobs.length = s.jobs.length) : (u.start e).1 =
      { (u.recordAll [.scheduled s.jobs.length e]).post (.step s.jobs.length) with
        jobs := u.jobs ++ [{ expression := e }], active := u.active ++ [s.jobs.length] } := by
    rw [← hu]
    rfl
  rw [hstart s rfl, hstart t h.length]
  refine ⟨hpost.settings, hpost.journal, ?_, fun k hk => ?_, ?_, hpost.queue, hpost.sleepers,
    hpost.calls⟩
  · show (t.jobs ++ _).length = (s.jobs ++ _).length
    rw [List.length_append, List.length_append, h.length]
  · show (t.jobs ++ _)[k]? = (s.jobs ++ _)[k]?
    rw [List.getElem?_append, List.getElem?_append, h.length, h.jobs k hk]
  · show (t.active ++ _).filter _ = (s.active ++ _).filter _
    rw [List.filter_append, List.filter_append, h.active]

theorem cancelJob (h : Elsewhere i s t) (k : Nat) (j : Job) :
    Elsewhere i (s.cancelJob k j).1 (t.cancelJob k j).1 := by
  unfold Scheduler.cancelJob
  split
  · exact h
  · split
    · exact ((h.setJob k _).stopTimer _).post _
    · exact h.setJob k _

theorem cancelJob_own (s : Scheduler) (i : Nat) (j : Job) :
    Elsewhere i s (s.cancelJob i j).1 := by
  unfold Scheduler.cancelJob
  split
  · exact refl i s
  · split
    · refine ((setJob_own s i _).trans (stopTimer_own _ ?_)).trans
        (post_own _ (by simp [Handle.isElsewhere]))
      rintro k ⟨⟩
      rfl
    · exact setJob_own s i _

theorem cancel_own (s : Scheduler) (i : Nat) : Elsewhere i s (s.cancel i).1 := by
  unfold Scheduler.cancel
  split
  · exact refl i s
  · exact cancelJob_own s i _

theorem cancel (h : Elsewhere i s t) (k : Nat) : Elsewhere i (s.cancel k).1 (t.cancel k).1 := by
  rcases eq_or_ne k i with rfl | hk
  · exact h.both (cancel_own s k) (cancel_own t k)
  · unfold Scheduler.cancel
    rw [h.jobs k hk]
    split
    · exact h
    · exact h.cancelJob k _

theorem gatherJob_own (s : Scheduler) (c i : Nat) : Elsewhere i s (s.gatherJob c i) := by
  unfold Scheduler.gatherJob
  split
  · exact refl i s
  · split
    · exact post_own s rfl
    · exact addCallback_own s i _

theorem gatherJob (h : Elsewhere i s t) (c k : Nat) :
    Elsewhere i (s.gatherJob c k) (t.gatherJob c k) := by
  rcases eq_or_ne k i with rfl | hk
  · exact h.both (gatherJob_own s c k) (gatherJob_own t c k)
  · unfold Scheduler.gatherJob
    rw [h.jobs k hk]
    split
    · exact h
    · split
      · exact h.post _
      · exact h.addCallback k _

/-- What is done for each job of a list comes to the same if the lists differ in one job only. -/
theorem foldl {f : Scheduler → Nat → Scheduler}
    (hf : ∀ {s t} k, Elsewhere i s t → Elsewhere i (f s k) (f t k))
    (hown : ∀ s, Elsewhere i s (f s i)) (h : Elsewhere i s t) {l l' : List Nat}
    (hl : l'.filter (· ≠ i) = l.filter (· ≠ i)) :
    Elsewhere i (l.foldl f s) (l'.foldl f t) := by
  have hfilter (l : List Nat) {s t : Scheduler} (h : Elsewhere i s t) :
      Elsewhere i (l.foldl f s) ((l.filter (· ≠ i)).foldl f t) := by
    induction l generalizing s t with
    | nil => exact h
    | cons k l ih =>
      rcases eq_or_ne k i with rfl | hk
      · rw [List.filter_cons_of_neg (by simp)]
        exact ih ((hown s).symm.trans h)
      · rw [List.filter_cons_of_pos (by simpa using hk)]
        exact ih (hf k h)
  have hs := hfilter l h
  rw [← hl] at hs
  exact hs.trans (hfilter l' (refl i t)).symm

/-- With or without an active job, all are cancelled and then gathered for one call. -/
theorem cancelAll_own (s : Scheduler) (call : Call) :
    Elsewhere i (s.active.foldl (fun u k => u.gatherJob s.calls.length k)
      ((s.active.foldl (fun u k => (u.cancel k).1) s).addCall call).1) s.cancelAll.1 := by
  have hlength := Serves.length_cancels s s.active
  unfold Scheduler.cancelAll
  dsimp only
  split
  · rename_i hnil
    rw [hnil]
    exact (refl i s).addCall _ _
  · rw [← hlength]
    exact ((refl i _).addCall _ _).foldl (fun k h => h.gatherJob _ k)
      (fun u => gatherJob_own u _ i) rfl

theorem cancelAll (h : Elsewhere i s t) : Elsewhere i s.cancelAll.1 t.cancelAll.1 := by
  have hcancels := h.foldl (f := fun u k => (u.cancel k).1) (fun k h => h.cancel k)
    (fun u => cancel_own u i) h.active
  refine Elsewhere.both ?_ (cancelAll_own s { want := .turn }) (cancelAll_own t { want := .turn })
  rw [h.calls]
  exact (hcancels.addCall _ _).foldl (fun k h => h.gatherJob _ k) (fun u => gatherJob_own u _ i)
    h.active

theorem pause (h : Elsewhere i s t) : Elsewhere i s.pause.1 t.pause.1 :=
  (h.addCall _ _).both (post_own _ rfl) (post_own _ rfl)

theorem abandon_own (s : Scheduler) (c : Nat) : Elsewhere i s (s.abandon c) := by
  unfold Scheduler.abandon
  split
  · exact refl i s
  · split
    · exact ((setCall_own s c _).trans (stopTimer_own _ (by simp))).trans (post_own _ rfl)
    · exact setCall_own s c _
    · exact setCall_own s c _
    · exact refl i s

theorem abandon (h : Elsewhere i s t) (c : Nat) : Elsewhere i (s.abandon c) (t.abandon c) :=
  h.both (abandon_own s c) (abandon_own t c)

/-- The wait `c` for a job leaves a callback with it, unless it is answered or late at once. -/
def wake? (j : Job) (c : Nat) (limit : Option Rat) : Option Callback :=
  match j.result?, limit with
  | none, none => some (.wake c 0)
  | none, some d => if d ≤ 0 then none else some (.wake c 1)
  | some _, _ => none

theorem wait_wakes (hj : s.jobs[k]? = some j) (limit : Option Rat) (call : Call) :
    Elsewhere i ((wake? j s.calls.length limit).elim (s.addCall call).1
      ((s.addCall call).1.addCallback k)) (s.wait k limit).1 := by
  have hcall (call' : Call) : Elsewhere i (s.addCall call).1 (s.addCall call').1 :=
    (refl i s).addCall call call'
  cases hr : j.result? with
  | some r =>
    cases limit with
    | none =>
      simp only [Scheduler.wait, wake?, hj, hr]
      exact hcall _
    | some d =>
      simp only [Scheduler.wait, wake?, hj, hr]
      split
      · exact hcall _
      · exact (hcall _).trans (post_own _ rfl)
  | none =>
    cases limit with
    | none =>
      simp only [Scheduler.wait, wake?, hj, hr]
      exact (hcall _).addCallback k _
    | some d =>
      simp only [Scheduler.wait, wake?, hj, hr]
      split
      · exact (hcall _).trans (post_own _ rfl)
      · exact ((hcall _).addCallback k _).trans (setTimer_own _ (some d) (by simp))

theorem wait (h : Elsewhere i s t) (k : Nat) (limit : Option Rat) :
    Elsewhere i (s.wait k limit).1 (t.wait k limit).1 := by
  have hcall := h.addCall { want := .turn } { want := .turn }
  rcases eq_or_ne k i with rfl | hk
  · have hown (u : Scheduler) {j : Job} (hj : u.jobs[k]? = some j) :
        Elsewhere k (u.addCall { want := .turn }).1 (u.wait k limit).1 := by
      have hwakes : Elsewhere k _ (u.wait k limit).1 := wait_wakes hj limit { want := .turn }
      cases hb : wake? j u.calls.length limit with
      | none =>
        rw [hb] at hwakes
        exact hwakes
      | some b =>
        rw [hb] at hwakes
        exact (addCallback_own _ k b).trans hwakes
    cases hj : s.jobs[k]? with
    | none =>
      have ht : t.jobs[k]? = none := by
        rw [List.getElem?_eq_none_iff, h.length, ← List.getElem?_eq_none_iff, hj]
      rw [wait_unknown hj, wait_unknown ht]
      exact h
    | some j =>
      have hlt : k < t.jobs.length := by
        rw [h.length]
        exact (List.getElem?_eq_some_iff.1 hj).1
      exact hcall.both (hown s hj) (hown t (List.getElem?_eq_getElem hlt))
  · have ht := h.jobs k hk
    cases hj : s.jobs[k]? with
    | none =>
      rw [wait_unknown hj, wait_unknown (ht.trans hj)]
      exact h
    | some j =>
      refine Elsewhere.both ?_ (wait_wakes hj limit { want := .turn })
        (wait_wakes (ht.trans hj) limit { want := .turn })
      rw [h.calls]
      cases wake? j s.calls.length limit with
      | none => exact hcall
      | some b => exact hcall.addCallback k b

theorem rung_own {u : Timer} (hu : u ∈ s.timers) (hw : ∀ k, u.sleeper = .job k → k = i) :
    Elsewhere i s (s.rung u) := by
  refine ⟨rfl, rfl, rfl, fun _ _ => rfl, rfl, rfl, fun k hk => ?_, rfl⟩
  rw [sleepers_erase hu, if_neg fun h => hk (hw k h)]
  rfl

theorem elapse_own {u : Timer} (hu : u ∈ s.timers) (hw : ∀ k, u.sleeper = .job k → k = i) :
    Elsewhere i s (s.elapse u) := by
  have hrung := rung_own hu hw
  rw [elapse_eq]
  cases hs : u.sleeper with
  | job k =>
    obtain rfl := hw k hs
    exact (hrung.trans (modify_own _ k _)).trans (post_own _ (by simp [Handle.isElsewhere]))
  | call c =>
    simp only [Scheduler.alarm]
    split
    · split
      · split
        · exact (hrung.trans (setCall_own _ c _)).trans (post_own _ rfl)
        · exact (hrung.trans (setCall_own _ c _)).trans (post_own _ rfl)
      · exact hrung
    · exact hrung

/-- Where a timer of another job elapses, one of that job can elapse in the other scheduler. -/
theorem elapse (h : Elsewhere i s t) {u : Timer} (hu : u ∈ s.timers) (hw : u.sleeper = .job k)
    (hk : k ≠ i) : ∃ v ∈ t.timers, Elsewhere i (s.elapse u) (t.elapse v) := by
  have hpos : 0 < t.sleepers k := by
    rw [h.sleepers k hk]
    exact List.countP_pos_iff.2 ⟨u, hu, by simp [hw]⟩
  obtain ⟨v, hv, hwv⟩ := List.countP_pos_iff.1 hpos
  rw [decide_eq_true_eq] at hwv
  have hrung : Elsewhere i (s.rung u) (t.rung v) := by
    refine ⟨h.settings, h.journal, h.length, h.jobs, h.active, h.queue, fun n hn => ?_, h.calls⟩
    have hsleepers := h.sleepers n hn
    rw [sleepers_erase hu, sleepers_erase hv, hw, hwv] at hsleepers
    exact Nat.add_right_cancel hsleepers
  refine ⟨v, hv, ?_⟩
  rw [elapse_eq, elapse_eq, hw, hwv]
  exact (hrung.modify k _).post _

end Operations

end Elsewhere

end Scheduler

end PartScan
