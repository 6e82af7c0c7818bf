import PartScan.Proofs.Scheduler.Wait

/-! # Schedulers without some calls

Two schedulers that differ in some calls only: the second one does not have them, and numbers the
others accordingly. The clocks may differ too, as a timer can elapse at any moment.
-/

namespace PartScan

def Handle.renumber (f : Nat → Option Nat) : Handle → Option Handle
  | .step i => some (.step i)
  | .discard i => some (.discard i)
  | .wake c hops => (f c).map fun d => .wake d hops
  | .hop c hops => (f c).map fun d => .hop d hops
  | .gather c => (f c).map .gather
  | .caller c => (f c).map .caller

def Callback.renumber (f : Nat → Option Nat) : Callback → Option Callback
  | .discard => some .discard
  | .wake c hops => (f c).map fun d => .wake d hops
  | .gather c => (f c).map .gather

def Sleeper.renumber (f : Nat → Option Nat) : Sleeper → Option Sleeper
  | .job i => some (.job i)
  | .call c => (f c).map .call

/-- A job with the callbacks that concern remaining calls. -/
def Job.renumber (f : Nat → Option Nat) (j : Job) : Job :=
  { j with callbacks := j.callbacks.filterMap (Callback.renumber f) }

theorem Callback.renumber_handle (f : Nat → Option Nat) (i : Nat) (b : Callback) :
    (b.handle i).renumber f = (b.renumber f).map (Callback.handle i) := by
  cases b with
  | discard => rfl
  | wake c hops =>
    show (f c).map _ = ((f c).map _).map _
    rw [Option.map_map]
    rfl
  | gather c =>
    show (f c).map _ = ((f c).map _).map _
    rw [Option.map_map]
    rfl

theorem filterMap_renumber_handle (f : Nat → Option Nat) (i : Nat) (bs : List Callback) :
    (bs.map (Callback.handle i)).filterMap (Handle.renumber f) =
      (bs.filterMap (Callback.renumber f)).map (Callback.handle i) := by
  rw [List.filterMap_map, List.map_filterMap]
  apply List.filterMap_congr
  intro b _
  exact b.renumber_handle f i

@[simp] theorem Job.isFinished_renumber (f : Nat → Option Nat) (j : Job) :
    (j.renumber f).isFinished = j.isFinished := rfl

@[simp] theorem Job.result?_renumber (f : Nat → Option Nat) (j : Job) :
    (j.renumber f).result? = j.result? := rfl

section Place

variable (gone : Nat → Bool)

/-- The number of a call where calls that are gone do not count. -/
def place (c : Nat) : Nat := (List.range c).countP fun k => !gone k

/-- The new number of a call, unless it is gone. -/
def renumber (c : Nat) : Option Nat := if gone c then none else some (place gone c)

theorem place_succ (c : Nat) : place gone (c + 1) = place gone c + if gone c then 0 else 1 := by
  rw [place, List.range_succ, List.countP_append, ← place]
  cases hc : gone c <;> simp [hc]

theorem place_mono {c d : Nat} (h : c ≤ d) : place gone c ≤ place gone d := by
  induction h with
  | refl => exact Nat.le_refl _
  | step _ ih => exact Nat.le_trans ih (by rw [place_succ]; exact Nat.le_add_right _ _)

variable {gone}

theorem renumber_eq_some {c d : Nat} :
    renumber gone c = some d ↔ gone c = false ∧ place gone c = d := by
  unfold renumber
  cases gone c <;> simp

theorem renumber_eq_none {c : Nat} : renumber gone c = none ↔ gone c = true := by
  unfold renumber
  cases gone c <;> simp

theorem place_lt {c d : Nat} (hc : gone c = false) (h : c < d) : place gone c < place gone d := by
  refine Nat.lt_of_lt_of_le ?_ (place_mono gone (Nat.succ_le_of_lt h))
  rw [place_succ, hc]
  exact Nat.lt_succ_self _

/-- Different remaining calls have different numbers. -/
theorem place_inj {c d : Nat} (hc : gone c = false) (hd : gone d = false)
    (h : place gone c = place gone d) : c = d := by
  rcases Nat.lt_trichotomy c d with hlt | heq | hgt
  · exact absurd h (Nat.ne_of_lt (place_lt hc hlt))
  · exact heq
  · exact absurd h.symm (Nat.ne_of_lt (place_lt hd hgt))

theorem Sleeper.renumber_inj {w w' v : Sleeper} (h : w.renumber (PartScan.renumber gone) = some v)
    (h' : w'.renumber (PartScan.renumber gone) = some v) : w = w' := by
  cases w with
  | job i =>
    cases h
    cases w' with
    | job k => simpa [Sleeper.renumber] using h'.symm
    | call d => simp [Sleeper.renumber] at h'
  | call c =>
    obtain ⟨n, hn, rfl⟩ := Option.map_eq_some_iff.1 h
    cases w' with
    | job k => cases h'
    | call d =>
      obtain ⟨n', hn', heq⟩ := Option.map_eq_some_iff.1 h'
      cases heq
      obtain ⟨hc, hplace⟩ := renumber_eq_some.1 hn
      obtain ⟨hd, hplace'⟩ := renumber_eq_some.1 hn'
      rw [place_inj hc hd (hplace.trans hplace'.symm)]

end Place

namespace Scheduler

/-- The second scheduler is the first one without the calls that are gone. -/
structure Without (gone : Nat → Bool) (s t : Scheduler) : Prop where
  settings : t.settings = s.settings
  sink : t.sink = s.sink
  journal : t.journal = s.journal
  active : t.active = s.active
  jobs : t.jobs = s.jobs.map (Job.renumber (renumber gone))
  queue : t.queue = s.queue.filterMap (Handle.renumber (renumber gone))
  sleepers : (t.timers.map Timer.sleeper).Perm
    ((s.timers.map Timer.sleeper).filterMap (Sleeper.renumber (renumber gone)))
  length : t.calls.length = place gone s.calls.length
  calls : ∀ c, gone c = false → t.calls[place gone c]? = s.calls[c]?

namespace Without

variable {gone : Nat → Bool} {s t : Scheduler} {c i : Nat}

theorem initial (gone : Nat → Bool) (settings : Settings) (sink : Sink) :
    Without gone (initial settings sink) (initial settings sink) :=
  ⟨rfl, rfl, rfl, rfl, rfl, rfl, .refl _, rfl, fun _ _ => rfl⟩

theorem getElem?_jobs (h : Without gone s t) (i : Nat) :
    t.jobs[i]? = (s.jobs[i]?).map (Job.renumber (renumber gone)) := by
  rw [h.jobs, List.getElem?_map]

theorem outcome (h : Without gone s t) (i : Nat) : t.outcome i = s.outcome i := by
  rw [Scheduler.outcome, Scheduler.outcome, h.getElem?_jobs]
  cases s.jobs[i]? <;> rfl

theorem record (h : Without gone s t) (e : Entry) : Without gone (s.record e) (t.record e) :=
  { h with journal := congrArg (· ++ [e]) h.journal }

theorem post (h : Without gone s t) {e e' : Handle} (he : e.renumber (renumber gone) = some e') :
    Without gone (s.post e) (t.post e') := by
  refine { h with queue := ?_ }
  show t.queue ++ [e'] = (s.queue ++ [e]).filterMap _
  rw [List.filterMap_append, h.queue]
  simp [he]

theorem post_gone (h : Without gone s t) {e : Handle} (he : e.renumber (renumber gone) = none) :
    Without gone (s.post e) t := by
  refine { h with queue := ?_ }
  show t.queue = (s.queue ++ [e]).filterMap _
  rw [List.filterMap_append, h.queue]
  simp [he]

theorem setJob (h : Without gone s t) (i : Nat) (j : Job) :
    Without gone (s.setJob i j) (t.setJob i (j.renumber (renumber gone))) := by
  refine { h with jobs := ?_ }
  show t.jobs.set i _ = (s.jobs.set i j).map _
  rw [List.map_set, h.jobs]

theorem addCallback (h : Without gone s t) (i : Nat) {b b' : Callback}
    (hb : b.renumber (renumber gone) = some b') :
    Without gone (s.addCallback i b) (t.addCallback i b') := by
  refine { h with jobs := ?_ }
  apply List.ext_getElem?
  intro k
  show (t.jobs.modify i _)[k]? = ((s.jobs.modify i _).map _)[k]?
  rw [List.getElem?_map, List.getElem?_modify, List.getElem?_modify, h.getElem?_jobs]
  cases s.jobs[k]? with
  | none => rfl
  | some j => by_cases hk : i = k <;> simp [hk, Job.renumber, hb]

theorem addCallback_gone (h : Without gone s t) (i : Nat) {b : Callback}
    (hb : b.renumber (renumber gone) = none) : Without gone (s.addCallback i b) t := by
  refine { h with jobs := ?_ }
  apply List.ext_getElem?
  intro k
  show t.jobs[k]? = ((s.jobs.modify i _).map _)[k]?
  rw [List.getElem?_map, List.getElem?_modify, h.getElem?_jobs]
  cases s.jobs[k]? with
  | none => rfl
  | some j => by_cases hk : i = k <;> simp [hk, Job.renumber, hb]

theorem addCall (h : Without gone s t) (call : Call) (hc : gone s.calls.length = false) :
    Without gone (s.addCall call).1 (t.addCall call).1 := by
  refine { h with length := ?_, calls := fun c hgone => ?_ }
  · simp [Scheduler.addCall, place_succ, hc, h.length]
  · show (t.calls ++ [call])[place gone c]? = (s.calls ++ [call])[c]?
    rcases Nat.lt_trichotomy c s.calls.length with hlt | rfl | hgt
    · rw [List.getElem?_append_left hlt,
        List.getElem?_append_left (h.length ▸ place_lt hgone hlt), h.calls c hgone]
    · rw [List.getElem?_concat_length, ← h.length, List.getElem?_concat_length]
    · have hlt := place_lt hc hgt
      rw [← h.length] at hlt
      rw [List.getElem?_eq_none (by simp; omega), List.getElem?_eq_none (by simp; omega)]

theorem addCall_gone (h : Without gone s t) (call : Call) (hc : gone s.calls.length = true) :
    Without gone (s.addCall call).1 t := by
  refine { h with length := ?_, calls := fun c hgone => ?_ }
  · simp [Scheduler.addCall, place_succ, hc, h.length]
  · show t.calls[place gone c]? = (s.calls ++ [call])[c]?
    rcases Nat.lt_trichotomy c s.calls.length with hlt | rfl | hgt
    · rw [List.getElem?_append_left hlt, h.calls c hgone]
    · rw [hgone] at hc
      cases hc
    · rw [h.calls c hgone, List.getElem?_eq_none (by omega), List.getElem?_eq_none (by simp; omega)]

theorem setCall (h : Without gone s t) {call : Call} (call' : Call) (hc : gone c = false)
    (hcall : s.calls[c]? = some call) :
    Without gone (s.setCall c call') (t.setCall (place gone c) call') := by
  refine { h with length := ?_, calls := fun d hd => ?_ }
  · simp [Scheduler.setCall, h.length]
  · show (t.calls.set _ call')[_]? = (s.calls.set c call')[d]?
    rcases eq_or_ne d c with rfl | hne
    · have ht := (h.calls d hd).trans hcall
      rw [List.getElem?_set_self (List.getElem?_eq_some_iff.1 ht).1,
        List.getElem?_set_self (List.getElem?_eq_some_iff.1 hcall).1]
    · rw [List.getElem?_set_ne hne.symm,
        List.getElem?_set_ne fun heq => hne (place_inj hc hd heq).symm, h.calls d hd]

theorem setCall_gone (h : Without gone s t) (call : Call) (hc : gone c = true) :
    Without gone (s.setCall c call) t := by
  refine { h with length := ?_, calls := fun d hd => ?_ }
  · simp [Scheduler.setCall, h.length]
  · have hne : c ≠ d := by
      rintro rfl
      rw [hc] at hd
      cases hd
    exact (h.calls d hd).trans (List.getElem?_set_ne hne).symm

theorem setTimer (h : Without gone s t) (length : Option Rat) {w w' : Sleeper}
    (hw : w.renumber (renumber gone) = some w') :
    Without gone (s.setTimer length w) (t.setTimer length w') := by
  cases length with
  | none => exact h
  | some d =>
    refine { h with sleepers := ?_ }
    show (List.map _ (t.timers ++ [_])).Perm (List.filterMap _ (List.map _ (s.timers ++ [_])))
    rw [List.map_append, List.map_append, List.filterMap_append]
    refine h.sleepers.append ?_
    simp [hw]

theorem setTimer_gone (h : Without gone s t) (length : Option Rat) {w : Sleeper}
    (hw : w.renumber (renumber gone) = none) : Without gone (s.setTimer length w) t := by
  cases length with
  | none => exact h
  | some d =>
    refine { h with sleepers := ?_ }
    show (List.map _ t.timers).Perm (List.filterMap _ (List.map _ (s.timers ++ [_])))
    rw [List.map_append, List.filterMap_append]
    simpa [hw] using h.sleepers

theorem filterMap_stop {f : Sleeper → Option Sleeper} {w v : Sleeper} (hw : f w = some v)
    (hf : ∀ w', f w' = some v → w' = w) (ws : List Sleeper) :
    (ws.filter (· ≠ w)).filterMap f = (ws.filterMap f).filter (· ≠ v) := by
  induction ws with
  | nil => rfl
  | cons x ws ih =>
    rcases eq_or_ne x w with rfl | hx
    · simpa [hw] using ih
    · cases hfx : f x with
      | none => simpa [hx, hfx] using ih
      | some y =>
        have hy : y ≠ v := by
          rintro rfl
          exact hx (hf x hfx)
        simpa [hx, hfx, hy] using ih

theorem map_sleeper_stopTimer (s : Scheduler) (w : Sleeper) :
    (s.stopTimer w).timers.map Timer.sleeper = (s.timers.map Timer.sleeper).filter (· ≠ w) := by
  rw [Scheduler.stopTimer, List.filter_map]
  rfl

theorem stopTimer (h : Without gone s t) {w w' : Sleeper}
    (hw : w.renumber (renumber gone) = some w') :
    Without gone (s.stopTimer w) (t.stopTimer w') := by
  refine { h with sleepers := ?_ }
  rw [map_sleeper_stopTimer, map_sleeper_stopTimer,
    filterMap_stop hw fun v hv => Sleeper.renumber_inj hv hw]
  exact h.sleepers.filter _

theorem stopTimer_gone (h : Without gone s t) {w : Sleeper}
    (hw : w.renumber (renumber gone) = none) : Without gone (s.stopTimer w) t := by
  refine { h with sleepers := ?_ }
  rw [map_sleeper_stopTimer, List.filterMap_filter]
  have hsame : ((s.timers.map Timer.sleeper).filterMap fun v =>
      if (decide (v ≠ w)) = true then v.renumber (renumber gone) else none) =
        (s.timers.map Timer.sleeper).filterMap (Sleeper.renumber (renumber gone)) := by
    apply List.filterMap_congr
    intro v _
    rcases eq_or_ne v w with rfl | hv
    · simp [hw]
    · simp [hv]
  rw [hsame]
  exact h.sleepers

/-- The same timer is off in both. -/
theorem rung (h : Without gone s t) {u v : Timer} (hu : u ∈ s.timers) (hv : v ∈ t.timers)
    (hw : u.sleeper.renumber (renumber gone) = some v.sleeper) :
    Without gone (s.rung u) (t.rung v) := by
  refine { h with sleepers := ?_ }
  have hs := ((List.perm_cons_erase hu).map Timer.sleeper).filterMap
    (Sleeper.renumber (renumber gone))
  have ht := (List.perm_cons_erase hv).map Timer.sleeper
  have hall := (ht.symm.trans h.sleepers).trans hs
  rw [List.map_cons, List.map_cons, List.filterMap_cons_some hw] at hall
  exact hall.cons_inv

theorem rung_gone (h : Without gone s t) {u : Timer} (hu : u ∈ s.timers)
    (hw : u.sleeper.renumber (renumber gone) = none) : Without gone (s.rung u) t := by
  refine { h with sleepers := ?_ }
  have hs := ((List.perm_cons_erase hu).map Timer.sleeper).filterMap
    (Sleeper.renumber (renumber gone))
  rw [List.map_cons, List.filterMap_cons_none hw] at hs
  exact h.sleepers.trans hs

end Without

end Scheduler

end PartScan
