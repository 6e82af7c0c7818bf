import PartScan.Proofs.Scheduler.Renumber

/-! # Operations without some calls

Every operation of a scheduler keeps it the same as another one but for the calls that are gone. An
operation for one of these does nothing else.
-/

namespace PartScan

namespace Scheduler

variable {gone : Nat → Bool} {s t : Scheduler} {c i : Nat}

/-- What a timer does that has elapsed. -/
def alarm (s : Scheduler) : Sleeper → Scheduler
  | .job i => { s with jobs := s.jobs.modify i fun j => { j with asleep := false } }.post (.step i)
  | .call c =>
    match s.calls[c]? with
    | some call =>
      if call.state = .waiting then
        if (s.awaited? call).isSome then
          (s.setCall c { call with state := .woken }).post (.caller c)
        else (s.setCall c { call with state := .expired }).post (.hop c 1)
      else s
    | none => s

theorem elapse_eq (s : Scheduler) (u : Timer) : s.elapse u = (s.rung u).alarm u.sleeper := by
  unfold elapse
  cases u.sleeper <;> rfl

namespace Without

section Step

theorem refuses (h : Without gone s t) (ev : Event) :
    t.sink.refuses t.events ev = s.sink.refuses s.events ev := by
  rw [h.sink, events, events, h.journal]

theorem report (h : Without gone s t) (i : Nat) (e : List Char) (ns : List Notice) :
    Without gone (s.report i e ns).1 (t.report i e ns).1 ∧
      (t.report i e ns).2 = (s.report i e ns).2 := by
  induction ns generalizing s t with
  | nil => exact ⟨h, rfl⟩
  | cons n ns ih =>
    cases n with
    | started => exact ih (h.record _)
    | ended k => exact ih (h.record _)
    | progress p =>
      simp only [Scheduler.report, emit, h.refuses]
      cases s.sink.refuses s.events (.progress e p) with
      | none => exact ih (h.record _)
      | some w => exact ⟨h.record _, rfl⟩

theorem finish (h : Without gone s t) (i : Nat) (j : Job) (r : JobResult) :
    Without gone (s.finish i j r) (t.finish i (j.renumber (renumber gone)) r) := by
  refine { h with jobs := ?_, queue := ?_ }
  · show t.jobs.set i _ = (s.jobs.set i _).map _
    rw [List.map_set, h.jobs]
    rfl
  · show t.queue ++ _ = (s.queue ++ _).filterMap _
    rw [List.filterMap_append, h.queue, filterMap_renumber_handle]
    rfl

theorem defer (h : Without gone s t) (i : Nat) (j : Job) (stage : Stage) (d : Delay) :
    Without gone (s.defer i j stage d) (t.defer i (j.renumber (renumber gone)) stage d) := by
  unfold Scheduler.defer
  split
  · exact (h.setJob i { j with stage, asleep := true }).setTimer _ rfl
  · exact (h.setJob i { j with stage }).post rfl

theorem complete (h : Without gone s t) (i : Nat) (j : Job) (vs : List Part) :
    Without gone (s.complete i j vs) (t.complete i (j.renumber (renumber gone)) vs) := by
  have hexpression : (j.renumber (PartScan.renumber gone)).expression = j.expression := rfl
  simp only [Scheduler.complete, emit, hexpression, h.refuses]
  cases s.sink.refuses s.events (.completed j.expression vs) with
  | none => exact ((h.record _).record _).finish i j _
  | some w => exact (h.record _).finish i j _

theorem follow (h : Without gone s t) (i : Nat) (j : Job) (next : Next)
    (reason? : Option (List Char)) :
    Without gone (s.follow i j next reason?)
      (t.follow i (j.renumber (renumber gone)) next reason?) := by
  cases reason? with
  | some reason =>
    simp only [Scheduler.follow, h.sink]
    exact (h.record _).finish i j _
  | none =>
    cases next with
    | suspended scan =>
      simp only [Scheduler.follow, h.settings]
      exact h.defer i j _ _
    | finished o =>
      cases o with
      | error f => exact (h.record _).finish i j _
      | ok parts => exact h.complete i j _

theorem resume (h : Without gone s t) (i : Nat) (j : Job) (scan : Scan) :
    Without gone (s.resume i j scan) (t.resume i (j.renumber (renumber gone)) scan) := by
  obtain ⟨hreport, hreason⟩ := h.report i j.expression scan.resume.1
  have hexpression : (j.renumber (PartScan.renumber gone)).expression = j.expression := rfl
  rw [Scheduler.resume, Scheduler.resume]
  simp only [hexpression, hreason]
  exact hreport.follow i j _ _

theorem step (h : Without gone s t) (i : Nat) (j : Job) :
    Without gone (s.step i j) (t.step i (j.renumber (renumber gone))) := by
  have hstage : (j.renumber (PartScan.renumber gone)).stage = j.stage := rfl
  have hreq : (j.renumber (PartScan.renumber gone)).cancelRequested = j.cancelRequested := rfl
  have hexpression : (j.renumber (PartScan.renumber gone)).expression = j.expression := rfl
  simp only [Scheduler.step, hstage, hreq, hexpression, h.settings]
  cases j.stage with
  | created =>
    dsimp only
    split
    · exact h.finish i j _
    · exact h.defer i j _ _
  | deferred =>
    dsimp only
    split
    · exact (h.record _).finish i j _
    · exact h.resume i j _
  | scanning scan =>
    dsimp only
    split
    · exact (h.record _).finish i j _
    · exact h.resume i j _
  | finished r => exact h

end Step

section Handle

theorem reply (h : Without gone s t) (call : Call) : t.reply call = s.reply call := by
  unfold Scheduler.reply
  have houtcome (i : Nat) : (t.jobs[i]?).bind Job.result? = (s.jobs[i]?).bind Job.result? :=
    h.outcome i
  simp only [houtcome]

theorem awaited? (h : Without gone s t) (call : Call) : t.awaited? call = s.awaited? call := by
  unfold Scheduler.awaited?
  split
  · exact h.outcome _
  · rfl

theorem hop (h : Without gone s t) (hc : gone c = false) (hops : Nat) :
    Without gone (s.hop c hops) (t.hop (place gone c) hops) := by
  have hplace : renumber gone c = some (place gone c) := renumber_eq_some.2 ⟨hc, rfl⟩
  cases hops with
  | zero => exact h.post (by simp [Handle.renumber, hplace])
  | succ n => exact h.post (by simp [Handle.renumber, hplace])

theorem hop_gone (h : Without gone s t) (hc : gone c = true) (hops : Nat) :
    Without gone (s.hop c hops) t := by
  have hnone : renumber gone c = none := renumber_eq_none.2 hc
  cases hops with
  | zero => exact h.post_gone (by simp [Handle.renumber, hnone])
  | succ n => exact h.post_gone (by simp [Handle.renumber, hnone])

theorem handle (h : Without gone s t) {e e' : Handle}
    (he : e.renumber (renumber gone) = some e') : Without gone (s.handle e) (t.handle e') := by
  cases e with
  | step i =>
    cases he
    simp only [Scheduler.handle, h.getElem?_jobs]
    cases s.jobs[i]? with
    | none => exact h
    | some j => exact h.step i j
  | discard i =>
    cases he
    exact { h with active := congrArg (List.filter _) h.active }
  | wake c hops =>
    obtain ⟨d, hd, rfl⟩ := Option.map_eq_some_iff.1 he
    obtain ⟨hc, rfl⟩ := renumber_eq_some.1 hd
    simp only [Scheduler.handle, h.calls c hc]
    cases hcall : s.calls[c]? with
    | none => exact h
    | some call =>
      dsimp only
      split
      · exact (h.setCall _ hc hcall).hop hc hops
      · exact h
  | hop c hops =>
    obtain ⟨d, hd, rfl⟩ := Option.map_eq_some_iff.1 he
    obtain ⟨hc, rfl⟩ := renumber_eq_some.1 hd
    exact h.hop hc hops
  | gather c =>
    obtain ⟨d, hd, rfl⟩ := Option.map_eq_some_iff.1 he
    obtain ⟨hc, rfl⟩ := renumber_eq_some.1 hd
    simp only [Scheduler.handle, h.calls c hc]
    cases hcall : s.calls[c]? with
    | none => exact h
    | some call =>
      obtain ⟨want, state⟩ := call
      cases want with
      | turn => exact h
      | job i => exact h
      | jobs left =>
        have hset := h.setCall ⟨.jobs (left - 1), state⟩ hc hcall
        dsimp only
        split
        · exact hset.post (by simp [Handle.renumber, hd])
        · exact hset
  | caller c =>
    obtain ⟨d, hd, rfl⟩ := Option.map_eq_some_iff.1 he
    obtain ⟨hc, rfl⟩ := renumber_eq_some.1 hd
    simp only [Scheduler.handle, h.calls c hc, h.reply]
    cases hcall : s.calls[c]? with
    | none => exact h
    | some call => exact (h.setCall _ hc hcall).stopTimer (by simp [Sleeper.renumber, hd])

/-- An entry that concerns a call that is gone does nothing else. -/
theorem handle_gone (h : Without gone s t) {e : Handle}
    (he : e.renumber (renumber gone) = none) : Without gone (s.handle e) t := by
  cases e with
  | step i => cases he
  | discard i => cases he
  | wake c hops =>
    have hc := renumber_eq_none.1 (Option.map_eq_none_iff.1 he)
    simp only [Scheduler.handle]
    split
    · split
      · exact (h.setCall_gone _ hc).hop_gone hc hops
      · exact h
    · exact h
  | hop c hops => exact h.hop_gone (renumber_eq_none.1 (Option.map_eq_none_iff.1 he)) hops
  | gather c =>
    have hd := Option.map_eq_none_iff.1 he
    have hc := renumber_eq_none.1 hd
    simp only [Scheduler.handle]
    split
    · split
      · exact (h.setCall_gone _ hc).post_gone (by simp [Handle.renumber, hd])
      · exact h.setCall_gone _ hc
    · exact h
  | caller c =>
    have hd := Option.map_eq_none_iff.1 he
    have hc := renumber_eq_none.1 hd
    simp only [Scheduler.handle]
    split
    · exact (h.setCall_gone _ hc).stopTimer_gone (by simp [Sleeper.renumber, hd])
    · exact h

theorem alarm (h : Without gone s t) {w w' : Sleeper} (hw : w.renumber (renumber gone) = some w') :
    Without gone (s.alarm w) (t.alarm w') := by
  cases w with
  | job i =>
    cases hw
    have hjobs : Without gone
        { s with jobs := s.jobs.modify i fun j => { j with asleep := false } }
        { t with jobs := t.jobs.modify i fun j => { j with asleep := false } } := by
      refine { h with jobs := ?_ }
      apply List.ext_getElem?
      intro k
      rw [List.getElem?_map, List.getElem?_modify, List.getElem?_modify, h.getElem?_jobs]
      cases s.jobs[k]? with
      | none => rfl
      | some j => by_cases hk : i = k <;> simp [hk, Job.renumber]
    exact hjobs.post rfl
  | call c =>
    obtain ⟨d, hd, rfl⟩ := Option.map_eq_some_iff.1 hw
    obtain ⟨hc, rfl⟩ := renumber_eq_some.1 hd
    simp only [Scheduler.alarm, h.calls c hc, h.awaited?]
    cases hcall : s.calls[c]? with
    | none => exact h
    | some call =>
      dsimp only
      split
      · split
        · exact (h.setCall _ hc hcall).post (by simp [Handle.renumber, hd])
        · exact (h.setCall _ hc hcall).post (by simp [Handle.renumber, hd])
      · exact h

theorem alarm_gone (h : Without gone s t) {w : Sleeper} (hw : w.renumber (renumber gone) = none) :
    Without gone (s.alarm w) t := by
  cases w with
  | job i => cases hw
  | call c =>
    have hd := Option.map_eq_none_iff.1 hw
    have hc := renumber_eq_none.1 hd
    simp only [Scheduler.alarm]
    split
    · split
      · split
        · exact (h.setCall_gone _ hc).post_gone (by simp [Handle.renumber, hd])
        · exact (h.setCall_gone _ hc).post_gone (by simp [Handle.renumber, hd])
      · exact h
    · exact h

end Handle

section Calls

theorem cancelJob (h : Without gone s t) (i : Nat) (j : Job) :
    Without gone (s.cancelJob i j).1 (t.cancelJob i (j.renumber (renumber gone))).1 := by
  have hasleep : (j.renumber (PartScan.renumber gone)).asleep = j.asleep := rfl
  simp only [Scheduler.cancelJob, Job.isFinished_renumber, hasleep]
  split
  · exact h
  · split
    · exact ((h.setJob i { j with cancelRequested := true, asleep := false }).stopTimer rfl).post rfl
    · exact h.setJob i { j with cancelRequested := true }

theorem cancel (h : Without gone s t) (i : Nat) :
    Without gone (s.cancel i).1 (t.cancel i).1 := by
  simp only [Scheduler.cancel, h.getElem?_jobs]
  cases s.jobs[i]? with
  | none => exact h
  | some j => exact h.cancelJob i j

theorem foldl_cancel (h : Without gone s t) (l : List Nat) :
    Without gone (l.foldl (fun s i => (s.cancel i).1) s)
      (l.foldl (fun s i => (s.cancel i).1) t) := by
  induction l generalizing s t with
  | nil => exact h
  | cons i l ih => exact ih (h.cancel i)

theorem gatherJob (h : Without gone s t) (hc : gone c = false) (i : Nat) :
    Without gone (s.gatherJob c i) (t.gatherJob (place gone c) i) := by
  have hd : renumber gone c = some (place gone c) := renumber_eq_some.2 ⟨hc, rfl⟩
  have hhandle : (Handle.gather c).renumber (renumber gone) = some (.gather (place gone c)) := by
    simp [Handle.renumber, hd]
  have hback : (Callback.gather c).renumber (renumber gone) = some (.gather (place gone c)) := by
    simp [Callback.renumber, hd]
  have ht := h.getElem?_jobs i
  cases hj : s.jobs[i]? with
  | none =>
    rw [hj] at ht
    simp only [Scheduler.gatherJob, hj, ht]
    exact h
  | some j =>
    rw [hj] at ht
    cases hf : j.isFinished with
    | true =>
      rw [gatherJob_finished hj hf, gatherJob_finished ht hf]
      exact h.post hhandle
    | false =>
      rw [gatherJob_unfinished hj hf, gatherJob_unfinished ht hf]
      exact h.addCallback i hback

theorem foldl_gatherJob (h : Without gone s t) (hc : gone c = false) (l : List Nat) :
    Without gone (l.foldl (fun s i => s.gatherJob c i) s)
      (l.foldl (fun s i => s.gatherJob (place gone c) i) t) := by
  induction l generalizing s t with
  | nil => exact h
  | cons i l ih => exact ih (h.gatherJob hc i)

theorem cancelAll (h : Without gone s t) (hc : gone s.calls.length = false) :
    Without gone s.cancelAll.1 t.cancelAll.1 := by
  have hcancels := h.foldl_cancel s.active
  have hlength := Serves.length_cancels s s.active
  rw [← hlength] at hc
  simp only [Scheduler.cancelAll, h.active]
  split
  · exact hcancels.addCall _ hc
  · have hcall := hcancels.addCall { want := .jobs s.active.length } hc
    have hgather := hcall.foldl_gatherJob hc s.active
    simp only [Scheduler.addCall, hcancels.length] at hgather ⊢
    exact hgather

theorem pause (h : Without gone s t) (hc : gone s.calls.length = false) :
    Without gone s.pause.1 t.pause.1 := by
  have hd : renumber gone s.calls.length = some t.calls.length :=
    renumber_eq_some.2 ⟨hc, h.length.symm⟩
  exact (h.addCall _ hc).post (by simp [Handle.renumber, hd])

theorem wait (h : Without gone s t) (i : Nat) (limit : Option Rat)
    (hc : gone s.calls.length = false) :
    Without gone (s.wait i limit).1 (t.wait i limit).1 := by
  have hd : renumber gone s.calls.length = some t.calls.length :=
    renumber_eq_some.2 ⟨hc, h.length.symm⟩
  have hhop : (Handle.hop s.calls.length 0).renumber (renumber gone) =
      some (.hop t.calls.length 0) := by
    simp [Handle.renumber, hd]
  have hwake (hops : Nat) : (Callback.wake s.calls.length hops).renumber (renumber gone) =
      some (.wake t.calls.length hops) := by
    simp [Callback.renumber, hd]
  have hcall : (Sleeper.call s.calls.length).renumber (renumber gone) =
      some (.call t.calls.length) := by
    simp [Sleeper.renumber, hd]
  simp only [Scheduler.wait, h.getElem?_jobs]
  cases s.jobs[i]? with
  | none => exact h
  | some j =>
    simp only [Option.map_some, Job.result?_renumber]
    cases j.result? with
    | some r =>
      cases limit with
      | none => exact h.addCall _ hc
      | some d =>
        dsimp only
        split
        · exact h.addCall _ hc
        · exact (h.addCall _ hc).post hhop
    | none =>
      cases limit with
      | none => exact (h.addCall _ hc).addCallback i (hwake 0)
      | some d =>
        dsimp only
        split
        · exact (h.addCall _ hc).post hhop
        · exact ((h.addCall _ hc).addCallback i (hwake 1)).setTimer (some d) hcall

theorem wait_gone (h : Without gone s t) (i : Nat) (limit : Option Rat)
    (hc : gone s.calls.length = true) : Without gone (s.wait i limit).1 t := by
  have hd : renumber gone s.calls.length = none := renumber_eq_none.2 hc
  have hhop : (Handle.hop s.calls.length 0).renumber (renumber gone) = none := by
    simp [Handle.renumber, hd]
  have hwake (hops : Nat) : (Callback.wake s.calls.length hops).renumber (renumber gone) =
      none := by
    simp [Callback.renumber, hd]
  have hcall : (Sleeper.call s.calls.length).renumber (renumber gone) = none := by
    simp [Sleeper.renumber, hd]
  unfold Scheduler.wait
  split
  · exact h
  · split
    · exact h.addCall_gone _ hc
    · split
      · exact h.addCall_gone _ hc
      · exact (h.addCall_gone _ hc).post_gone hhop
    · exact (h.addCall_gone _ hc).addCallback_gone i (hwake 0)
    · split
      · exact (h.addCall_gone _ hc).post_gone hhop
      · exact ((h.addCall_gone _ hc).addCallback_gone i (hwake 1)).setTimer_gone (some _) hcall

theorem abandon (h : Without gone s t) (hc : gone c = false) :
    Without gone (s.abandon c) (t.abandon (place gone c)) := by
  have hd : renumber gone c = some (place gone c) := renumber_eq_some.2 ⟨hc, rfl⟩
  simp only [Scheduler.abandon, h.calls c hc]
  cases hcall : s.calls[c]? with
  | none => exact h
  | some call =>
    dsimp only
    split
    · exact ((h.setCall _ hc hcall).stopTimer (by simp [Sleeper.renumber, hd])).post
        (by simp [Handle.renumber, hd])
    · exact h.setCall _ hc hcall
    · exact h.setCall _ hc hcall
    · exact h

theorem abandon_gone (h : Without gone s t) (hc : gone c = true) :
    Without gone (s.abandon c) t := by
  have hd : renumber gone c = none := renumber_eq_none.2 hc
  unfold Scheduler.abandon
  split
  · exact h
  · split
    · exact ((h.setCall_gone _ hc).stopTimer_gone (by simp [Sleeper.renumber, hd])).post_gone
        (by simp [Handle.renumber, hd])
    · exact h.setCall_gone _ hc
    · exact h.setCall_gone _ hc
    · exact h

theorem start (h : Without gone s t) (e : List Char) :
    Without gone (s.start e).1 (t.start e).1 := by
  have hlength : t.jobs.length = s.jobs.length := by rw [h.jobs, List.length_map]
  have hjob : Without gone
      { s with jobs := s.jobs ++ [{ expression := e }], active := s.active ++ [s.jobs.length] }
      { t with jobs := t.jobs ++ [{ expression := e }], active := t.active ++ [t.jobs.length] } := by
    refine { h with active := ?_, jobs := ?_ }
    · show t.active ++ [_] = s.active ++ [_]
      rw [h.active, hlength]
    · show t.jobs ++ [_] = (s.jobs ++ [_]).map _
      rw [List.map_append, h.jobs]
      rfl
  simp only [Scheduler.start, hlength] at hjob ⊢
  exact (hjob.post rfl).record _

end Calls

end Without

end Scheduler

end PartScan
