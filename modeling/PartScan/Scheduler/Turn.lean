import PartScan.Scheduler.Basic

/-! # Turns

A turn runs the first entry of the queue. The turn of a job lets it pass its deferral or resumes its
scan up to the next suspension point; the queue entries that follow the end of a job run in the
order in which they were asked for.
-/

namespace PartScan

open Number

namespace Scheduler

/-- Give an event to the sink, which may refuse it. -/
def emit (s : Scheduler) (i : Nat) (e : Event) : Scheduler × Option (List Char) :=
  (s.record (.event i e), s.sink.refuses s.events e)

/-- Pass on the reports of a scan, up to the first refusal. -/
def report (s : Scheduler) (i : Nat) (expression : List Char) :
    List Notice → Scheduler × Option (List Char)
  | [] => (s, none)
  | .started :: rest => (s.record (.started i expression)).report i expression rest
  | .ended n :: rest => (s.record (.ended i expression n)).report i expression rest
  | .progress p :: rest =>
    match s.emit i (.progress expression p) with
    | (s, some reason) => (s, some reason)
    | (s, none) => s.report i expression rest

/-- End a job; what waits for its end comes into the queue. -/
def finish (s : Scheduler) (i : Nat) (j : Job) (r : JobResult) : Scheduler :=
  { s with
    jobs := s.jobs.set i { j with stage := .finished r, callbacks := [] }
    queue := s.queue ++ j.callbacks.map (Callback.handle i) }

/-- Let a job go on after a delay, at its next turn if the delay lets no time pass. -/
def defer (s : Scheduler) (i : Nat) (j : Job) (stage : Stage) (d : Delay) : Scheduler :=
  if d.isPositive then
    (s.setJob i { j with stage, asleep := true }).setTimer d.length? (.job i)
  else (s.setJob i { j with stage }).post (.step i)

/-- End a job that has found its variables; it reports them first. -/
def complete (s : Scheduler) (i : Nat) (j : Job) (found : List Part) : Scheduler :=
  match s.emit i (.completed j.expression found) with
  | (s, some reason) => s.finish i j (.refused reason)
  | (s, none) =>
    (s.record (.completed i j.expression found.length)).finish i j (.found found)

/-- Carry the outcome of a resumption over to its job, unless an event on the way was refused. -/
def follow (s : Scheduler) (i : Nat) (j : Job) (next : Next) : Option (List Char) → Scheduler
  | some reason =>
    (s.record (.failed i j.expression (s.sink.fault? reason))).finish i j (.refused reason)
  | none =>
    match next with
    | .suspended scan => s.defer i j (.scanning scan) s.settings.stepDelay
    | .finished (.error f) => (s.record (.failed i j.expression (some f))).finish i j (.fault f)
    | .finished (.ok parts) => s.complete i j (parts.filter Part.isVariable)

def resume (s : Scheduler) (i : Nat) (j : Job) (scan : Scan) : Scheduler :=
  let resumed := scan.resume
  let reported := s.report i j.expression resumed.1
  reported.1.follow i j resumed.2 reported.2

/-- The next step of a job. A cancellation that reaches a job before its first step leaves no entry
in the journal. -/
def step (s : Scheduler) (i : Nat) (j : Job) : Scheduler :=
  match j.stage with
  | .created =>
    if j.cancelRequested then s.finish i j .cancelled
    else s.defer i j .deferred s.settings.dueTime
  | .deferred =>
    if j.cancelRequested then (s.record (.cancelled i j.expression)).finish i j .cancelled
    else s.resume i j (.ready s.settings.rules j.expression)
  | .scanning scan =>
    if j.cancelRequested then (s.record (.cancelled i j.expression)).finish i j .cancelled
    else s.resume i j scan
  | .finished _ => s

/-- What a call is answered at its turn. -/
def reply (s : Scheduler) (c : Call) : Reply :=
  match c.state, c.want with
  | .expired, _ => .timeout
  | .abandoned, _ => .abandoned
  | _, .job i =>
    match (s.jobs[i]?).bind Job.result? with
    | some r => .result r
    | none => .nothing
  | _, _ => .nothing

/-- The next hop of a woken call: its turn comes after `hops` more entries of its own. -/
def hop (s : Scheduler) (c : Nat) : Nat → Scheduler
  | 0 => s.post (.caller c)
  | n + 1 => s.post (.hop c n)

/-- Run one entry of the queue. -/
def handle (s : Scheduler) : Handle → Scheduler
  | .step i =>
    match s.jobs[i]? with
    | some j => s.step i j
    | none => s
  | .discard i => { s with active := s.active.filter (· ≠ i) }
  | .wake c hops =>
    match s.calls[c]? with
    | some call =>
      if call.state = .waiting then (s.setCall c { call with state := .woken }).hop c hops else s
    | none => s
  | .hop c hops => s.hop c hops
  | .gather c =>
    match s.calls[c]? with
    | some { want := .jobs left, state } =>
      let s := s.setCall c { want := .jobs (left - 1), state }
      if left = 1 then s.post (.caller c) else s
    | _ => s
  | .caller c =>
    match s.calls[c]? with
    | some call => (s.setCall c { call with state := .answered (s.reply call) }).stopTimer (.call c)
    | none => s

def later (a b : Rat) : Rat := if a < b then b else a

/-- The result that a call waits for, once its job has ended. -/
def awaited? (s : Scheduler) (c : Call) : Option JobResult :=
  match c.want with
  | .job i => (s.jobs[i]?).bind Job.result?
  | _ => none

/-- Let a timer elapse: a job comes into the queue, a call is past its limit. A call whose job has
ended by then is not, even if it was not woken yet. -/
def elapse (s : Scheduler) (t : Timer) : Scheduler :=
  let s := { s with timers := s.timers.erase t, now := later s.now t.deadline }
  match t.sleeper with
  | .job i => { s with jobs := s.jobs.modify i fun j => { j with asleep := false } }.post (.step i)
  | .call c =>
    match s.calls[c]? with
    | some call =>
      if call.state = .waiting then
        if (s.awaited? call).isSome then
          (s.setCall c { call with state := .woken }).post (.caller c)
        else (s.setCall c { call with state := .expired }).post (.hop c 1)
      else s
    | none => s

/-- The timer that elapses first; of several at the same time, the one that was set first. -/
def earliest : List Timer → Option Timer
  | [] => none
  | t :: rest =>
    match earliest rest with
    | some u => if u.deadline < t.deadline then some u else some t
    | none => some t

/-- One turn: the first entry of the queue, or the first timer where the queue is empty. -/
def turn? (s : Scheduler) : Option Scheduler :=
  match s.queue with
  | h :: rest => some ({ s with queue := rest }.handle h)
  | [] => (earliest s.timers).map s.elapse

end Scheduler

end PartScan
