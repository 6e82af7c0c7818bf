import PartScan.Scheduler.Job
import PartScan.Settings.Basic

/-! # Scheduler

Jobs run in turns. Everything that is to be done stands in one queue, first in, first out: the next
step of a job, what follows the end of a job, and the return of a waiting call. A delay takes a job
or a call out of the queue until its timer elapses.
-/

namespace PartScan

open Number

/-- The length of a delay in seconds; an infinite one has none. -/
def Delay.length? (d : Delay) : Option Rat :=
  match d.seconds with
  | .finite _ m e =>
    let (n, k) := Binary64.ratio m e
    some (mkRat n k)
  | _ => none

inductive Handle where
  | step (job : Nat)
  | discard (job : Nat)
  | wake (call hops : Nat)
  | hop (call hops : Nat)
  | gather (call : Nat)
  | caller (call : Nat)
  deriving DecidableEq, Repr

def Callback.handle (job : Nat) : Callback → Handle
  | .discard => .discard job
  | .wake c h => .wake c h
  | .gather c => .gather c

/-- What a call waits for: its own turn, the end of a job, or the ends of several. -/
inductive Want where
  | turn
  | job (job : Nat)
  | jobs (left : Nat)
  deriving DecidableEq, Repr

/-- What a call is answered. -/
inductive Reply where
  | nothing
  | result (r : JobResult)
  | timeout
  | abandoned
  deriving DecidableEq, Repr

/-- Where a call stands: not yet woken, woken by the end of its job, past its time limit, given up
by its caller, or answered. -/
inductive CallState where
  | waiting
  | woken
  | expired
  | abandoned
  | answered (reply : Reply)
  deriving DecidableEq, Repr

structure Call where
  want : Want
  state : CallState := .waiting
  deriving DecidableEq, Repr

/-- Whom a timer wakes. -/
inductive Sleeper where
  | job (job : Nat)
  | call (call : Nat)
  deriving DecidableEq, Repr

structure Timer where
  deadline : Rat
  sleeper : Sleeper
  deriving DecidableEq, Repr

/-- The jobs of one service with all that is still to be done. -/
structure Scheduler where
  settings : Settings
  sink : Sink
  jobs : List Job := []
  active : List Nat := []
  queue : List Handle := []
  timers : List Timer := []
  now : Rat := 0
  calls : List Call := []
  journal : List Entry := []

namespace Scheduler

def post (s : Scheduler) (h : Handle) : Scheduler := { s with queue := s.queue ++ [h] }

def record (s : Scheduler) (e : Entry) : Scheduler := { s with journal := s.journal ++ [e] }

def setJob (s : Scheduler) (i : Nat) (j : Job) : Scheduler := { s with jobs := s.jobs.set i j }

def setCall (s : Scheduler) (i : Nat) (c : Call) : Scheduler :=
  { s with calls := s.calls.set i c }

/-- The events that the sink was given so far. -/
def events (s : Scheduler) : List Event := s.journal.filterMap Entry.event?

/-- Set a timer; one that never elapses is none. -/
def setTimer (s : Scheduler) (length : Option Rat) (who : Sleeper) : Scheduler :=
  match length with
  | some t => { s with timers := s.timers ++ [⟨s.now + t, who⟩] }
  | none => s

def stopTimer (s : Scheduler) (who : Sleeper) : Scheduler :=
  { s with timers := s.timers.filter fun t => t.sleeper ≠ who }

def start (s : Scheduler) (expression : List Char) : Scheduler × Nat :=
  let i := s.jobs.length
  let job : Job := { expression }
  (({ s with jobs := s.jobs ++ [job], active := s.active ++ [i] }.post (.step i)).record
    (.scheduled i expression), i)

/-- Request the cancellation of a job that has not ended; a sleeping one is woken for it. -/
def cancelJob (s : Scheduler) (i : Nat) (j : Job) : Scheduler × Bool :=
  if j.isFinished then (s, false)
  else if j.asleep then
    (((s.setJob i { j with cancelRequested := true, asleep := false }).stopTimer (.job i)).post
      (.step i), true)
  else (s.setJob i { j with cancelRequested := true }, true)

/-- Cancel the job with the given number; nothing is answered for an unknown one. -/
def cancel (s : Scheduler) (i : Nat) : Scheduler × Option Bool :=
  match s.jobs[i]? with
  | none => (s, none)
  | some j => let (s, b) := s.cancelJob i j; (s, some b)

def addCall (s : Scheduler) (c : Call) : Scheduler × Nat :=
  ({ s with calls := s.calls ++ [c] }, s.calls.length)

def addCallback (s : Scheduler) (i : Nat) (b : Callback) : Scheduler :=
  { s with jobs := s.jobs.modify i fun j => { j with callbacks := j.callbacks ++ [b] } }

/-- Let a call have the next free turn. -/
def pause (s : Scheduler) : Scheduler × Nat :=
  let (s, c) := s.addCall { want := .turn }
  (s.post (.caller c), c)

/-- Have a call woken once a job has ended. The call of a job that has ended already is not answered
here either: its wake-up is queued like that of any other end, behind all that is still to be
done. -/
def gatherJob (s : Scheduler) (c i : Nat) : Scheduler :=
  match s.jobs[i]? with
  | none => s
  | some j => if j.isFinished then s.post (.gather c) else s.addCallback i (.gather c)

/-- Cancel all active jobs and wait for the ends of them all. -/
def cancelAll (s : Scheduler) : Scheduler × Nat :=
  let targets := s.active
  let s := targets.foldl (fun s i => (s.cancel i).1) s
  if targets = [] then s.addCall { want := .jobs 0, state := .answered .nothing }
  else
    let (s, c) := s.addCall { want := .jobs targets.length }
    (targets.foldl (fun s i => s.gatherJob c i) s, c)

/-- Wait for the result of a job, with or without a time limit; nothing is answered for an unknown
job. A limit that is not positive has already passed. -/
def wait (s : Scheduler) (i : Nat) (limit : Option Rat) : Scheduler × Option Nat :=
  match s.jobs[i]? with
  | none => (s, none)
  | some j =>
    match j.result?, limit with
    | some r, none =>
      let (s, c) := s.addCall { want := .job i, state := .answered (.result r) }
      (s, some c)
    | some r, some t =>
      if t ≤ 0 then
        let (s, c) := s.addCall { want := .job i, state := .answered (.result r) }
        (s, some c)
      else
        let (s, c) := s.addCall { want := .job i, state := .woken }
        (s.post (.hop c 0), some c)
    | none, none =>
      let (s, c) := s.addCall { want := .job i }
      (s.addCallback i (.wake c 0), some c)
    | none, some t =>
      if t ≤ 0 then
        let (s, c) := s.addCall { want := .job i, state := .expired }
        (s.post (.hop c 0), some c)
      else
        let (s, c) := s.addCall { want := .job i }
        ((s.addCallback i (.wake c 1)).setTimer (some t) (.call c), some c)

/-- The caller of a wait gives it up. A call that is not woken yet returns at its next turn. -/
def abandon (s : Scheduler) (c : Nat) : Scheduler :=
  match s.calls[c]? with
  | none => s
  | some call =>
    match call.want, call.state with
    | .job _, .waiting =>
      ((s.setCall c { call with state := .abandoned }).stopTimer (.call c)).post (.caller c)
    | .job _, .woken | .job _, .expired => s.setCall c { call with state := .abandoned }
    | _, _ => s

end Scheduler

end PartScan
