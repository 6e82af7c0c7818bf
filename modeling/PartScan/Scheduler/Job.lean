import PartScan.Event
import PartScan.Scan.Trace

/-! # Jobs

A job extracts the variables of one expression. It is first deferred, then scans, and ends with its
variables, with a failure, or cancelled.
-/

namespace PartScan

open Number Text

/-- How a job ends. A job is refused when the sink of its events refuses one of them. -/
inductive JobResult where
  | found (parts : List Part)
  | fault (fault : Fault)
  | refused (reason : List Char)
  | cancelled
  deriving DecidableEq, Repr

inductive Stage where
  | created
  | deferred
  | scanning (scan : Scan)
  | finished (result : JobResult)
  deriving DecidableEq, Repr

/-- What is to be done when a job has ended: drop it from the active jobs, or wake a call. -/
inductive Callback where
  | discard
  | wake (call hops : Nat)
  | gather (call : Nat)
  deriving DecidableEq, Repr

/-- A job. While it is asleep a timer has to elapse before its next step. -/
structure Job where
  expression : List Char
  stage : Stage := .created
  asleep : Bool := false
  cancelRequested : Bool := false
  callbacks : List Callback := [.discard]
  deriving DecidableEq, Repr

namespace Job

def result? (j : Job) : Option JobResult :=
  match j.stage with
  | .finished r => some r
  | _ => none

def isFinished (j : Job) : Bool := j.result?.isSome

def stateText (j : Job) : List Char :=
  match j.result? with
  | some .cancelled => "cancelled".toList
  | some _ => "done".toList
  | none => "pending".toList

def describe (id : List Char) (j : Job) : List Char :=
  "ExtractionJob(".toList ++ id ++ ", ".toList ++ quoted j.expression ++ ", ".toList ++
    j.stateText ++ [')']

end Job

/-- What happens to a job, in the order in which it happens. -/
inductive Entry where
  | scheduled (job : Nat) (expression : List Char)
  | started (job : Nat) (expression : List Char)
  | event (job : Nat) (event : Event)
  | ended (job : Nat) (expression : List Char) (count : Nat)
  | completed (job : Nat) (expression : List Char) (count : Nat)
  | cancelled (job : Nat) (expression : List Char)
  | failed (job : Nat) (expression : List Char) (fault : Option Fault)
  deriving DecidableEq, Repr

namespace Entry

def event? : Entry → Option Event
  | .event _ e => some e
  | _ => none

def jobText (id : Nat → List Char) (job : Nat) (expression : List Char) : List Char :=
  "Job ".toList ++ id job ++ " for ".toList ++ quoted expression

/-- The log line of an entry, with jobs named by `id`. -/
def logLine (id : Nat → List Char) : Entry → LogLine
  | .scheduled j e =>
    ⟨.info, .jobs, "Scheduled job ".toList ++ id j ++ " for ".toList ++ quoted e⟩
  | .started _ e => startedLine e
  | .event _ e => e.logLine
  | .ended _ e n => endedLine e n
  | .completed j e n =>
    ⟨.info, .jobs,
      jobText id j e ++ " completed with ".toList ++ natText n ++ " variables".toList⟩
  | .cancelled j e => ⟨.warning, .jobs, jobText id j e ++ " cancelled".toList⟩
  | .failed j e none => ⟨.error, .jobs, jobText id j e ++ " failed".toList⟩
  | .failed j e (some f) => ⟨.error, .jobs, jobText id j e ++ " failed: ".toList ++ f.message⟩

end Entry

/-- The receiver of the events. It may refuse an event, depending on those that it was given
before; the refused event has been given to it all the same. A refusal may be the fault of an
expression, and is then logged as one. A sink only receives: it makes no calls on the scheduler
while it is given an event, so all calls of a run stand between its turns. -/
structure Sink where
  refuses : List Event → Event → Option (List Char) := fun _ _ => none
  fault? : List Char → Option Fault := fun _ => none

instance : Inhabited Sink := ⟨{}⟩

end PartScan
