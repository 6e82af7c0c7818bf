import PartScan.Json.Payload
import PartScan.Scheduler.Run
import PartScan.Table

/-! # Reports

A report prints the parts of expressions one after the other. An expression that is refused adds an
error and nothing else; the others are not affected. Variables alone are found by jobs, all of them
of one scheduler.
-/

namespace PartScan.CommandLine

/-- What a report is made of: printed text, errors, and log lines. -/
inductive Output where
  | text (cs : List Char)
  | complaint (message : List Char)
  | log (line : LogLine)
  deriving DecidableEq, Repr

/-- What is reported and how. -/
structure Mode where
  onlyVariables : Bool := false
  json : Bool := false
  deriving DecidableEq, Repr

/-- The text of the parts of an expression: data on one line, or a table. -/
def partsOutput (json : Bool) (expression : List Char) (parts : List Part) : List Char :=
  if json then partsText parts ++ ['\n'] else tableText expression parts

def noticeLine (expression : List Char) : Notice → LogLine
  | .started => startedLine expression
  | .progress p => (Event.progress expression p).logLine
  | .ended n => endedLine expression n

/-- Scan an expression, with the log lines on the way. -/
def scanLogged (rules : Rules) (expression : List Char) : List LogLine × Outcome :=
  let (trace, outcome) := (Scan.ready rules expression).run
  (trace.flatten.map (noticeLine expression), outcome)

/-- Extract the variables of an expression by a job. There is no outcome if the job waits for ever
or is cut short. -/
def extractLogged (id : Nat → List Char) (s : Scheduler) (expression : List Char) :
    Scheduler × List LogLine × Option Outcome :=
  let (t, reply) := s.extract expression
  let lines := (t.journal.drop s.journal.length).map (Entry.logLine id)
  let outcome : Option Outcome := match reply with
    | some (.result (.found ps)) => some (.ok ps)
    | some (.result (.fault f)) => some (.error f)
    | _ => none
  (t, lines, outcome)

/-- What an outcome adds to a report. -/
def outcomeOutput (json : Bool) (expression : List Char) : Option Outcome → List Output
  | none => []
  | some (.ok parts) => [.text (partsOutput json expression parts)]
  | some (.error f) => [.complaint f.message]

def reportOne (mode : Mode) (id : Nat → List Char) (s : Scheduler) (expression : List Char) :
    Scheduler × List Output :=
  if mode.onlyVariables then
    let (s, lines, outcome) := extractLogged id s expression
    (s, lines.map .log ++ outcomeOutput mode.json expression outcome)
  else
    let (lines, outcome) := scanLogged s.settings.rules expression
    (s, lines.map .log ++ outcomeOutput mode.json expression (some outcome))

def report (mode : Mode) (id : Nat → List Char) (s : Scheduler) : List (List Char) → List Output
  | [] => []
  | e :: rest =>
    let (s, out) := reportOne mode id s e
    out ++ report mode id s rest

namespace Output

def isComplaint : Output → Bool
  | .complaint _ => true
  | _ => false

end Output

/-- The status of a report: one if it has an error. -/
def statusOf (out : List Output) : Nat := if out.any Output.isComplaint then 1 else 0

end PartScan.CommandLine
