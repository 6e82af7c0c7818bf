import PartScan.CommandLine.Arguments
import PartScan.CommandLine.Input
import PartScan.CommandLine.Report

/-! # Sessions

A session is one call of the program: its arguments are read, settings are loaded, and expressions
are reported.
-/

namespace PartScan.CommandLine

open Number

/-- What a call can see: the standard input, what stands at a path, and the variables of the
environment. -/
structure Surroundings where
  input : List Char := []
  look : List Char → Source := fun _ => .missing
  environment : List Char → Option (List Char) := fun _ => none

/-- How a call ends: with a status after its work, with a status before it, or without settings. -/
inductive Ending where
  | status (code : Nat)
  | exit (code : Nat)
  | failure (e : LoadError)

structure Session where
  printed : List Char := []
  errors : List Char := []
  ending : Ending

/-- Log lines are shown from warnings on; all of them if the call is verbose, and those on events if
it simulates. -/
def Options.shows (o : Options) (line : LogLine) : Bool :=
  o.verbose || (o.simulate && line.source = .events) || line.level = .warning ||
    line.level = .error

def logText (line : LogLine) : List Char :=
  line.level.label ++ " exprparts.".toList ++ line.source.label ++ ": ".toList ++ line.message ++
    ['\n']

namespace Output

def printed : Output → List Char
  | .text cs => cs
  | _ => []

def errors (o : Options) : Output → List Char
  | .complaint m => "error: ".toList ++ m ++ ['\n']
  | .log line => if o.shows line then logText line else []
  | .text _ => []

end Output

/-- The pause between the steps of a simulation: half a second. -/
def simulatedDelay : Delay := { seconds := .ofRatio false 1 2, nonneg := by decide +kernel }

def settingsFor (o : Options) (w : Surroundings) : Except LoadError Settings :=
  (Settings.load w.look w.environment (some o.config)).map fun s =>
    if o.simulate then { s with stepDelay := simulatedDelay } else s

/-- Do what the options ask for. Jobs are named by `id`. -/
def perform (id : Nat → List Char) (o : Options) (w : Surroundings) : Session :=
  match settingsFor o w with
  | .error e => { ending := .failure e }
  | .ok settings =>
    let out := report ⟨o.onlyVariables, o.json⟩ id { settings, sink := default }
      (readExpressions o.expressions w.input)
    { printed := out.flatMap Output.printed
      errors := out.flatMap (Output.errors o)
      ending := .status (statusOf out) }

/-- A session without work: help, or a complaint about the arguments. -/
def Stop.session : Stop → Session
  | .help => { printed := helpText, ending := .exit 0 }
  | .usage e => { errors := e.text, ending := .exit 2 }

def session (id : Nat → List Char) (arguments : List (List Char)) (w : Surroundings) : Session :=
  match parse arguments with
  | .ok o => perform id o w
  | .error stop => stop.session

end PartScan.CommandLine
