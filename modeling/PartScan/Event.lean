import PartScan.Number.Shortest
import PartScan.Part

/-! # Events and log lines

The two notifications of an extraction, and the lines that a log shows of it.
-/

namespace PartScan

open Number Text

/-- A notification: the progress of a scan, or the variables that a job found. -/
inductive Event where
  | progress (expression : List Char) (percent : Decimal)
  | completed (expression : List Char) (found : List Part)
  deriving DecidableEq, Repr

inductive LogLevel where
  | debug
  | info
  | warning
  | error
  deriving DecidableEq, Repr

def LogLevel.label : LogLevel → List Char
  | .debug => "DEBUG".toList
  | .info => "INFO".toList
  | .warning => "WARNING".toList
  | .error => "ERROR".toList

inductive LogSource where
  | builder
  | scanner
  | events
  | jobs
  deriving DecidableEq, Repr

def LogSource.label : LogSource → List Char
  | .builder => "builder".toList
  | .scanner => "scanner".toList
  | .events => "events".toList
  | .jobs => "jobs".toList

structure LogLine where
  level : LogLevel
  source : LogSource
  message : List Char
  deriving DecidableEq, Repr

namespace Event

/-- The names of the variables, or a placeholder where nothing is to be shown. -/
def namesText (found : List Part) : List Char :=
  match [',', ' '].intercalate (found.map Part.text) with
  | [] => "<none>".toList
  | names => names

/-- The log line of an event: percentages with one place, variables by name. -/
def logLine : Event → LogLine
  | .progress e p =>
    ⟨.debug, .events, quoted e ++ ": ".toList ++ (Binary64.ofDecimal p).fixedText 1 ++ ['%']⟩
  | .completed e vs => ⟨.info, .events, quoted e ++ ": variables ".toList ++ namesText vs⟩

end Event

def skippedLine (c : Char) : LogLine :=
  ⟨.debug, .builder, "Illegal character ".toList ++ quoted [c] ++ " in word".toList⟩

def startedLine (expression : List Char) : LogLine :=
  ⟨.debug, .scanner, "Scanning ".toList ++ quoted expression⟩

def endedLine (expression : List Char) (count : Nat) : LogLine :=
  ⟨.debug, .scanner,
    "Scanned ".toList ++ quoted expression ++ " into ".toList ++ natText count ++ " parts".toList⟩

end PartScan
