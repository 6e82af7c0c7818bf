import PartScan.Number.Shortest
import PartScan.Rules

/-! # Settings

The settings of an extraction: the rules of its scans and its two delays in seconds.
-/

namespace PartScan

open Number

/-- A delay in seconds, never negative and never undefined. -/
structure Delay where
  seconds : Binary64
  nonneg : seconds.isNonneg = true := by decide
  deriving DecidableEq, Repr

instance : Inhabited Delay := ⟨{ seconds := .zero false }⟩

/-- Whether a delay lets time pass. -/
def Delay.isPositive (d : Delay) : Bool :=
  match d.seconds with
  | .finite _ m _ => m ≠ 0
  | _ => true

/-- Scan rules, the pause after every step and the deferral of a job. -/
structure Settings where
  rules : Rules := default
  stepDelay : Delay := default
  dueTime : Delay := default
  deriving DecidableEq, Repr

instance : Inhabited Settings := ⟨{ rules := default }⟩

/-- The settings that can be given, in the order in which they are checked. -/
inductive Field where
  | stepDelay
  | dueTime
  | maxDepth
  | pairing
  | quote
  deriving DecidableEq, Repr

namespace Field

def all : List Field := [.stepDelay, .dueTime, .maxDepth, .pairing, .quote]

def name : Field → List Char
  | .stepDelay => "step_delay".toList
  | .dueTime => "due_time".toList
  | .maxDepth => "max_depth".toList
  | .pairing => "paren_matching".toList
  | .quote => "quote_char".toList

end Field

def Pairing.label : Pairing → List Char
  | .nested => "nested".toList
  | .first => "first".toList

end PartScan
