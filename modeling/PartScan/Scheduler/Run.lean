import PartScan.Scheduler.Size

/-! # Running a scheduler

Turns are taken until a call is answered, until a job is done, or until no job is active.
-/

namespace PartScan

namespace Scheduler

/-- Take turns until a condition holds or nothing is left to be done. -/
def runUntil (p : Scheduler → Bool) (s : Scheduler) : Scheduler :=
  if p s then s
  else
    match _h : s.turn? with
    | some s' => runUntil p s'
    | none => s
termination_by s.size
decreasing_by exact size_turn _h

/-- The answer to a call, once there is one. -/
def reply? (s : Scheduler) (c : Nat) : Option Reply :=
  match s.calls[c]? with
  | some { state := .answered r, .. } => some r
  | _ => none

/-- Take turns until a call is answered. -/
def await (s : Scheduler) (c : Nat) : Scheduler × Option Reply :=
  let s := s.runUntil fun s => (s.reply? c).isSome
  (s, s.reply? c)

/-- Let everything that is in the queue now have its turn. -/
def tick (s : Scheduler) : Scheduler :=
  let (s, c) := s.pause
  (s.await c).1

/-- Tick until no job is active. Where only timers are left, the first of them elapses. -/
def drain (s : Scheduler) : Scheduler :=
  s.runUntil fun s => s.active.isEmpty

def extract (s : Scheduler) (expression : List Char) : Scheduler × Option Reply :=
  let (s, i) := s.start expression
  match s.wait i none with
  | (s, some c) => s.await c
  | (s, none) => (s, none)

end Scheduler

end PartScan
