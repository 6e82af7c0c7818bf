import Mathlib.Data.List.Induction
import PartScan.Scheduler.Run

/-! # Moves of a scheduler

A run of a scheduler is a list of moves: calls that other tasks make, turns of the queue, and ends
of timers. The moves may come in any order, and a timer may elapse at any moment; running until a
condition holds is one such list.
-/

namespace PartScan

/-- What can happen to a scheduler: a call of another task, a turn of the first entry of the queue,
or the end of a timer. -/
inductive Move where
  | start (expression : List Char)
  | cancel (job : Nat)
  | cancelAll
  | wait (job : Nat) (limit : Option Rat)
  | abandon (call : Nat)
  | pause
  | turn
  | elapse (timer : Timer)

/-- The expression of the job that a move starts, if it starts one. -/
def Move.started : Move → List (List Char)
  | .start e => [e]
  | _ => []

/-- Whether a scheduler makes a move by itself, with no other task. -/
def Move.isOwn : Move → Bool
  | .turn => true
  | .elapse _ => true
  | _ => false

namespace Scheduler

def popped (s : Scheduler) : Scheduler := { s with queue := s.queue.tail }

/-- One move. A turn needs an entry in the queue, and only a timer that is set can elapse. -/
def move (s : Scheduler) : Move → Scheduler
  | .start e => (s.start e).1
  | .cancel i => (s.cancel i).1
  | .cancelAll => s.cancelAll.1
  | .wait i limit => (s.wait i limit).1
  | .abandon c => s.abandon c
  | .pause => s.pause.1
  | .turn =>
    match s.queue.head? with
    | some h => s.popped.handle h
    | none => s
  | .elapse t => if t ∈ s.timers then s.elapse t else s

def moves (s : Scheduler) (ms : List Move) : Scheduler := ms.foldl move s

def initial (settings : Settings) (sink : Sink) : Scheduler := { settings, sink }

/-- The scheduler after the given moves from its beginning. -/
def after (settings : Settings) (sink : Sink) (ms : List Move) : Scheduler :=
  (initial settings sink).moves ms

@[simp] theorem moves_nil (s : Scheduler) : s.moves [] = s := rfl

@[simp] theorem moves_cons (s : Scheduler) (m : Move) (ms : List Move) :
    s.moves (m :: ms) = (s.move m).moves ms := rfl

@[simp] theorem moves_append (s : Scheduler) (ms ns : List Move) :
    s.moves (ms ++ ns) = (s.moves ms).moves ns := List.foldl_append

theorem after_concat (settings : Settings) (sink : Sink) (ms : List Move) (m : Move) :
    after settings sink (ms ++ [m]) = (after settings sink ms).move m :=
  moves_append _ ms [m]

/-- What every move keeps, a list of moves keeps. -/
theorem moves_induction {P : Scheduler → Prop} (h : ∀ s m, P s → P (s.move m)) {s : Scheduler}
    (hs : P s) (ms : List Move) : P (s.moves ms) := by
  induction ms generalizing s with
  | nil => exact hs
  | cons m ms ih => exact ih (h s m hs)

/-- What every move keeps holds after every run. -/
theorem after_induction {settings : Settings} {sink : Sink} {P : Scheduler → Prop}
    (h₀ : P (initial settings sink)) (h : ∀ s m, P s → P (s.move m)) (ms : List Move) :
    P (after settings sink ms) := moves_induction h h₀ ms

variable {s s' : Scheduler}

theorem move_turn {h : Handle} (hq : s.queue.head? = some h) : s.move .turn = s.popped.handle h := by
  simp [move, hq]

theorem move_turn_of_nil (hq : s.queue.head? = none) : s.move .turn = s := by
  simp [move, hq]

theorem move_step {i : Nat} {j : Job} (hq : s.queue.head? = some (.step i))
    (hj : s.jobs[i]? = some j) : s.move .turn = s.popped.step i j := by
  have hget : s.popped.jobs[i]? = some j := hj
  simp only [move_turn hq, handle, hget]

/-- A turn is a move, also where the first timer elapses since nothing else is left. -/
theorem exists_move_of_turn (h : s.turn? = some s') : ∃ m, m.isOwn = true ∧ s.move m = s' := by
  unfold turn? at h
  split at h
  · rename_i hd rest hq
    cases h
    exact ⟨.turn, rfl, by simp [move, popped, hq]⟩
  · obtain ⟨t, ht, rfl⟩ := Option.map_eq_some_iff.1 h
    exact ⟨.elapse t, rfl, if_pos (mem_of_earliest ht)⟩

/-- Running until a condition holds is a list of moves that the scheduler makes by itself. -/
theorem exists_moves_runUntil (p : Scheduler → Bool) (s : Scheduler) :
    ∃ ms, (∀ m ∈ ms, Move.isOwn m = true) ∧ s.moves ms = s.runUntil p := by
  fun_induction runUntil p s with
  | case1 s hp => exact ⟨[], by simp, rfl⟩
  | case2 s hp s' ht ih =>
    obtain ⟨ms, hown, hms⟩ := ih
    obtain ⟨m, hm, rfl⟩ := exists_move_of_turn ht
    exact ⟨m :: ms, List.forall_mem_cons.2 ⟨hm, hown⟩, hms⟩
  | case3 s hp ht => exact ⟨[], by simp, rfl⟩

/-- Running ends when the condition holds or nothing is left to be done. -/
theorem runUntil_stops (p : Scheduler → Bool) (s : Scheduler) :
    p (s.runUntil p) = true ∨ (s.runUntil p).turn? = none := by
  fun_induction runUntil p s with
  | case1 s hp => exact .inl hp
  | case2 s hp s' ht ih => exact ih
  | case3 s hp ht => exact .inr ht

theorem queue_of_turn?_eq_none (h : s.turn? = none) : s.queue = [] := by
  unfold turn? at h
  split at h
  · cases h
  · assumption

end Scheduler

end PartScan
