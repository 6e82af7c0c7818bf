import PartScan.Proofs.Scheduler.Answer
import PartScan.Proofs.Scheduler.Without

/-! # Runs without some waits

A run without some of its waits is the same run but for these calls: every job has the same steps
and the journal has the same entries. So waits never disturb a job, and each of them is answered the
outcome of the job, unless it is late or given up.
-/

namespace PartScan

namespace Scheduler

variable {gone : Nat → Bool} {s t : Scheduler} {c i : Nat}

namespace Without

section Turn

variable {e e' : Handle}

theorem popped (h : Without gone s t) (hq : s.queue.head? = some e)
    (he : e.renumber (renumber gone) = some e') :
    t.queue.head? = some e' ∧ Without gone s.popped t.popped := by
  obtain ⟨rest, hrest⟩ := List.head?_eq_some_iff.1 hq
  have htq : t.queue = e' :: rest.filterMap (Handle.renumber (renumber gone)) := by
    rw [h.queue, hrest, List.filterMap_cons_some he]
  refine ⟨by rw [htq]; rfl, { h with queue := ?_ }⟩
  show t.queue.tail = s.queue.tail.filterMap _
  rw [htq, hrest]
  rfl

theorem popped_gone (h : Without gone s t) (hq : s.queue.head? = some e)
    (he : e.renumber (renumber gone) = none) : Without gone s.popped t := by
  obtain ⟨rest, hrest⟩ := List.head?_eq_some_iff.1 hq
  refine { h with queue := ?_ }
  show t.queue = s.queue.tail.filterMap _
  rw [h.queue, hrest, List.filterMap_cons_none he]
  rfl

theorem exists_timer (h : Without gone s t) {u : Timer} (hu : u ∈ s.timers) {w : Sleeper}
    (hw : u.sleeper.renumber (renumber gone) = some w) :
    ∃ v, t.timers.find? (fun v => v.sleeper = w) = some v ∧ v ∈ t.timers ∧ v.sleeper = w := by
  have hmem : w ∈ t.timers.map Timer.sleeper :=
    h.sleepers.mem_iff.2 (List.mem_filterMap.2 ⟨_, List.mem_map_of_mem hu, hw⟩)
  obtain ⟨v, hv, hvw⟩ := List.mem_map.1 hmem
  cases hfind : t.timers.find? (fun v => v.sleeper = w) with
  | none => exact absurd hvw (by simpa using List.find?_eq_none.1 hfind v hv)
  | some v' =>
    exact ⟨v', rfl, List.mem_of_find?_eq_some hfind, by simpa using List.find?_some hfind⟩

end Turn

end Without

/-- The move that a run without the waits that are gone makes for a move, if it makes one: it has
neither these waits nor what is done for them. -/
def counterpart (gone : Nat → Bool) (s t : Scheduler) : Move → Option Move
  | .wait i limit => if gone s.calls.length then none else some (.wait i limit)
  | .abandon c => (renumber gone c).map .abandon
  | .turn => (s.queue.head?.bind (Handle.renumber (renumber gone))).map fun _ => .turn
  | .elapse u =>
    if u ∈ s.timers then
      (u.sleeper.renumber (renumber gone)).bind fun w =>
        (t.timers.find? fun v => v.sleeper = w).map .elapse
    else none
  | m => some m

/-- A run from `s`, made from `t` without the waits that are gone. -/
def without (gone : Nat → Bool) (s t : Scheduler) : List Move → List Move
  | [] => []
  | m :: ms =>
    match counterpart gone s t m with
    | some m' => m' :: without gone (s.move m) (t.move m') ms
    | none => without gone (s.move m) t ms

/-- Whether all calls of a run that are gone are waits. -/
def onlyWaits (gone : Nat → Bool) (s : Scheduler) : List Move → Bool
  | [] => true
  | m :: ms =>
    (match m with
      | .pause | .cancelAll => !gone s.calls.length
      | _ => true) && onlyWaits gone (s.move m) ms

section Moves

variable {m m' : Move} {ms : List Move}

theorem Without.move_none (h : Without gone s t) (hm : counterpart gone s t m = none) :
    Without gone (s.move m) t := by
  cases m with
  | start e => cases hm
  | cancel i => cases hm
  | cancelAll => cases hm
  | pause => cases hm
  | wait i limit =>
    refine h.wait_gone i limit ?_
    by_contra hc
    simp [counterpart, hc] at hm
  | abandon c => exact h.abandon_gone (renumber_eq_none.1 (Option.map_eq_none_iff.1 hm))
  | turn =>
    rw [Scheduler.move]
    cases hq : s.queue.head? with
    | none => exact h
    | some e =>
      have he : e.renumber (renumber gone) = none := by simpa [counterpart, hq] using hm
      exact (h.popped_gone hq he).handle_gone he
  | elapse u =>
    rw [Scheduler.move]
    split
    · rename_i hu
      cases hw : u.sleeper.renumber (renumber gone) with
      | none =>
        rw [elapse_eq]
        exact (h.rung_gone hu hw).alarm_gone hw
      | some w =>
        obtain ⟨v, hfind, -⟩ := h.exists_timer hu hw
        simp [counterpart, hu, hw, hfind] at hm
    · exact h

theorem Without.move_some (h : Without gone s t) (hm : counterpart gone s t m = some m')
    (hw : onlyWaits gone s (m :: ms) = true) : Without gone (s.move m) (t.move m') := by
  have hnew (hc : (!gone s.calls.length) = true) : gone s.calls.length = false := by simpa using hc
  obtain ⟨hw, -⟩ := Bool.and_eq_true_iff.1 hw
  cases m with
  | start e =>
    cases hm
    exact h.start e
  | cancel i =>
    cases hm
    exact h.cancel i
  | cancelAll =>
    cases hm
    exact h.cancelAll (hnew hw)
  | pause =>
    cases hm
    exact h.pause (hnew hw)
  | wait i limit =>
    cases hc : gone s.calls.length with
    | true => simp [counterpart, hc] at hm
    | false =>
      obtain rfl : m' = .wait i limit := by simpa [counterpart, hc] using hm.symm
      exact h.wait i limit hc
  | abandon c =>
    obtain ⟨d, hd, rfl⟩ := Option.map_eq_some_iff.1 hm
    obtain ⟨hc, rfl⟩ := renumber_eq_some.1 hd
    exact h.abandon hc
  | turn =>
    obtain ⟨e', he', rfl⟩ := Option.map_eq_some_iff.1 hm
    obtain ⟨e, hq, he⟩ := Option.bind_eq_some_iff.1 he'
    obtain ⟨htq, hpopped⟩ := h.popped hq he
    rw [Scheduler.move, Scheduler.move, hq, htq]
    exact hpopped.handle he
  | elapse u =>
    by_cases hu : u ∈ s.timers
    · rw [counterpart, if_pos hu] at hm
      obtain ⟨w, hw, hm⟩ := Option.bind_eq_some_iff.1 hm
      obtain ⟨v, hfind, hv, rfl⟩ := h.exists_timer hu hw
      rw [hfind] at hm
      cases hm
      rw [Scheduler.move, Scheduler.move, if_pos hu, if_pos hv, elapse_eq, elapse_eq]
      exact (h.rung hu hv hw).alarm hw
    · rw [counterpart, if_neg hu] at hm
      cases hm

/-- A run without some waits stays without them, and is otherwise the same. -/
theorem Without.moves (h : Without gone s t) (hw : onlyWaits gone s ms = true) :
    Without gone (s.moves ms) (t.moves (without gone s t ms)) := by
  induction ms generalizing s t with
  | nil => exact h
  | cons m ms ih =>
    have hrest := (Bool.and_eq_true_iff.1 hw).2
    rw [without]
    split
    · rename_i m' hm
      exact ih (h.move_some hm hw) hrest
    · rename_i hm
      exact ih (h.move_none hm) hrest

end Moves

theorem Without.bare (h : Without gone s t) : t.jobs.map Job.bare = s.jobs.map Job.bare := by
  rw [h.jobs, List.map_map]
  rfl

theorem Without.reply? (h : Without gone s t) (hc : gone c = false) :
    t.reply? (place gone c) = s.reply? c := by
  rw [Scheduler.reply?, Scheduler.reply?, h.calls c hc]

/-- What a wait of the given job and limit, made in `s` as the call `c`, is answered after the given
moves: the outcome of the job unless it is late or was given up. It is answered at the latest when
the job ends. -/
structure Awaits (s : Scheduler) (i : Nat) (limit : Option Rat) (c : Nat) (ms : List Move) :
    Prop where
  answers : ∀ r, ((s.wait i limit).1.moves ms).reply? c = some r →
    Answers (((s.wait i limit).1.moves ms).outcome i)
      (s.Missed i limit ∨ (s.wait i limit).1.Lapses c i ms) (.abandon c ∈ ms) r
  returns : ((s.wait i limit).1.moves ms).outcome i ≠ none ∨
      (s.Missed i limit ∨ (s.wait i limit).1.Lapses c i ms) ∨ .abandon c ∈ ms →
    (((s.wait i limit).1.moves ms).await c).2 ≠ none

theorem awaits (hp : ∀ k, s.Placed k) (hu : Unmade s) {limit : Option Rat}
    (h : (s.wait i limit).2 = some c) (ms : List Move) : Awaits s i limit c ms := by
  obtain ⟨-, p, hat, ht⟩ := at_wait hu h
  have hp' : ∀ k, (s.wait i limit).1.Placed k := (moved hp (.wait i limit)).placed
  obtain ⟨p', hat', ht'⟩ := hat.moves hp' ht ms
  have htold := ht'.mono Iff.rfl (false_or (Move.abandon c ∈ ms)).symm.to_iff
  have hplaced := placed_moves hp' ms
  exact ⟨fun r => hat'.answers htold, hat'.await hplaced htold⟩

/-- In every run waits disturb no job: without any choice of its waits the run has the same journal,
and the same jobs but for what follows their ends, and the calls that remain have the same answers.
Every wait is answered the outcome of its job, unless it is late or was given up. -/
theorem waits_undisturbing (settings : Settings) (sink : Sink) (ms : List Move) :
    (∀ gone, onlyWaits gone (initial settings sink) ms = true →
      let s := after settings sink ms
      let t := after settings sink
        (without gone (initial settings sink) (initial settings sink) ms)
      t.journal = s.journal ∧ t.jobs.map Job.bare = s.jobs.map Job.bare ∧ t.active = s.active ∧
        t.calls.length = place gone s.calls.length ∧
          ∀ c, gone c = false → t.reply? (place gone c) = s.reply? c) ∧
      ∀ i limit c, ((after settings sink ms).wait i limit).2 = some c →
        ∀ ms', Awaits (after settings sink ms) i limit c ms' := by
  constructor
  · intro gone hgone
    have h := (Without.initial gone settings sink).moves hgone
    exact ⟨h.journal, h.bare, h.active, h.length, fun c hc => h.reply? hc⟩
  · intro i limit c hc ms'
    exact awaits (placed_after settings sink ms) (unmade_after settings sink ms) hc ms'

theorem waits_undisturbing_three :
    let ms : List Move := [.start ['a'], .turn, .wait 0 none, .pause, .wait 0 (some 1),
      .wait 0 none, .elapse ⟨1, .call 2⟩, .abandon 3] ++ List.replicate 12 .turn
    let gone : Nat → Bool := (· ≠ 1)
    let s := after default default ms
    let t := after default default (without gone (initial default default) (initial default default)
      ms)
    [0, 1, 2, 3].map s.reply? = [some (.result (.found [⟨.var, 0, 1, ['a']⟩])), some .nothing,
        some .timeout, some .abandoned] ∧
      t.calls.length = 1 ∧ t.journal = s.journal ∧ t.reply? 0 = s.reply? 1 ∧
      (s.wait 0 (some 0)).2 = some 4 ∧ Awaits s 0 (some 0) 4 [] := by
  intro ms gone s t
  have hruns := (waits_undisturbing default default ms).1 gone (by decide +kernel)
  refine ⟨by decide +kernel, by decide +kernel, hruns.1, ?_, by decide +kernel, ?_⟩
  · exact hruns.2.2.2.2 1 (by decide)
  · exact (waits_undisturbing default default ms).2 0 (some 0) 4 (by decide +kernel) []

end Scheduler

end PartScan
