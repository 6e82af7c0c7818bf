import PartScan.Proofs.Scheduler.Membership
import PartScan.Proofs.Scheduler.Request

/-! # Calls that wait for several jobs

A call that waits for the ends of several jobs counts down: its count is the number of its entries
in the queue and of those of its jobs that have not ended. Since each of its entries comes after the
one that drops the job, the jobs are not active any more when the count is at its end.
-/

namespace PartScan

namespace Scheduler

variable {s s' : Scheduler} {c i k left : Nat} {targets l : List Nat} {m : Move}

/-- How many of the given jobs have not ended. -/
def pending (s : Scheduler) (targets : List Nat) : Nat :=
  targets.countP fun i => s.outcome i = none

/-- The call with the number `c` waits for the ends of the given jobs, or has seen them all. -/
inductive Gathers (s : Scheduler) (c : Nat) (targets : List Nat) : Prop
  | waiting {n : Nat} (hc : s.calls[c]? = some { want := .jobs (n + s.pending targets) })
      (hpos : 0 < n + s.pending targets) (he : s.entries c = List.replicate n (.gather c))
      (hn : ∀ i, s.notices i c = if i ∈ targets ∧ s.outcome i = none then [.gather c] else [])
      (hb : ∀ i ∈ targets, Behind s i (.gather c)) : Gathers s c targets
  | done {state : CallState} (hc : s.calls[c]? = some ⟨.jobs 0, state⟩)
      (hs : state = .waiting ∧ s.entries c = [.caller c] ∨
        state = .answered .nothing ∧ s.entries c = [])
      (hn : ∀ i, s.notices i c = [])
      (hend : ∀ i ∈ targets, i < s.jobs.length ∧ i ∉ s.active ∧ s.outcome i ≠ none) :
      Gathers s c targets

theorem countP_remove {α : Type} {p q : α → Bool} {l : List α} {a : α} (hnodup : l.Nodup)
    (ha : a ∈ l) (hp : p a = true) (hq : q a = false) (h : ∀ b, b ≠ a → q b = p b) :
    l.countP p = l.countP q + 1 := by
  induction l with
  | nil => cases ha
  | cons b l ih =>
    obtain ⟨hb, hnodup⟩ := List.nodup_cons.1 hnodup
    rcases List.mem_cons.1 ha with rfl | ha
    · have hrest : l.countP p = l.countP q :=
        List.countP_congr fun x hx => by rw [h x (by rintro rfl; exact hb hx)]
      simp [hp, hq, hrest]
    · have hne : b ≠ a := by
        rintro rfl
        exact hb ha
      rw [List.countP_cons, List.countP_cons, ih hnodup ha, h b hne]
      omega

theorem outcome_eq_none_iff (hp : ∀ i, s.Placed i) (hb : Beside c s (s.move m)) (i : Nat) :
    (s.move m).outcome i = none ↔ s.outcome i = none := by
  constructor
  · intro hnone
    cases ho : s.outcome i with
    | none => rfl
    | some r =>
      rw [outcome_move hp ho m] at hnone
      cases hnone
  · exact hb.outcome i

theorem ended_move (hp : ∀ i, s.Placed i)
    (h : ∀ i ∈ targets, i < s.jobs.length ∧ i ∉ s.active ∧ s.outcome i ≠ none) (m : Move) :
    ∀ i ∈ targets, i < (s.move m).jobs.length ∧ i ∉ (s.move m).active ∧
      (s.move m).outcome i ≠ none := by
  intro i hi
  obtain ⟨hlt, hact, hend⟩ := h i hi
  obtain ⟨r, hr⟩ := Option.ne_none_iff_exists'.1 hend
  refine ⟨Nat.lt_of_lt_of_le hlt (length_jobs_le_move hp m), not_active_move hp hlt hact m, ?_⟩
  rw [outcome_move hp hr m]
  simp

theorem Gathers.beside (hp : ∀ i, s.Placed i) (ht : Tracked s) (hb : Beside c s (s.move m))
    (h : Gathers s c targets) : Gathers (s.move m) c targets := by
  cases h with
  | @waiting n hc hpos he hn hbehind =>
    have hiff := outcome_eq_none_iff hp hb
    have hpending : (s.move m).pending targets = s.pending targets :=
      List.countP_congr fun i _ => by simp [hiff i]
    refine .waiting (n := n) ?_ (hpending ▸ hpos) (hb.entries.trans he) (fun i => ?_)
      fun i hi => (hbehind i hi).move hp ht (by simp) m
    · rw [hpending]
      exact hb.call.trans hc
    · rw [hb.notices, hn]
      simp only [hiff]
  | done hc hs hn hend =>
    refine .done (hb.call.trans hc) ?_ (fun i => (hb.notices i).trans (hn i)) (ended_move hp hend m)
    rwa [hb.entries]

theorem Gathers.notified (hp : ∀ i, s.Placed i) (ht : Tracked s) (hnodup : targets.Nodup)
    (hb : Notified c k s (s.move m)) (h : Gathers s c targets) : Gathers (s.move m) c targets := by
  cases h with
  | @waiting n hc hpos he hn hbehind =>
    obtain ⟨r, hr⟩ := hb.ended
    have hbehind' : ∀ i ∈ targets, Behind (s.move m) i (.gather c) :=
      fun i hi => (hbehind i hi).move hp ht (by simp) m
    have hnotices (i : Nat) : (s.move m).notices i c =
        if i ∈ targets ∧ (s.move m).outcome i = none then [.gather c] else [] := by
      rw [hb.notices]
      split
      · rename_i hk
        rw [hk, hr, if_neg (by simp)]
      · rename_i hk
        rw [hn, hb.outcome i hk]
    by_cases hk : k ∈ targets ∧ s.outcome k = none
    · have hpending : s.pending targets = (s.move m).pending targets + 1 :=
        countP_remove hnodup hk.1 (by simp [hk.2]) (by simp [hr])
          fun i hi => by rw [hb.outcome i hi]
      have hsum : n + s.pending targets = n + 1 + (s.move m).pending targets := by omega
      rw [hsum] at hc hpos
      refine .waiting (hb.call.trans hc) hpos ?_ hnotices hbehind'
      rw [hb.entries, he, hn, if_pos hk, List.replicate_succ']
      rfl
    · have hpending : (s.move m).pending targets = s.pending targets := by
        refine List.countP_congr fun i hi => ?_
        rcases eq_or_ne i k with rfl | hne
        · have hend : s.outcome i ≠ none := fun hnone => hk ⟨hi, hnone⟩
          simp [hr, hend]
        · rw [hb.outcome i hne]
      rw [← hpending] at hc hpos
      refine .waiting (hb.call.trans hc) hpos ?_ hnotices hbehind'
      rw [hb.entries, he, hn, if_neg hk]
      exact List.append_nil _
  | done hc hs hn hend =>
    have hentries : (s.move m).entries c = s.entries c := by
      rw [hb.entries, hn]
      exact List.append_nil _
    refine .done (hb.call.trans hc) (hentries ▸ hs) (fun i => ?_) (ended_move hp hend m)
    rw [hb.notices, hn, ite_self]

section Turn

variable {h : Handle} {n left : Nat}

theorem handle_gather_last (hc : s.calls[c]? = some { want := .jobs 1 }) :
    s.handle (.gather c) = (s.setCall c { want := .jobs 0 }).post (.caller c) := by
  simp [handle, hc]

theorem handle_gather (hc : s.calls[c]? = some { want := .jobs (left + 1) }) (hleft : left ≠ 0) :
    s.handle (.gather c) = s.setCall c { want := .jobs left } := by
  simp [handle, hc, hleft]

/-- The call is told the end of the last of its jobs: all of them have been dropped by then. -/
theorem Gathers.turn_last (hq : s.queue.head? = some (.gather c))
    (hc : s.calls[c]? = some { want := .jobs 1 }) (he : s.entries c = [.gather c])
    (hpending : s.pending targets = 0)
    (hn : ∀ i, s.notices i c = if i ∈ targets ∧ s.outcome i = none then [.gather c] else [])
    (hbehind : ∀ i ∈ targets, Behind s i (.gather c)) :
    Gathers (s.popped.handle (.gather c)) c targets := by
  have hcall : s.popped.calls[c]? = some { want := .jobs 1 } := hc
  have hend : ∀ i ∈ targets, i < s.jobs.length ∧ i ∉ s.active ∧ s.outcome i ≠ none := by
    intro i hi
    have hi' : s.outcome i ≠ none := by
      simpa using List.countP_eq_zero.1 hpending i hi
    obtain ⟨j, hj, -⟩ := hbehind i hi
    exact ⟨(List.getElem?_eq_some_iff.1 hj).1,
      not_active_of_head (hbehind i hi) hi' rfl hq rfl he, hi'⟩
  have hentries := entries_popped hq rfl
  rw [he] at hentries
  have hnil : (s.popped.setCall c { want := .jobs 0 }).entries c = [] :=
    (List.cons.inj hentries).2.symm
  rw [handle_gather_last hcall]
  refine .done (calls_setCall hcall) (.inl ⟨rfl, ?_⟩) (fun i => ?_) hend
  · simp [entries_post, Handle.call?, hnil]
  · refine (hn i).trans (if_neg ?_)
    rintro ⟨hi, hnone⟩
    exact (hend i hi).2.2 hnone

/-- The call has its turn. -/
theorem Gathers.turn_caller (hq : s.queue.head? = some h) (hh : h.call? = some c)
    (hc : s.calls[c]? = some { want := .jobs 0 }) (he : s.entries c = [.caller c])
    (hn : ∀ i, s.notices i c = [])
    (hend : ∀ i ∈ targets, i < s.jobs.length ∧ i ∉ s.active ∧ s.outcome i ≠ none) :
    Gathers (s.popped.handle h) c targets := by
  have hentries := entries_popped hq hh
  rw [he] at hentries
  obtain ⟨rfl, hrest⟩ := List.cons.inj hentries
  have hcall : s.popped.calls[c]? = some { want := .jobs 0 } := hc
  rw [handle_caller hcall]
  exact .done (calls_setCall hcall) (.inr ⟨rfl, hrest.symm⟩) hn hend

/-- A turn of an entry that concerns the call. -/
theorem Gathers.turn (hp : ∀ i, s.Placed i) (ht : Tracked s) (hq : s.queue.head? = some h)
    (hh : h.call? = some c) (hm : s.move .turn = s.popped.handle h) (hg : Gathers s c targets) :
    Gathers (s.move .turn) c targets := by
  have hentries := entries_popped hq hh
  cases hg with
  | @waiting n hc hpos he hn hbehind =>
    cases n with
    | zero =>
      rw [he] at hentries
      cases hentries
    | succ n =>
      have hbehind' : ∀ i ∈ targets, Behind (s.move .turn) i (.gather c) :=
        fun i hi => (hbehind i hi).move hp ht (by simp) .turn
      rw [he, List.replicate_succ] at hentries
      obtain ⟨rfl, hrest⟩ := List.cons.inj hentries
      rw [Nat.add_right_comm] at hc
      by_cases hlast : n + s.pending targets = 0
      · obtain ⟨rfl, hpending⟩ := Nat.add_eq_zero_iff.1 hlast
        rw [hpending] at hc
        exact hm ▸ .turn_last hq hc he hpending hn hbehind
      · have hcall : s.popped.calls[c]? = some { want := .jobs (n + s.pending targets + 1) } := hc
        rw [hm, handle_gather hcall hlast] at hbehind' ⊢
        exact .waiting (calls_setCall hcall) (Nat.pos_of_ne_zero hlast) hrest.symm hn hbehind'
  | done hc hs hn hend =>
    rcases hs with ⟨rfl, he⟩ | ⟨rfl, he⟩
    · exact hm ▸ .turn_caller hq hh hc he hn hend
    · rw [he] at hentries
      cases hentries

end Turn

theorem Gathers.call (h : Gathers s c targets) :
    ∃ n state, s.calls[c]? = some ⟨.jobs n, state⟩ := by
  cases h with
  | waiting hc => exact ⟨_, _, hc⟩
  | done hc => exact ⟨_, _, hc⟩

theorem Gathers.lt (h : Gathers s c targets) : c < s.calls.length := by
  obtain ⟨n, state, hc⟩ := h.call
  exact (List.getElem?_eq_some_iff.1 hc).1

/-- What every move makes of a call that waits for several jobs. -/
theorem Gathers.move (hp : ∀ i, s.Placed i) (ht : Tracked s) (hnodup : targets.Nodup)
    (ha : s.alarms c = 0) (h : Gathers s c targets) (m : Move) : Gathers (s.move m) c targets := by
  by_cases hserved : s.served m c
  · rcases served_cases h.lt hserved with
      ⟨e, rfl, hq, hh, hm⟩ | ⟨t, hmem, -, hw, -⟩ | rfl
    · exact h.turn hp ht hq hh hm
    · have hpos : 0 < s.alarms c := List.countP_pos_iff.2 ⟨t, hmem, by simp [hw]⟩
      omega
    · obtain ⟨n, state, hc⟩ := h.call
      have hmove : s.move (.abandon c) = s := by simp [Scheduler.move, abandon, hc]
      rwa [hmove]
  · rcases beside_or_notified hp hserved with hb | ⟨k, hb⟩
    · exact h.beside hp ht hb
    · exact h.notified hp ht hnodup hb

end Scheduler

end PartScan
