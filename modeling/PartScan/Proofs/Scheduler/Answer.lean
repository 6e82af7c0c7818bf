import PartScan.Proofs.Scheduler.Wait

/-! # Answers to waits

Over a whole run a wait is answered in one of three ways: its caller has given it up, its time limit
has passed while the job had not ended, or else with the result of the job.
-/

namespace PartScan

namespace Scheduler

variable {s : Scheduler} {c i : Nat} {m : Move} {p p' : Phase} {late given : Prop}

/-- Whether the time limit of a wait passes in a run while its job has not ended. -/
def Lapses (s : Scheduler) (c i : Nat) : List Move → Prop
  | [] => False
  | m :: ms => s.Expires c i m ∨ Lapses (s.move m) c i ms

/-- What the phase of a wait tells about its past: whether it is late and whether it was given
up. -/
def Told (late given : Prop) : Phase → Prop
  | .registered | .notified => ¬ late ∧ ¬ given
  | .due (.result _) => ¬ late
  | .due .timeout => late
  | .due .abandoned => given
  | .due .nothing => False

/-- The answers to a wait for a job with the given outcome. -/
inductive Answers (outcome : Option JobResult) (late given : Prop) : Reply → Prop
  | result {r : JobResult} (h : ¬ late) (hr : outcome = some r) :
      Answers outcome late given (.result r)
  | timeout (h : late) : Answers outcome late given .timeout
  | abandoned (h : given) : Answers outcome late given .abandoned

theorem Told.mono {late' given' : Prop} (hl : late' ↔ late) (hg : given' ↔ given)
    (h : Told late given p) : Told late' given' p := by
  rwa [propext hl, propext hg]

theorem Passes.told (hlt : c < s.calls.length) (h : Passes s c i m p p')
    (ht : Told late given p) : Told (late ∨ s.Expires c i m) (given ∨ m = .abandon c) p' := by
  have hbeside (hc : ¬ s.served m c) : ¬ s.Expires c i m ∧ m ≠ .abandon c := by
    constructor
    · rintro ⟨t, hmem, rfl, hw, -⟩
      exact hc ⟨hmem, hw⟩
    · rintro rfl
      exact hc ⟨rfl, hlt⟩
  cases h with
  | stays hc =>
    obtain ⟨hx, hg⟩ := hbeside hc
    exact ht.mono (or_iff_left hx) (or_iff_left hg)
  | notifies hc =>
    obtain ⟨hx, hg⟩ := hbeside hc
    exact Told.mono (p := .registered) (or_iff_left hx) (or_iff_left hg) ht
  | wakes hi =>
    rintro (hl | ⟨-, -, -, -, hnone⟩)
    · exact ht.1 hl
    · rw [hi] at hnone
      cases hnone
  | expires hx => exact .inr hx
  | givesUp hm => exact .inr hm
  | @keeps r hx =>
    cases r with
    | nothing => exact ht.elim
    | timeout => exact .inl ht
    | abandoned => exact .inl ht
    | result r =>
      rintro (hl | hx')
      · exact ht hl
      · rcases hx hx' with h | h <;> cases h

/-- What a run makes of a wait. -/
theorem At.moves (hp : ∀ k, s.Placed k) (hat : At s c i p) (ht : Told late given p)
    (ms : List Move) : ∃ p', At (s.moves ms) c i p' ∧
      Told (late ∨ s.Lapses c i ms) (given ∨ .abandon c ∈ ms) p' := by
  induction ms generalizing s p late given with
  | nil => exact ⟨p, hat, ht.mono (by simp [Lapses]) (by simp)⟩
  | cons m ms ih =>
    obtain ⟨p₁, hat₁, hpass⟩ := hat.move hp m
    obtain ⟨p₂, hat₂, ht₂⟩ := ih (moved hp m).placed hat₁ (hpass.told hat.lt ht)
    refine ⟨p₂, hat₂, ht₂.mono ?_ ?_⟩
    · rw [Lapses, or_assoc]
    · rw [List.mem_cons, or_assoc, eq_comm]

theorem At.answers {r : Reply} (hat : At s c i p) (ht : Told late given p)
    (h : s.reply? c = some r) : Answers (s.outcome i) late given r := by
  cases hat with
  | registered hc => simp [reply?, hc] at h
  | notified hc => simp [reply?, hc] at h
  | returning hc hs =>
    rcases hs with rfl | rfl | rfl
    · simp [reply?, hc] at h
    · simp [reply?, hc] at h
    · simp [reply?, hc] at h
  | @answered reply hc _ hr hne =>
    have hreply : reply = r := by simpa [reply?, hc] using h
    subst hreply
    cases reply with
    | nothing => exact ht.elim
    | result r => exact .result ht (hr r rfl)
    | timeout => exact .timeout ht
    | abandoned => exact .abandoned ht

/-- Where nothing is left in the queue, a wait is answered unless its job goes on. -/
theorem At.at_rest (hat : At s c i p) (hq : s.queue = []) (h : s.reply? c = none) :
    p = .registered ∧ s.outcome i = none := by
  have hentries : s.entries c = [] := by rw [entries, hq]; rfl
  cases hat with
  | registered _ hi => exact ⟨rfl, hi⟩
  | notified _ _ he =>
    rw [hentries] at he
    cases he
  | returning _ _ he =>
    rw [returns, hentries] at he
    cases he
  | answered hc => simp [reply?, hc] at h

theorem outcome_moves (hp : ∀ k, s.Placed k) {r : JobResult} (h : s.outcome i = some r)
    (ms : List Move) : (s.moves ms).outcome i = some r := by
  induction ms generalizing s with
  | nil => exact h
  | cons m ms ih => exact ih (moved hp m).placed (outcome_move hp h m)

/-- A wait returns once its job has ended, its limit has passed or it was given up. -/
theorem At.await (hp : ∀ k, s.Placed k) (hat : At s c i p) (ht : Told late given p)
    (h : s.outcome i ≠ none ∨ late ∨ given) : (s.await c).2 ≠ none := by
  intro hnone
  obtain ⟨ms, -, hms⟩ := exists_moves_runUntil (fun s => (s.reply? c).isSome) s
  have hreply : (s.moves ms).reply? c = none := hms.symm ▸ hnone
  have hturn : (s.moves ms).turn? = none := by
    have hstops := runUntil_stops (fun s => (s.reply? c).isSome) s
    rw [← hms, hreply] at hstops
    exact hstops.resolve_left (by simp)
  obtain ⟨p', hat', ht'⟩ := hat.moves hp ht ms
  obtain ⟨rfl, hi⟩ := hat'.at_rest (queue_of_turn?_eq_none hturn) hreply
  obtain ⟨hlate, hgiven⟩ := ht'
  rcases h with hend | hl | hg
  · obtain ⟨r, hr⟩ := Option.ne_none_iff_exists'.1 hend
    rw [outcome_moves hp hr ms] at hi
    cases hi
  · exact hlate (.inl hl)
  · exact hgiven (.inl hg)

/-- The limit of a wait no longer matters once the job has ended. -/
theorem not_lapses (hp : ∀ k, s.Placed k) {r : JobResult} (h : s.outcome i = some r)
    (ms : List Move) : ¬ s.Lapses c i ms := by
  induction ms generalizing s with
  | nil => exact id
  | cons m ms ih =>
    rintro (⟨-, -, -, -, hnone⟩ | hrest)
    · rw [h] at hnone
      cases hnone
    · exact ih (moved hp m).placed (outcome_move hp h m) hrest

/-- After the end of its job a wait returns with the result of the job, unless it is late or was
given up. -/
theorem At.answers_await (hp : ∀ k, s.Placed k) (hat : At s c i p) (ht : Told late given p)
    {r : JobResult} (h : s.outcome i = some r) :
    ∃ reply, (s.await c).2 = some reply ∧ Answers (some r) late given reply := by
  obtain ⟨ms, hown, hms⟩ := exists_moves_runUntil (fun s => (s.reply? c).isSome) s
  have hreply := hat.await hp ht (.inl (by simp [h]))
  obtain ⟨reply, hreply⟩ := Option.ne_none_iff_exists'.1 hreply
  obtain ⟨p', hat', ht'⟩ := hat.moves hp ht ms
  have hgiven : .abandon c ∉ ms := fun hmem => Bool.false_ne_true (hown _ hmem)
  have htold := ht'.mono (or_iff_left (not_lapses hp h ms)).symm (or_iff_left hgiven).symm
  refine ⟨reply, hreply, ?_⟩
  rw [← outcome_moves hp h ms]
  exact hat'.answers htold (hms ▸ hreply)

section Made

/-- Whether a wait is late from its beginning. -/
def Missed (s : Scheduler) (i : Nat) (limit : Option Rat) : Prop :=
  s.outcome i = none ∧ ∃ t, limit = some t ∧ t ≤ 0

theorem notices_addCallback {j : Job} (hj : s.jobs[i]? = some j) {b : Callback}
    (hb : b.call? = some c) (k : Nat) :
    (s.addCallback i b).notices k c = s.notices k c ++ if k = i then [b] else [] := by
  rw [notices, notices]
  show ((((s.jobs.modify i _)[k]?).map Job.callbacks).getD []).filter _ = _
  rw [List.getElem?_modify]
  rcases eq_or_ne i k with rfl | hk
  · simp [hj, hb]
  · simp [hk, hk.symm]

theorem wait_answered {j : Job} {r : JobResult} (hj : s.jobs[i]? = some j) (hr : j.result? = some r)
    {limit : Option Rat} (hl : ∀ t, limit = some t → t ≤ 0) :
    s.wait i limit = ((s.addCall ⟨.job i, .answered (.result r)⟩).1, some s.calls.length) := by
  cases limit with
  | none => simp [wait, hj, hr, addCall]
  | some t => simp [wait, hj, hr, addCall, hl t rfl]

theorem wait_woken {j : Job} {r : JobResult} (hj : s.jobs[i]? = some j) (hr : j.result? = some r)
    {t : Rat} (ht : ¬ t ≤ 0) :
    s.wait i (some t) =
      ((s.addCall ⟨.job i, .woken⟩).1.post (.hop s.calls.length 0), some s.calls.length) := by
  simp [wait, hj, hr, addCall, ht]

theorem wait_expired {j : Job} (hj : s.jobs[i]? = some j) (hr : j.result? = none)
    {t : Rat} (ht : t ≤ 0) :
    s.wait i (some t) =
      ((s.addCall ⟨.job i, .expired⟩).1.post (.hop s.calls.length 0), some s.calls.length) := by
  simp [wait, hj, hr, addCall, ht]

theorem wait_registered {j : Job} (hj : s.jobs[i]? = some j) (hr : j.result? = none)
    (limit : Option Rat) (hl : ∀ t, limit = some t → ¬ t ≤ 0) :
    ∃ hops, s.wait i limit =
      (((s.addCall { want := .job i }).1.addCallback i (.wake s.calls.length hops)).setTimer limit
        (.call s.calls.length), some s.calls.length) ∧ (limit = none → hops = 0) := by
  cases limit with
  | none => exact ⟨0, by simp [wait, hj, hr, addCall, setTimer], fun _ => rfl⟩
  | some t => exact ⟨1, by simp [wait, hj, hr, addCall, hl t rfl], by simp⟩

theorem at_registered (hu : Unmade s) {j : Job} (hj : s.jobs[i]? = some j) {hops : Nat}
    {limit : Option Rat} (hi : (((s.addCall { want := .job i }).1.addCallback i
      (.wake s.calls.length hops)).setTimer limit (.call s.calls.length)).outcome i = none) :
    At (((s.addCall { want := .job i }).1.addCallback i (.wake s.calls.length hops)).setTimer limit
      (.call s.calls.length)) s.calls.length i .registered := by
  obtain ⟨hentries, hnotices, -⟩ := hu s.calls.length (Nat.le_refl _)
  have hcall : (s.addCall { want := .job i }).1.calls[s.calls.length]? = some { want := .job i } :=
    List.getElem?_concat_length
  have hback (k : Nat) : ((s.addCall { want := .job i }).1.addCallback i
      (.wake s.calls.length hops)).notices k s.calls.length =
        if k = i then [.wake s.calls.length hops] else [] := by
    rw [notices_addCallback (s := (s.addCall { want := .job i }).1) hj rfl]
    exact congrArg (· ++ _) (hnotices k)
  cases limit with
  | none => exact .registered hcall hi hentries hback
  | some t => exact .registered hcall hi hentries hback

/-- What a wait has come to when it is made. -/
theorem at_wait (hu : Unmade s) {limit : Option Rat} (h : (s.wait i limit).2 = some c) :
    c = s.calls.length ∧
      ∃ p, At (s.wait i limit).1 c i p ∧ Told (s.Missed i limit) False p := by
  obtain ⟨hentries, hnotices, -⟩ := hu s.calls.length (Nat.le_refl _)
  have hzero (call : Call) : (s.addCall call).1.returns s.calls.length = 0 := by
    show (s.entries s.calls.length).countP _ = 0
    rw [hentries]
    rfl
  have hcall (call : Call) : (s.addCall call).1.calls[s.calls.length]? = some call :=
    List.getElem?_concat_length
  have hone (call : Call) :
      ((s.addCall call).1.post (.hop s.calls.length 0)).returns s.calls.length = 1 := by
    rw [returns_post, hzero, if_pos ⟨rfl, rfl⟩]
  cases hj : s.jobs[i]? with
  | none =>
    rw [wait_unknown hj] at h
    cases h
  | some j =>
    cases hr : j.result? with
    | some r =>
      have hi : s.outcome i = some r := by rw [outcome, hj, Option.bind_some, hr]
      have hmissed : ¬ s.Missed i limit := by
        rintro ⟨hnone, -⟩
        rw [hi] at hnone
        cases hnone
      by_cases hl : ∀ t, limit = some t → t ≤ 0
      · rw [wait_answered hj hr hl] at h ⊢
        cases h
        refine ⟨rfl, _, .answered (hcall _) (hzero _) ?_ (by simp), hmissed⟩
        rintro r' hr'
        cases hr'
        exact hi
      · obtain ⟨t, hl⟩ := not_forall.1 hl
        obtain ⟨rfl, ht⟩ := Classical.not_imp.1 hl
        rw [wait_woken hj hr ht] at h ⊢
        cases h
        exact ⟨rfl, _, .woken (hcall _) (hone _) hi, hmissed⟩
    | none =>
      have hi : s.outcome i = none := by rw [outcome, hj, Option.bind_some, hr]
      by_cases hl : ∀ t, limit = some t → ¬ t ≤ 0
      · obtain ⟨hops, hwait, -⟩ := wait_registered hj hr limit hl
        have hnone : (s.wait i limit).1.outcome i = none :=
          (Serves.wait (P := (· = s.calls.length)) s i limit rfl).outcome_eq_none hi
        rw [hwait] at h hnone ⊢
        cases h
        have hmissed : ¬ s.Missed i limit := by
          rintro ⟨-, t, ht, hle⟩
          exact hl t ht hle
        exact ⟨rfl, .registered, at_registered hu hj hnone, hmissed, id⟩
      · obtain ⟨t, hl⟩ := not_forall.1 hl
        obtain ⟨rfl, ht⟩ := Classical.not_imp.1 hl
        rw [not_not] at ht
        rw [wait_expired hj hr ht] at h ⊢
        cases h
        exact ⟨rfl, _, .expired (hcall _) (hone _), hi, t, rfl, ht⟩

end Made

end Scheduler

end PartScan
