import PartScan.Proofs.Scheduler.Service

/-! # Active jobs

A job is active from its start until the entry that drops it has had its turn, and that entry comes
into the queue when the job ends, in front of whatever else waits for the end.
-/

namespace PartScan

namespace Scheduler

variable {s s' : Scheduler} {i : Nat} {b : Callback}

/-- How often the entry that drops a job stands in the queue. -/
def discards (s : Scheduler) (i : Nat) : Nat := s.queue.count (.discard i)

/-- How a job is tracked, given whether it is active and how often the entry that drops it stands in
the queue. -/
def Tracking (j? : Option Job) (isActive : Prop) (n : Nat) : Prop :=
  match j? with
  | none => ¬ isActive ∧ n = 0
  | some j =>
    if j.isFinished then j.callbacks = [] ∧ (isActive ∧ n = 1 ∨ ¬ isActive ∧ n = 0)
    else isActive ∧ n = 0 ∧ ∃ bs, j.callbacks = .discard :: bs ∧ .discard ∉ bs

/-- The active jobs are those that have not ended and those that are still to be dropped. -/
structure Tracked (s : Scheduler) : Prop where
  nodup : s.active.Nodup
  tracking : ∀ i, Tracking s.jobs[i]? (i ∈ s.active) (s.discards i)

theorem count_discard_handle (i k : Nat) (bs : List Callback) :
    (bs.map (Callback.handle i)).count (.discard k) = if i = k then bs.count .discard else 0 := by
  induction bs with
  | nil => simp
  | cons b bs ih =>
    rw [List.map_cons, List.count_cons, ih]
    cases b with
    | discard =>
      by_cases hk : i = k
      · simp [Callback.handle, hk]
      · simp [Callback.handle, hk]
    | wake c hops => simp [Callback.handle]
    | gather c => simp [Callback.handle]

theorem discards_popped {h : Handle} (hq : s.queue.head? = some h) (i : Nat) :
    s.discards i = s.popped.discards i + if h = .discard i then 1 else 0 := by
  obtain ⟨rest, hrest⟩ := List.head?_eq_some_iff.1 hq
  by_cases hh : h = .discard i <;> simp [discards, popped, hrest, hh]

theorem discards_before {m : Move}
    (hd : ∀ i, m = .turn → s.queue.head? ≠ some (.discard i)) (i : Nat) :
    (s.before m).discards i = s.discards i := by
  cases m with
  | turn =>
    cases hq : s.queue.head? with
    | none =>
      rw [before, discards, popped, List.head?_eq_none_iff.1 hq, discards,
        List.head?_eq_none_iff.1 hq]
      rfl
    | some h =>
      have hne : h ≠ .discard i := by
        rintro rfl
        exact hd i rfl hq
      rw [discards_popped hq, if_neg hne]
      rfl
  | _ => rfl

section Tracked

theorem tracked_initial (settings : Settings) (sink : Sink) : Tracked (initial settings sink) :=
  ⟨List.nodup_nil, fun _ => ⟨List.not_mem_nil, rfl⟩⟩

theorem Tracked.lt (h : Tracked s) (hi : i ∈ s.active) : i < s.jobs.length := by
  by_contra hlt
  have hi' := h.tracking i
  rw [List.getElem?_eq_none (Nat.le_of_not_lt hlt)] at hi'
  exact hi'.1 hi

theorem Tracked.of_unfinished {j : Job} (h : Tracked s) (hj : s.jobs[i]? = some j)
    (hf : j.isFinished = false) :
    i ∈ s.active ∧ s.discards i = 0 ∧ ∃ bs, j.callbacks = .discard :: bs ∧ .discard ∉ bs := by
  have hi := h.tracking i
  rwa [hj, Tracking, if_neg (by simp [hf])] at hi

theorem Tracked.of_finished {j : Job} (h : Tracked s) (hj : s.jobs[i]? = some j)
    (hf : j.isFinished = true) :
    j.callbacks = [] ∧ (i ∈ s.active ∧ s.discards i = 1 ∨ i ∉ s.active ∧ s.discards i = 0) := by
  have hi := h.tracking i
  rwa [hj, Tracking, if_pos hf] at hi

theorem Tracked.mem_iff {j : Job} (h : Tracked s) (hj : s.jobs[i]? = some j)
    (hf : j.isFinished = true) : i ∈ s.active ↔ .discard i ∈ s.queue := by
  rw [← List.count_pos_iff (a := Handle.discard i)]
  rcases (h.of_finished hj hf).2 with ⟨hi, hn⟩ | ⟨hi, hn⟩
  · exact iff_of_true hi (Nat.lt_of_lt_of_eq Nat.one_pos hn.symm)
  · exact iff_of_false hi (Nat.not_lt.2 (Nat.le_of_eq hn))

theorem tracking_of_rel {P : Nat → Prop} {a b : Option Job} {p : Prop} {n : Nat}
    (h : Option.Rel (Job.Grown P) a b) (ha : Tracking a p n) : Tracking b p n := by
  cases h with
  | none => exact ha
  | @some j j' h =>
    rw [Tracking] at ha ⊢
    obtain ⟨bs, hbs, hd, hf, -⟩ := h.callbacks
    rw [h.isFinished]
    split
    · rename_i hj
      rw [if_pos hj] at ha
      rwa [hbs, hf hj, List.append_nil]
    · rename_i hj
      rw [if_neg hj] at ha
      obtain ⟨hact, hzero, bs', hbs', hd'⟩ := ha
      exact ⟨hact, hzero, bs' ++ bs, by rw [hbs, hbs', List.cons_append], by simp [hd, hd']⟩

theorem Serves.tracked {P : Nat → Prop} (h : Serves P s s') (ht : Tracked s) : Tracked s' := by
  obtain ⟨hs, hq, hd, -⟩ := h.queue
  refine ⟨h.active ▸ ht.nodup, ?_⟩
  intro i
  have hcount : s'.discards i = s.discards i := by
    rw [discards, hq, List.count_append, List.count_eq_zero.2 (hd i)]
    rfl
  rw [h.active, hcount]
  exact tracking_of_rel (h.jobs i) (ht.tracking i)

theorem tracked_start (ht : Tracked s) (e : List Char) : Tracked (s.move (.start e)) := by
  have hnew : s.jobs.length ∉ s.active := fun hmem => Nat.lt_irrefl _ (ht.lt hmem)
  have hcount (i : Nat) : (s.move (.start e)).discards i = s.discards i := by
    simp [move, start, record, post, discards, List.count_append]
  constructor
  · show (s.active ++ [s.jobs.length]).Nodup
    rw [List.nodup_append]
    refine ⟨ht.nodup, by simp, ?_⟩
    rintro i hi k hk rfl
    rw [List.mem_singleton] at hk
    exact hnew (hk ▸ hi)
  · intro i
    have hi := ht.tracking i
    rw [hcount]
    show Tracking (s.jobs ++ [{ expression := e }])[i]? (i ∈ s.active ++ [s.jobs.length]) _
    rcases Nat.lt_trichotomy i s.jobs.length with hlt | rfl | hgt
    · rw [List.getElem?_append_left hlt]
      simpa [Nat.ne_of_lt hlt] using hi
    · rw [List.getElem?_eq_none (Nat.le_refl _)] at hi
      rw [List.getElem?_concat_length]
      exact ⟨by simp, hi.2, [], rfl, by simp⟩
    · rw [List.getElem?_eq_none (Nat.le_of_lt hgt)] at hi
      rw [List.getElem?_eq_none (by simp; omega)]
      exact ⟨by simpa [Nat.ne_of_gt hgt] using hi.1, hi.2⟩

theorem tracked_discard (ht : Tracked s) {i : Nat} (hq : s.queue.head? = some (.discard i)) :
    Tracked (s.move .turn) := by
  have hmove : s.move .turn = { s.popped with active := s.active.filter (· ≠ i) } := by
    simp [move, hq, handle, popped]
  rw [hmove]
  constructor
  · exact ht.nodup.filter _
  · intro k
    have hk := ht.tracking k
    show Tracking s.jobs[k]? (k ∈ s.active.filter (· ≠ i)) (s.popped.discards k)
    rw [discards_popped hq] at hk
    rcases eq_or_ne k i with rfl | hne
    · rw [if_pos rfl] at hk
      -- only a job that has ended is dropped, and it was active until now
      cases hj : s.jobs[k]? with
      | none =>
        rw [hj] at hk
        exact absurd hk.2 (Nat.succ_ne_zero _)
      | some j =>
        rw [hj, Tracking] at hk
        rw [Tracking]
        split at hk
        · rename_i hf
          rw [if_pos hf]
          refine ⟨hk.1, .inr ⟨by simp, ?_⟩⟩
          omega
        · omega
    · have hhead : Handle.discard i ≠ .discard k := by
        rintro ⟨⟩
        exact hne rfl
      rw [if_neg hhead, Nat.add_zero] at hk
      simpa [hne] using hk

theorem tracked_finish {j : Job} {es : List Entry} {r : JobResult} (ht : Tracked s)
    (hq : s.queue.head? = some (.step i)) (hj : s.jobs[i]? = some j) (hf : j.isFinished = false) :
    Tracked ((s.popped.recordAll es).finish i j r) := by
  obtain ⟨hact, hzero, bs, hbs, hd⟩ := ht.of_unfinished hj hf
  have hpopped (k : Nat) : s.popped.discards k = s.discards k := by
    rw [discards_popped hq, if_neg (by simp), Nat.add_zero]
  have hcount (k : Nat) : ((s.popped.recordAll es).finish i j r).discards k =
      s.discards k + if i = k then 1 else 0 := by
    have hone : j.callbacks.count .discard = 1 := by simp [hbs, List.count_eq_zero.2 hd]
    show (s.popped.queue ++ j.callbacks.map (Callback.handle i)).count _ = _
    rw [List.count_append, count_discard_handle, hone, ← hpopped]
    rfl
  refine ⟨ht.nodup, ?_⟩
  intro k
  rw [hcount]
  show Tracking (s.jobs.set i _)[k]? (k ∈ s.active) _
  rcases eq_or_ne k i with rfl | hne
  · rw [List.getElem?_set_self (List.getElem?_eq_some_iff.1 hj).1, if_pos rfl, hzero]
    exact ⟨rfl, .inl ⟨hact, rfl⟩⟩
  · rw [List.getElem?_set_ne hne.symm, if_neg hne.symm]
    exact ht.tracking k

theorem tracked_before (ht : Tracked s) {m : Move}
    (hd : ∀ i, m = .turn → s.queue.head? ≠ some (.discard i)) : Tracked (s.before m) := by
  have hactive : (s.before m).active = s.active := by cases m <;> rfl
  have hjobs : (s.before m).jobs = s.jobs := by cases m <;> rfl
  refine ⟨hactive ▸ ht.nodup, ?_⟩
  intro i
  rw [hjobs, hactive, discards_before hd]
  exact ht.tracking i

theorem Tracked.move (hp : ∀ i, s.Placed i) (ht : Tracked s) (m : Move) : Tracked (s.move m) := by
  cases acts hp m with
  | starts e => exact tracked_start ht e
  | drops hq => exact tracked_discard ht hq
  | ends hq hj hf _ hm => exact hm ▸ tracked_finish ht hq hj hf
  | serves _ hd h => exact h.tracked (tracked_before ht hd)

theorem tracked_after (settings : Settings) (sink : Sink) (ms : List Move) :
    Tracked (after settings sink ms) := by
  refine (after_induction (P := fun s => (∀ i, s.Placed i) ∧ Tracked s)
    ⟨placed_initial settings sink, tracked_initial settings sink⟩ ?_ ms).2
  rintro s m ⟨hp, ht⟩
  exact ⟨(moved hp m).placed, ht.move hp m⟩

theorem length_jobs_le_move (hp : ∀ i, s.Placed i) (m : Move) :
    s.jobs.length ≤ (s.move m).jobs.length := by
  have h := congrArg List.length (moved hp m).expressions
  simp only [List.length_map, List.length_append] at h
  omega

/-- A job that was dropped never becomes active again. -/
theorem not_active_move (hp : ∀ i, s.Placed i) (hlt : i < s.jobs.length) (hi : i ∉ s.active)
    (m : Move) : i ∉ (s.move m).active := by
  cases acts hp m with
  | starts e =>
    show i ∉ s.active ++ [s.jobs.length]
    simp [hi, Nat.ne_of_lt hlt]
  | @drops k hq =>
    have hmove : s.move .turn = { s.popped with active := s.active.filter (· ≠ k) } := by
      simp [Scheduler.move, hq, handle, popped]
    rw [hmove]
    exact fun hmem => hi (List.mem_of_mem_filter hmem)
  | ends hq hj hf _ hm =>
    rw [hm]
    exact hi
  | serves _ _ h =>
    have hactive : (s.before m).active = s.active := by cases m <;> rfl
    rwa [h.active, hactive]

theorem not_active_moves (hp : ∀ i, s.Placed i) (hlt : i < s.jobs.length) (hi : i ∉ s.active)
    (ms : List Move) : i ∉ (s.moves ms).active := by
  induction ms generalizing s with
  | nil => exact hi
  | cons m ms ih =>
    exact ih (moved hp m).placed (Nat.lt_of_lt_of_le hlt (length_jobs_le_move hp m))
      (not_active_move hp hlt hi m)

end Tracked

/-- What is to follow the end of a job does not have its turn before the job is dropped. -/
def Behind (s : Scheduler) (i : Nat) (b : Callback) : Prop :=
  ∃ j, s.jobs[i]? = some j ∧ (j.isFinished = false → b ∈ j.callbacks) ∧
    (j.isFinished = true → i ∈ s.active → [.discard i, b.handle i].Sublist s.queue)

theorem pair_sublist_tail {α : Type} {a b : α} {l : List α} (h : [a, b].Sublist l)
    (hh : l.head? ≠ some a) : [a, b].Sublist l.tail := by
  cases h with
  | cons _ h => exact h
  | cons_cons _ _ => exact absurd rfl hh

theorem behind_addCallback {j : Job} (hj : s.jobs[i]? = some j) (hf : j.isFinished = false)
    (b : Callback) : Behind (s.addCallback i b) i b := by
  have hj' : (s.addCallback i b).jobs[i]? = some { j with callbacks := j.callbacks ++ [b] } := by
    show (s.jobs.modify i _)[i]? = _
    simp [hj]
  have hf' : Job.isFinished { j with callbacks := j.callbacks ++ [b] } = false := hf
  refine ⟨_, hj', fun _ => by simp, fun hfin => ?_⟩
  rw [hf'] at hfin
  cases hfin

theorem behind_start (e : List Char) (h : Behind s i b) : Behind (s.move (.start e)) i b := by
  obtain ⟨j, hj, hf, hd⟩ := h
  have hlt := (List.getElem?_eq_some_iff.1 hj).1
  refine ⟨j, (List.getElem?_append_left hlt).trans hj, hf, ?_⟩
  intro hfin hmem
  rcases List.mem_append.1 hmem with hact | hlen
  · exact (hd hfin hact).trans (List.sublist_append_left _ _)
  · exact absurd (List.mem_singleton.1 hlen) (Nat.ne_of_lt hlt)

theorem behind_discard {k : Nat} (hq : s.queue.head? = some (.discard k)) (h : Behind s i b) :
    Behind (s.move .turn) i b := by
  have hmove : s.move .turn = { s.popped with active := s.active.filter (· ≠ k) } := by
    simp [move, hq, handle, popped]
  obtain ⟨j, hj, hf, hd⟩ := h
  rw [hmove]
  refine ⟨j, hj, hf, ?_⟩
  intro hfin hmem
  obtain ⟨hact, hne⟩ := List.mem_filter.1 hmem
  refine pair_sublist_tail (hd hfin hact) ?_
  rw [hq]
  rintro ⟨⟩
  simp at hne

theorem behind_finish {k : Nat} {j : Job} {es : List Entry} {r : JobResult} (ht : Tracked s)
    (hq : s.queue.head? = some (.step k)) (hj : s.jobs[k]? = some j) (hf : j.isFinished = false)
    (hb : b ≠ .discard) (h : Behind s i b) :
    Behind ((s.popped.recordAll es).finish k j r) i b := by
  obtain ⟨j', hj', hf', hd'⟩ := h
  rcases eq_or_ne i k with rfl | hne
  · rw [hj] at hj'
    cases hj'
    refine ⟨_, List.getElem?_set_self (List.getElem?_eq_some_iff.1 hj).1, ?_, ?_⟩
    · intro hfin
      cases hfin
    · rintro - -
      obtain ⟨-, -, bs, hbs, -⟩ := ht.of_unfinished hj hf
      have hmem : b ∈ bs := by
        have := hf' hf
        rw [hbs] at this
        exact (List.mem_cons.1 this).resolve_left hb
      -- the entry that drops the job is the first of those that follow its end
      show List.Sublist _ (s.popped.queue ++ j.callbacks.map (Callback.handle i))
      rw [hbs, List.map_cons]
      refine .trans (.cons_cons _ ?_) (List.sublist_append_right _ _)
      exact List.singleton_sublist.2 (List.mem_map_of_mem hmem)
  · refine ⟨j', (List.getElem?_set_ne hne.symm).trans hj', hf', ?_⟩
    intro hfin hact
    refine (pair_sublist_tail (hd' hfin hact) ?_).trans (List.sublist_append_left _ _)
    rw [hq]
    rintro ⟨⟩

theorem behind_before {m : Move} (hd : ∀ i, m = .turn → s.queue.head? ≠ some (.discard i))
    (h : Behind s i b) : Behind (s.before m) i b := by
  cases m with
  | turn =>
    obtain ⟨j, hj, hf, hpair⟩ := h
    exact ⟨j, hj, hf, fun hfin hact => pair_sublist_tail (hpair hfin hact) (hd i rfl)⟩
  | _ => exact h

theorem Serves.behind {P : Nat → Prop} (h : Serves P s s') (hb : Behind s i b) :
    Behind s' i b := by
  obtain ⟨j, hj, hf, hd⟩ := hb
  obtain ⟨hs, hq, -⟩ := h.queue
  have hrel := h.jobs i
  rw [hj] at hrel
  generalize hj' : s'.jobs[i]? = j? at hrel
  cases hrel with
  | @some _ j' hg =>
    obtain ⟨bs, hbs, -⟩ := hg.callbacks
    refine ⟨j', hj', ?_, ?_⟩
    · intro hfin
      rw [hbs]
      exact List.mem_append_left _ (hf (hg.isFinished ▸ hfin))
    · intro hfin hact
      rw [hq]
      exact (hd (hg.isFinished ▸ hfin) (h.active ▸ hact)).trans (List.sublist_append_left _ _)

theorem Behind.move (hp : ∀ i, s.Placed i) (ht : Tracked s) (hb : b ≠ .discard)
    (h : Behind s i b) (m : Move) : Behind (s.move m) i b := by
  cases acts hp m with
  | starts e => exact behind_start e h
  | drops hq => exact behind_discard hq h
  | ends hq hj hf _ hm => exact hm ▸ behind_finish ht hq hj hf hb h
  | serves _ hd hs => exact hs.behind (behind_before hd h)

end Scheduler

end PartScan
