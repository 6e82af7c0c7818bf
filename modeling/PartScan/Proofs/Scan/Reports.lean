import PartScan.Proofs.Scan.Progress
import PartScan.Proofs.Scan.Siblings

/-! # Reports of a scan

What a resumption reports depends only on the character behind which the scan was suspended. Inside
a group nothing is reported; outside of groups it is the character, or the parenthesis that opens
the group that the character closes.
-/

namespace PartScan

open Number

/-- Where the step of the whole expression's level begins that ends with the character at `c`: at
the parenthesis that opens the group closed there, or at the character itself. -/
def stepOffset (p : Pairing) (e : List Char) (c : Nat) : Nat := (groupStart? p e c).getD c

/-- What the resumption reports that follows the suspension behind the character at `c`. -/
def stepReport (p : Pairing) (e : List Char) (c : Nat) : List Notice :=
  if inGroup p e c then [] else [.progress (percentOf (stepOffset p e c) e.length)]

variable {rules : Rules} {p : Pairing} {e : List Char} {l m : Level} {outer : List Level}
  {c k n o : Nat} {rest : List Char}

/-- The groups around the offset are those of the inner levels, and what is entered is a group. -/
structure Spans (p : Pairing) (e : List Char) (l : Level) (outer : List Level) : Prop where
  stacked : Stacked e l outer
  inside : outer ≠ [] ↔ ∃ o < l.offset, ∃ j, mate? p e o = some j ∧ l.offset ≤ j
  ahead : ∀ {rest k}, l.remaining = '(' :: rest → p.closing l.remaining = some k →
    mate? p e l.offset = some (l.offset + k)

theorem Nests.spans {d : Nat} (h : Nests d e l outer) : Spans .nested e l outer where
  stacked := h.stacked
  inside := by
    have hlen := length_openings l outer
    rw [← h.openBefore_eq] at hlen
    rw [← List.length_pos_iff, ← hlen, List.length_pos_iff_exists_mem]
    simp only [openBefore, List.mem_filter, List.mem_range, Option.any_eq_true, decide_eq_true_eq]
    rfl
  ahead hr hk := (h.closing_eq_some_iff hr).1 hk

theorem Siblings.spans (h : Siblings e l outer) : Spans .first e l outer where
  stacked := h.stacked
  inside := by
    constructor
    · intro hne
      obtain ⟨m, rest, rfl⟩ := List.exists_cons_of_ne_nil hne
      obtain ⟨-, hpos, hopen, -⟩ := h.alone m rest rfl
      have hle : l.offset ≤ l.stop := Nat.add_le_add_left h.stacked.index_le l.base
      refine ⟨l.base - 1, by unfold Level.offset; omega, l.stop, ?_, hle⟩
      exact follower?_eq_some_iff.2 ⟨hopen, by unfold Level.stop; omega, h.stacked.getElem_stop,
        fun i hi hstop => h.between i hstop hi⟩
    · rintro ⟨o, ho, j, hj, hle⟩ rfl
      obtain ⟨hopen, -, -, hfree⟩ := follower?_eq_some_iff.1 hj
      obtain ⟨i, hi, hoi, hclose⟩ := h.closed rfl o ho hopen
      exact hfree i hoi (Nat.lt_of_lt_of_le hi hle) hclose
  ahead {rest k} hr hk := by
    obtain ⟨hclose, hfree⟩ := Pairing.firstClosing_eq_some_iff.1 hk
    have hlt : k < l.remaining.length := Pairing.closing_lt hk
    refine follower?_eq_some_iff.2 ⟨h.stacked.getElem_offset hr,
      Nat.lt_add_of_pos_right (Pairing.closing_pos (p := .first) (hr ▸ hk)),
      (h.stacked.getElem_remaining hlt).trans hclose, fun i hi hik hget => ?_⟩
    obtain ⟨i, rfl⟩ := Nat.exists_eq_add_of_lt hi
    rw [Nat.add_assoc] at hik hget
    have hik : i + 1 < k := Nat.lt_of_add_lt_add_left hik
    rw [h.stacked.getElem_remaining (hik.trans hlt)] at hget
    exact hfree (i + 1) hik hget

theorem stepOffset_eq_self (h : ∀ i < c, mate? p e i ≠ some c) : stepOffset p e c = c := by
  have hnone : groupStart? p e c = none := by
    simpa [groupStart?] using h
  rw [stepOffset, hnone]
  rfl

theorem stepOffset_eq (ho : mate? p e o = some c) (h : ∀ i < o, mate? p e i ≠ some c) :
    stepOffset p e c = o := by
  have hsome : groupStart? p e c = some o := by
    simp only [groupStart?, List.find?_range_eq_some, decide_eq_true_eq, List.mem_range,
      Bool.not_eq_true', decide_eq_false_iff_not]
    exact ⟨ho, lt_of_mate? ho, h⟩
  rw [stepOffset, hsome]
  rfl

/-- The latest step of the whole expression's level began where the character in front of its
offset says, also while a group in that step is still scanned. -/
def Marked (p : Pairing) (e : List Char) (l : Level) (outer : List Level) : Prop :=
  0 < (bottom l outer).offset →
    (bottom l outer).step = stepOffset p e ((bottom l outer).offset - 1)

/-- No group around the level of the whole expression is closed at its offset or behind it. -/
theorem Spans.mate?_ne (h : Spans p e l []) (hc : l.offset ≤ c) :
    ∀ i < l.offset, mate? p e i ≠ some c :=
  fun i hi hmate => h.inside.2 ⟨i, hi, c, hmate, hc⟩ rfl

theorem Spans.offset_eq (h : Spans p e l []) : l.offset = l.index := by
  rw [Level.offset, h.stacked.base_eq_zero, Nat.zero_add]

/-- Reading a character that opens no group marks it. -/
theorem Marked.step {l' : Level} (h : Marked p e l outer) (hs : Spans p e l outer)
    (hstep : l'.step = l.index) (ho : l'.offset = l.offset + 1) : Marked p e l' outer := by
  cases outer with
  | nil =>
    intro _
    rw [bottom, hstep, ho, Nat.add_sub_cancel, stepOffset_eq_self (hs.mate?_ne le_rfl),
      hs.offset_eq]
  | cons m outer => exact h

theorem Marked.enter (h : Marked p e l outer) (hs : Spans p e l outer)
    (hr : l.remaining = '(' :: rest) (hk : p.closing l.remaining = some k) :
    Marked p e (l.group k) (l.passGroup k :: outer) := by
  cases outer with
  | nil =>
    intro _
    -- no parenthesis in front is closed where this one is, since no group is around it
    have hstep : stepOffset p e (l.offset + k) = l.offset :=
      stepOffset_eq (hs.ahead hr hk) (hs.mate?_ne (Nat.le_add_right _ _))
    rw [bottom, bottom, Level.offset_passGroup, Nat.add_sub_cancel, hstep, hs.offset_eq]
    rfl
  | cons m outer => exact h

/-- Levels that span the groups have their steps marked. -/
theorem Kept.marked {I : Level → List Level → Prop} (hI : Kept rules I)
    (hs : ∀ {l outer}, I l outer → Spans rules.pairing e l outer) :
    Kept rules fun l outer => I l outer ∧ Marked rules.pairing e l outer where
  read h hr hc hw := ⟨hI.read h.1 hr hc hw, h.2.step (hs h.1) rfl (Level.offset_read _ _)⟩
  skip h hr hc hw := ⟨hI.skip h.1 hr hc hw, h.2.step (hs h.1) rfl (Level.offset_skip _ _)⟩
  enter h hr hk hd := ⟨hI.enter h.1 hr hk hd, h.2.enter (hs h.1) hr hk⟩
  leave {l m outer} h hr := by
    refine ⟨hI.leave h.1 hr, ?_⟩
    -- the level of the whole expression comes back as it was left
    cases outer with
    | nil => exact h.2
    | cons m' outer => exact h.2

/-- Every scan goes through levels that span the groups as its rules pair them. -/
theorem exists_kept_spans (rules : Rules) (e : List Char) : ∃ I, Kept rules I ∧
    I { base := 0, text := e } [] ∧ ∀ l outer, I l outer → Spans rules.pairing e l outer := by
  cases hp : rules.pairing with
  | nested => exact ⟨_, Nests.kept hp e, .start _ e, fun l outer h => h.spans⟩
  | first => exact ⟨_, Siblings.kept hp e, .start e, fun l outer h => h.spans⟩

/-- Behind a character that opens nothing, the levels are inner ones inside a group only. -/
theorem Spans.inGroup_iff (h : Spans p e l outer) (ho : l.offset = c + 1)
    (hc : e[c]? ≠ some '(') : inGroup p e c = true ↔ outer ≠ [] := by
  rw [PartScan.inGroup_iff, h.inside, ho]
  constructor
  · rintro ⟨o, j, hj, hoc, hcj⟩
    exact ⟨o, Nat.lt_succ_of_lt hoc, j, hj, hcj⟩
  · rintro ⟨o, hoc, j, hj, hcj⟩
    refine ⟨o, j, hj, Nat.lt_of_le_of_ne (Nat.le_of_lt_succ hoc) ?_, hcj⟩
    rintro rfl
    exact hc (opens_of_mate? hj)

theorem Spans.report_eq (h : Spans p e l outer) (hm : Marked p e l outer)
    (ho : l.offset = c + 1) (hc : e[c]? ≠ some '(') :
    (Scan.suspended rules e l outer).report = stepReport p e c := by
  have hin := h.inGroup_iff ho hc
  cases outer with
  | nil =>
    have hstep : l.step = stepOffset p e c := by
      have := hm (by rw [bottom, ho]; exact Nat.succ_pos c)
      rwa [bottom, ho] at this
    rw [stepReport, if_neg (by simpa using hin), Scan.report, if_pos rfl, hstep]
  | cons m outer =>
    rw [stepReport, if_pos (hin.2 (List.cons_ne_nil _ _)), Scan.report,
      if_neg (List.cons_ne_nil _ _)]

/-- The resumptions report what the characters behind which the scan is suspended say. -/
theorem Scan.map_report {s : Scan} (h : s.At rules e { base := 0, text := e } [])
    (hmap : s.suspensions.map Scan.offset = (pauses e 0 n).map (· + 1)) :
    s.suspensions.map Scan.report = (pauses e 0 n).map (stepReport rules.pairing e) := by
  obtain ⟨I, hI, hstart, hspans⟩ := exists_kept_spans rules e
  have hmarked : Marked rules.pairing e { base := 0, text := e } [] :=
    fun hpos => absurd hpos (Nat.lt_irrefl 0)
  have hreport : ∀ t ∈ s.suspensions, t.report = stepReport rules.pairing e (t.offset - 1) := by
    intro t ht
    obtain ⟨l, outer, rfl, hl, hm⟩ :=
      h.mem_suspensions (hI.marked fun hl => hspans _ _ hl) ⟨hstart, hmarked⟩ ht
    have hmem := List.mem_map_of_mem (f := Scan.offset) ht
    rw [hmap] at hmem
    obtain ⟨c, hc, ho⟩ := List.mem_map.1 hmem
    have hother : e[c]? ≠ some '(' := by simpa using (List.mem_filter.1 hc).2
    rw [← ho, Nat.add_sub_cancel]
    exact (hspans _ _ hl).report_eq hm ho.symm hother
  calc s.suspensions.map Scan.report
      = (s.suspensions.map Scan.offset).map fun n => stepReport rules.pairing e (n - 1) := by
        rw [List.map_map]
        exact List.map_congr_left hreport
    _ = (pauses e 0 n).map (stepReport rules.pairing e) := by
        rw [hmap, List.map_map]
        rfl

theorem length_pauses (e : List Char) : (pauses e 0 e.length).length + e.count '(' = e.length := by
  rw [pauses, List.Ico.zero_bot]
  induction e with
  | nil => rfl
  | cons c e ih =>
    have htail : ((List.range e.length).map Nat.succ).filter
        (fun i => decide ((c :: e)[i]? ≠ some '(')) =
          ((List.range e.length).filter fun i => decide (e[i]? ≠ some '(')).map Nat.succ := by
      rw [List.filter_map]
      rfl
    rw [List.length_cons, List.range_succ_eq_map, List.filter_cons, htail]
    by_cases hc : c = '('
    · rw [hc, List.count_cons_self, if_neg (by simp), List.length_map, ← Nat.add_assoc, ih]
    · rw [List.count_cons_of_ne hc, if_pos (by simpa using hc), List.length_cons, List.length_map,
        Nat.add_right_comm, ih]

/-- A scan is suspended once behind each character but opening parentheses, from left to right, up
to the offset at which it is refused or to the end. Its first resumption reports 0, and the one
that follows a character reports what that character says; the last one of a scan that succeeds
reports the whole in the end. -/
theorem suspension_law (rules : Rules) (he : e ≠ []) :
    ∃ n, (Scan.ready rules e).run.2.DecidedAt e n ∧
      (Scan.ready rules e).suspensions.map Scan.offset = (pauses e 0 n).map (· + 1) ∧
      (Scan.ready rules e).run.1 =
        ([.started, .progress (.ofNat 0)] ::
          (pauses e 0 n).map (stepReport rules.pairing e)).modifyLast
            (· ++ Outcome.report e (Scan.ready rules e).run.2) ∧
      (∀ ps, (Scan.ready rules e).run.2 = .ok ps →
        (Scan.ready rules e).suspensions.length + e.count '(' = e.length) ∧
      (e.length < pow10 precision → (percentOf e.length e.length).value? = some 100) := by
  have hready : (Scan.ready rules e).At rules e { base := 0, text := e } [] := .ready he
  obtain ⟨n, hn, -, hmap⟩ := hready.map_offset (.start e)
  refine ⟨n, hn, hmap, ?_, fun ps hps => ?_, value?_percentOf_self⟩
  · have hreport : (Scan.ready rules e).report = [.started, .progress (.ofNat 0)] :=
      congrArg (fun p => [Notice.started, .progress p])
        (percentOf_zero (List.length_pos_of_ne_nil he))
    rw [hready.run_eq, hreport, Scan.map_report hready hmap]
  · rw [hps] at hn
    have hlen := congrArg List.length hmap
    rw [List.length_map, List.length_map, show n = e.length from hn] at hlen
    rw [hlen]
    exact length_pauses e

theorem suspension_law_unclosed :
    ['f', '(', '(', 'x', ')', ')', 'y', '('] ≠ [] ∧
      (Scan.ready default ['f', '(', '(', 'x', ')', ')', 'y', '(']).suspensions.map Scan.offset =
        [1, 4, 5, 6, 7] ∧
      (Scan.ready default ['f', '(', '(', 'x', ')', ')', 'y', '(']).run.1 =
        [[.started, .progress (.ofNat 0)], [.progress (.ofNat 0)], [], [],
          [.progress (.finite false 125 (-1))], [.progress (.ofNat 75)]] := by
  have he : ['f', '(', '(', 'x', ')', ')', 'y', '('] ≠ [] := List.cons_ne_nil _ _
  obtain ⟨n, hn, hmap, hrun, -⟩ := suspension_law default he
  have hout : (Scan.ready default ['f', '(', '(', 'x', ')', ')', 'y', '(']).run.2 =
      .error (.unclosed ['f', '(', '(', 'x', ')', ')', 'y', '('] (some 7) none) := by
    decide +kernel
  rw [hout] at hn hrun
  obtain rfl : 7 = n := Int.ofNat_inj.1 (Option.some.inj hn)
  rw [hmap, hrun]
  exact ⟨he, by decide +kernel, by decide +kernel⟩

end PartScan
