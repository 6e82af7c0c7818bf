import Mathlib.Data.List.DropRight
import PartScan.Proofs.Scan.Suspension
import PartScan.Proofs.Segment.Tokenize

/-! # What a suspended scan holds

Wherever a scan is suspended, its levels are slices of the expression. The innermost one holds the
run of word characters in front of its index, the others wait at a parenthesis and hold no word, and
all of them together hold the parts of the flat reading up to that run.
-/

namespace PartScan

section Segments

variable {q : Char} {e : List Char} {i m n : Nat} {parts : List Part}

namespace Segmented

/-- Reading on adds parts behind those that have been collected. -/
theorem extend (h : Segmented q e i n parts) (hn : n ≤ m) :
    ∃ i' rest, Segmented q e i' m (parts ++ rest) := by
  induction m, hn using Nat.le_induction with
  | base => exact ⟨i, [], by rwa [List.append_nil]⟩
  | succ m _ ih =>
    obtain ⟨i', rest, h'⟩ := ih
    cases hw : wordAt q e m with
    | false =>
      have hclose := h'.close hw
      rw [List.append_assoc] at hclose
      exact ⟨m + 1, _, hclose⟩
    | true =>
      have hc := List.getElem?_eq_getElem (lt_length_of_wordAt hw)
      exact ⟨i', rest, h'.read hc (by rw [← wordAt_of_getElem hc, hw])⟩

/-- The run in progress parts the flat reading: what has been collected ends in front of it, and
what is still to come does not begin before it. -/
theorem flatParts_split (h : Segmented q e i n parts) (hn : n ≤ e.length) :
    ∃ rest, flatParts q e = parts ++ rest ∧ (∀ p ∈ parts, p.stop < i) ∧
      ∀ p ∈ rest, (i : Int) ≤ p.start := by
  obtain ⟨i', rest, h'⟩ := h.extend (Nat.le_succ_of_le hn)
  have hflat : flatParts q e = parts ++ rest := h'.eq_flatParts.symm
  refine ⟨rest, hflat, fun p hp => ?_, fun p hp => ?_⟩
  · obtain ⟨k, j, hrun, hj, rfl⟩ := (h.mem_iff p).1 hp
    refine Int.ofNat_lt.2 (Nat.lt_of_not_le fun hij => ?_)
    have hword := h.word j hij hj
    rw [hrun.stop] at hword
    cases hword
  · have hmem : p ∈ flatParts q e := hflat ▸ List.mem_append_right parts hp
    obtain ⟨k, j, hrun, rfl⟩ := mem_flatParts.1 hmem
    refine Int.ofNat_le.2 (Nat.le_of_not_lt fun hki => ?_)
    rcases Nat.lt_or_ge j i with hj | hj
    · -- a run that stops in front of the one in progress has been collected
      have hcollected := (h.mem_iff _).2 ⟨k, j, hrun, hj.trans_le h.le, rfl⟩
      have hsorted := (List.pairwise_append.1 h'.sorted).2.2 _ hcollected _ hp
      exact absurd (Int.ofNat_lt.1 hsorted) hrun.lt.asymm
    · have hword := hrun.word (i - 1) (by omega) (by omega)
      rw [h.start (i - 1) (by omega)] at hword
      cases hword

end Segmented

end Segments

variable {rules : Rules} {e : List Char} {I J : Level → List Level → Prop} {l : Level}
  {outer : List Level}

theorem Kept.and (hI : Kept rules I) (hJ : Kept rules J) :
    Kept rules fun l outer => I l outer ∧ J l outer where
  read h hr hc hw := ⟨hI.read h.1 hr hc hw, hJ.read h.2 hr hc hw⟩
  skip h hr hc hw := ⟨hI.skip h.1 hr hc hw, hJ.skip h.2 hr hc hw⟩
  enter h hr hk hd := ⟨hI.enter h.1 hr hk hd, hJ.enter h.2 hr hk hd⟩
  leave h hr := ⟨hI.leave h.1 hr, hJ.leave h.2 hr⟩

/-- A property that every step keeps holds wherever the scan of an expression is suspended. -/
theorem Kept.suspensions (hI : Kept rules I) (h₀ : I { base := 0, text := e } []) {s : Scan}
    (hs : s ∈ (Scan.ready rules e).suspensions) :
    ∃ l outer, s = .suspended rules e l outer ∧ I l outer := by
  by_cases he : e = []
  · have hnone : (Scan.ready rules e).suspensions = [] := by
      apply Scan.suspensions_of_finished
      rw [Scan.resume, if_pos he]
    rw [hnone] at hs
    cases hs
  · exact (Scan.At.ready he).mem_suspensions hI h₀ hs

namespace Level

/-- The longest run of word characters that ends right in front of the index. -/
def pending (q : Char) (l : Level) : List Char := (l.text.take l.index).rtakeWhile (isWordChar q)

theorem take_succ_index {c : Char} {rest : List Char} (h : l.remaining = c :: rest) :
    l.text.take (l.index + 1) = l.text.take l.index ++ [c] := by
  rw [List.take_add_one, ← List.head?_drop, ← remaining, h]
  rfl

/-- The level stands at a parenthesis, has ended its word and goes on behind the group. -/
structure Waits (q : Char) (l : Level) : Prop where
  opens : l.text[l.step]? = some '('
  word_eq : l.word = []
  pending_eq : l.pending q = []

theorem waits_passGroup {k : Nat} {rest : List Char} (hr : l.remaining = '(' :: rest)
    (hk : rules.pairing.closing l.remaining = some k) : (l.passGroup k).Waits rules.quote where
  opens := by
    rw [passGroup, text_endCall, ← List.head?_drop]
    exact congrArg List.head? hr
  word_eq := word_passGroup ..
  pending_eq := by
    have hclose : l.text[l.index + k]? = some ')' := by
      rw [← List.getElem?_drop]
      exact Pairing.closing_getElem hk
    have hclosing : ¬ isWordChar rules.quote ')' = true := by simp [isWordChar_close]
    simp only [passGroup, pending, text_endCall]
    rw [List.take_add_one, hclose, Option.toList_some, List.rtakeWhile_concat_neg _ _ _ hclosing]

end Level

/-- The innermost level holds the run in front of its index, and the others wait for a group. -/
structure Buffered (q : Char) (l : Level) (outer : List Level) : Prop where
  word_eq : l.word = l.pending q
  waits : ∀ m ∈ outer, m.Waits q

namespace Buffered

theorem kept (rules : Rules) : Kept rules (Buffered rules.quote) where
  read h hr _ hw := by
    refine ⟨?_, h.waits⟩
    simp only [Level.read, Level.pending]
    rw [Level.take_succ_index hr, List.rtakeWhile_concat_pos _ _ _ hw, h.word_eq, Level.pending]
  skip {l outer c rest} h hr _ hw := by
    have hnone : ¬ isWordChar rules.quote c = true := by simp [hw]
    refine ⟨?_, h.waits⟩
    simp only [Level.skip, Level.pending, Level.word_endWord, Level.text_endWord]
    rw [Level.take_succ_index hr, List.rtakeWhile_concat_neg _ _ _ hnone]
  enter h hr hk _ :=
    ⟨rfl, List.forall_mem_cons.2 ⟨Level.waits_passGroup hr hk, h.waits⟩⟩
  leave {l m outer} h _ := by
    obtain ⟨hm, houter⟩ := List.forall_mem_cons.1 h.waits
    exact ⟨hm.word_eq.trans hm.pending_eq.symm, houter⟩

end Buffered

theorem depth_kept (rules : Rules) : Kept rules fun _ outer => outer.length ≤ rules.maxDepth where
  read h _ _ _ := h
  skip h _ _ _ := h
  enter _ _ _ hd := hd
  leave h _ := Nat.le_of_succ_le h

namespace Stacked

/-- Every level is a slice of the expression and stands in it at its base. -/
theorem slice {m : Level} (h : Stacked e l outer) (hm : m ∈ l :: outer) :
    m.base + m.text.length ≤ e.length ∧ m.text = e.extract m.base (m.base + m.text.length) ∧
      m.index ≤ m.text.length := by
  induction h with
  | whole hb ht hi =>
    obtain rfl := List.mem_singleton.1 hm
    rw [hb, ht]
    exact ⟨(Nat.zero_add _).le, by simp, ht ▸ hi⟩
  | @group l _ _ ht hi hc _ _ _ ih =>
    rcases List.mem_cons.1 hm with rfl | hm
    · refine ⟨(List.getElem?_eq_some_iff.1 hc).1.le, ?_, hi⟩
      rw [List.extract_eq_take_drop, Nat.add_sub_cancel_left]
      exact List.prefix_iff_eq_take.1 ht
    · exact ih hm

theorem offset_le (h : Stacked e l outer) : l.offset ≤ e.length := by
  obtain ⟨hstop, -, hindex⟩ := h.slice List.mem_cons_self
  rw [Level.offset]
  omega

end Stacked

/-- Wherever a scan is suspended, the levels, counted from the outermost, nest no deeper than
allowed. Each is a slice of the expression and stands within it. The innermost one holds the longest
run of word characters in front of its index, the ones around it stand at the parenthesis of their
group and hold no word, and what all of them have collected is the flat reading up to that run. -/
theorem suspension_invariant (rules : Rules) (e : List Char) {s : Scan}
    (hs : s ∈ (Scan.ready rules e).suspensions) :
    ∃ l outer, s = .suspended rules e l outer ∧
      (∀ (d : Nat) m, (l :: outer).reverse[d]? = some m → d ≤ rules.maxDepth ∧
        m.base + m.text.length ≤ e.length ∧ m.text = e.extract m.base (m.base + m.text.length) ∧
        m.index ≤ m.text.length) ∧
      l.word = (l.text.take l.index).rtakeWhile (isWordChar rules.quote) ∧
      (∀ m ∈ outer, m.word = [] ∧ m.text[m.step]? = some '(') ∧
      ∃ start rest, start + l.word.length = l.base + l.index ∧
        flatParts rules.quote e = collected l outer ++ rest ∧
        (∀ p ∈ collected l outer, p.stop < start) ∧ ∀ p ∈ rest, (start : Int) ≤ p.start := by
  obtain ⟨l, outer, rfl, hdepth, hbuffered, hreads⟩ :=
    ((depth_kept rules).and ((Buffered.kept rules).and (Reads.kept rules e))).suspensions
      ⟨Nat.zero_le _, ⟨rfl, nofun⟩, .start rules.quote e⟩ hs
  refine ⟨l, outer, rfl, fun d m hm => ?_, hbuffered.word_eq,
    fun m hm => ⟨(hbuffered.waits m hm).word_eq, (hbuffered.waits m hm).opens⟩, ?_⟩
  · obtain ⟨hd, -⟩ := List.getElem?_eq_some_iff.1 hm
    rw [List.length_reverse, List.length_cons] at hd
    exact ⟨by omega, hreads.stacked.slice (List.mem_reverse.1 (List.mem_of_getElem? hm))⟩
  · obtain ⟨i, hsegmented, hword⟩ := hreads.segmented
    obtain ⟨rest, hflat, hbefore, hafter⟩ := hsegmented.flatParts_split hreads.stacked.offset_le
    refine ⟨i, rest, ?_, hflat, hbefore, hafter⟩
    rw [hword, hsegmented.length_extract]
    exact Nat.add_sub_cancel' hsegmented.le

/-- In the middle of a word inside a group, the name in front of the group has been collected. -/
theorem suspension_invariant_group :
    let e : List Char := ['f', '(', 'a', 'b', ')', ',', 'c']
    let l : Level := ⟨2, ['a', 'b'], 1, 0, ['a'], []⟩
    let m : Level := ⟨0, e, 5, 1, [], [⟨.function, 0, 1, ['f']⟩]⟩
    .suspended default e l [m] ∈ (Scan.ready default e).suspensions ∧
      l.text = e.extract 2 4 ∧ ['a'] = (l.text.take 1).rtakeWhile (isWordChar '"') ∧
      m.text[m.step]? = some '(' ∧
      ∃ rest, flatParts '"' e = [⟨.function, 0, 1, ['f']⟩] ++ rest ∧
        ∀ p ∈ rest, (2 : Int) ≤ p.start := by
  intro e l m
  have hs : .suspended default e l [m] ∈ (Scan.ready default e).suspensions := by decide +kernel
  obtain ⟨l', outer, heq, hslice, hword, hwaits, start, rest, hstart, hflat, -, hafter⟩ :=
    suspension_invariant default e hs
  obtain ⟨-, -, rfl, rfl⟩ := Scan.suspended.inj heq
  obtain rfl : start = 2 := Nat.add_right_cancel hstart
  exact ⟨hs, (hslice 1 l rfl).2.2.1, hword, (hwaits m List.mem_cons_self).2, rest, hflat, hafter⟩

end PartScan
