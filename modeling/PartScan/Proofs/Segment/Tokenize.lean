import PartScan.Proofs.Scan.Stack
import PartScan.Proofs.Segment.Reading

/-! # Scanning by levels reads the expression flatly

Whatever the nesting, the levels of a scan together hold the runs in front of its offset, and the
innermost one holds the run in progress. A scan that succeeds therefore gives the flat reading.
-/

namespace PartScan

/-- The parts of all levels, from the outermost to the innermost. -/
def collected (l : Level) (outer : List Level) : List Part :=
  outer.reverse.flatMap Level.parts ++ l.parts

theorem collected_cons (l m : Level) (outer : List Level) :
    collected l (m :: outer) = collected m outer ++ l.parts := by
  simp [collected]

theorem collected_append {l l' : Level} {ps : List Part} (h : l'.parts = l.parts ++ ps)
    (outer : List Level) : collected l' outer = collected l outer ++ ps := by
  simp [collected, h]

@[simp] theorem collected_skip (q : Char) (l : Level) (outer : List Level) :
    collected (l.skip q) outer = collected (l.endWord q) outer := rfl

@[simp] theorem collected_group (l : Level) (k : Nat) (outer : List Level) :
    collected (l.group k) (l.passGroup k :: outer) = collected l.endCall outer := by
  rw [collected_cons]
  exact List.append_nil _

@[simp] theorem collected_takeParts (m : Level) (ps : List Part) (outer : List Level) :
    collected (m.takeParts ps) outer = collected m outer ++ ps :=
  collected_append rfl outer

variable {q c : Char} {e : List Char} {i n : Nat} {parts : List Part} {l : Level}
  {outer : List Level}

theorem isWordChar_open (rules : Rules) : isWordChar rules.quote '(' = false := by
  have h := rules.quote_ne_open
  have hd : Text.isDigit '(' = false := by decide
  have hl : Text.isLetter '(' = false := by decide
  simp [isWordChar, h.symm, hd, hl]

theorem isWordChar_close (rules : Rules) : isWordChar rules.quote ')' = false := by
  have h := rules.quote_ne_close
  have hd : Text.isDigit ')' = false := by decide
  have hl : Text.isLetter ')' = false := by decide
  simp [isWordChar, h.symm, hd, hl]

namespace Segmented

theorem length_extract (h : Segmented q e i n parts) : (e.extract i n).length = n - i := by
  have := h.le
  rcases Nat.lt_or_ge i n with hi | hi
  · have := h.le_length hi
    simp only [List.extract_eq_take_drop, List.length_take, List.length_drop]
    omega
  · simp [Nat.sub_eq_zero_of_le hi]

theorem extract_eq_nil_iff (h : Segmented q e i n parts) : e.extract i n = [] ↔ i = n := by
  rw [← List.length_eq_zero_iff, h.length_extract]
  have := h.le
  omega

theorem take_one_extract (hi : i < n) : (e.extract i n).take 1 = [q] ↔ e[i]? = some q := by
  rw [List.extract_eq_take_drop, List.take_take, Nat.min_eq_left (by omega)]
  rcases Nat.lt_or_ge i e.length with h | h
  · rw [List.drop_eq_getElem_cons h, List.getElem?_eq_getElem h]
    simp only [List.take_succ_cons, List.take_zero, List.cons.injEq, and_true, Option.some.injEq]
  · rw [List.drop_eq_nil_of_le h, List.getElem?_eq_none h]
    simp

theorem start_extract (h : Segmented q e i n parts) :
    (n : Int) - (e.extract i n).length = i := by
  have := h.le
  rw [h.length_extract]
  omega

theorem ofWord_extract (h : Segmented q e i n parts) (hi : i < n) (hc : e[n]? ≠ some '(') :
    Part.ofWord [q] (e.extract i n) n = runPart q e i n := by
  simp only [Part.ofWord, runPart, runKind, PartKind.ofWord, if_neg hc, take_one_extract hi,
    h.start_extract]

theorem ofCall_extract (h : Segmented q e i n parts) (hc : e[n]? = some '(') :
    Part.ofCall (e.extract i n) n = runPart q e i n := by
  simp only [Part.ofCall, runPart, runKind, if_pos hc, h.start_extract]

end Segmented

/-- The levels hold the runs in front of the offset and the run in progress. -/
structure Reads (q : Char) (e : List Char) (l : Level) (outer : List Level) : Prop where
  stacked : Stacked e l outer
  segmented : ∃ i, Segmented q e i l.offset (collected l outer) ∧ l.word = e.extract i l.offset

namespace Reads

theorem start (q : Char) (e : List Char) : Reads q e { base := 0, text := e } [] :=
  ⟨.start e, 0, .zero q e, by simp [Level.offset]⟩

/-- Ending the word in progress as a value ends the run in progress. -/
theorem endWord (h : Reads q e l outer) (hn : wordAt q e l.offset = false)
    (hc : e[l.offset]? ≠ some '(') :
    Segmented q e (l.offset + 1) (l.offset + 1) (collected (l.endWord q) outer) := by
  obtain ⟨i, hs, hw⟩ := h.segmented
  rw [collected_append (l.parts_endWord q)]
  convert hs.close hn using 2
  by_cases hi : i = l.offset
  · rw [if_pos (hw.trans (hs.extract_eq_nil_iff.2 hi)), if_pos hi]
  · rw [if_neg (hw ▸ mt hs.extract_eq_nil_iff.1 hi), if_neg hi, hw,
      hs.ofWord_extract (Nat.lt_of_le_of_ne hs.le hi) hc]

/-- Ending the word in progress as the name of a group ends the run in progress. -/
theorem endCall (h : Reads q e l outer) (hn : wordAt q e l.offset = false)
    (hc : e[l.offset]? = some '(') :
    Segmented q e (l.offset + 1) (l.offset + 1) (collected l.endCall outer) := by
  obtain ⟨i, hs, hw⟩ := h.segmented
  rw [collected_append l.parts_endCall]
  convert hs.close hn using 2
  by_cases hi : i = l.offset
  · rw [if_pos (hw.trans (hs.extract_eq_nil_iff.2 hi)), if_pos hi]
  · rw [if_neg (hw ▸ mt hs.extract_eq_nil_iff.1 hi), if_neg hi, hw, hs.ofCall_extract hc]

theorem kept (rules : Rules) (e : List Char) : Kept rules (Reads rules.quote e) where
  read {l outer c rest} h hr hc hw := by
    refine ⟨(Stacked.kept rules e).read h.stacked hr hc hw, ?_⟩
    obtain ⟨i, hs, hword⟩ := h.segmented
    have hget := h.stacked.getElem_offset hr
    refine ⟨i, hs.read hget hw, ?_⟩
    show l.word ++ [c] = e.extract i (l.offset + 1)
    rw [hword, Segmented.extract_succ hs.le hget]
  skip {l outer c rest} h hr hc hw := by
    refine ⟨(Stacked.kept rules e).skip h.stacked hr hc hw, l.offset + 1, ?_, ?_⟩
    · have hget := h.stacked.getElem_offset hr
      have hs := h.endWord (by rw [wordAt_of_getElem hget, hw]) (by simpa [hget] using hc)
      simpa using hs
    · simp
  enter {l outer rest k} h hr hk hd := by
    refine ⟨(Stacked.kept rules e).enter h.stacked hr hk hd, l.offset + 1, ?_, ?_⟩
    · have hget := h.stacked.getElem_offset hr
      have hs := h.endCall (by rw [wordAt_of_getElem hget, isWordChar_open]) hget
      simpa using hs
    · simp
  leave {l m outer} h hr := by
    obtain ⟨hget, hm, hword⟩ := h.stacked.getElem_end hr
    refine ⟨(Stacked.kept rules e).leave h.stacked hr, l.offset + 1, ?_, ?_⟩
    · have hs := h.endWord (by rw [wordAt_of_getElem hget, isWordChar_close]) (by simp [hget])
      rw [Level.offset_takeParts, hm]
      simpa [collected_cons] using hs
    · simp [hword, hm]

/-- The whole expression is read where its level ends. -/
theorem finish (h : Reads q e l []) (hr : l.remaining = []) :
    (l.endWord q).parts = flatParts q e := by
  have hn := h.stacked.offset_end hr
  have hs := h.endWord (by rw [hn, wordAt_length]) (by simp [hn])
  rw [hn] at hs
  simpa [collected] using hs.eq_flatParts

end Reads

/-- A scan that succeeds gives one part for each maximal run of word characters, from left to
right: nothing is lost or repeated, parts do not touch, and they cover the word characters. -/
theorem tokenize_eq_flatParts {rules : Rules} (h : tokenize rules e = .ok parts) :
    parts = flatParts rules.quote e ∧
      (∀ p, p ∈ parts ↔ ∃ i j, IsRun rules.quote e i j ∧ p = runPart rules.quote e i j) ∧
      (parts.Pairwise fun p p' => p.stop < p'.start) ∧
      (∀ p ∈ parts, p.start < p.stop ∧ p.text ≠ []) ∧
      parts.flatMap Part.text = e.filter (isWordChar rules.quote) ∧
      ∀ (k : Nat) (c : Char), e[k]? = some c →
        ((∃ p ∈ parts, p.start ≤ k ∧ k < p.stop) ↔ isWordChar rules.quote c = true) := by
  have hends := (Reads.kept rules e).tokenize_meets (.start rules.quote e)
  rw [h] at hends
  obtain ⟨l, hl, hr, hparts⟩ := hends
  obtain rfl : parts = flatParts rules.quote e := hparts.trans (hl.finish hr)
  refine ⟨rfl, fun p => mem_flatParts, pairwise_flatParts, fun p hp => ?_,
    flatMap_text_flatParts _ e, fun k c hc => ?_⟩
  · obtain ⟨i, j, hrun, rfl⟩ := mem_flatParts.1 hp
    exact ⟨Int.ofNat_lt.2 hrun.lt, hrun.extract_ne_nil⟩
  · rw [mem_flatParts_covers_iff, wordAt_of_getElem hc]

theorem tokenize_eq_flatParts_calls :
    tokenize default ['f', '(', 'g', '(', 'x', ')', ',', '2', ')', ')', 'z'] =
        .ok [⟨.function, 0, 1, ['f']⟩, ⟨.function, 2, 3, ['g']⟩, ⟨.var, 4, 5, ['x']⟩,
          ⟨.number, 7, 8, ['2']⟩, ⟨.var, 10, 11, ['z']⟩] ∧
      flatParts '"' ['f', '(', 'g', '(', 'x', ')', ',', '2', ')', ')', 'z'] =
        [⟨.function, 0, 1, ['f']⟩, ⟨.function, 2, 3, ['g']⟩, ⟨.var, 4, 5, ['x']⟩,
          ⟨.number, 7, 8, ['2']⟩, ⟨.var, 10, 11, ['z']⟩] := by
  have h : tokenize default ['f', '(', 'g', '(', 'x', ')', ',', '2', ')', ')', 'z'] =
      .ok [⟨.function, 0, 1, ['f']⟩, ⟨.function, 2, 3, ['g']⟩, ⟨.var, 4, 5, ['x']⟩,
        ⟨.number, 7, 8, ['2']⟩, ⟨.var, 10, 11, ['z']⟩] := by decide +kernel
  exact ⟨h, (tokenize_eq_flatParts h).1.symm⟩

end PartScan
