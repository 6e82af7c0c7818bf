import PartScan.Proofs.Segment.Run

/-! # Reading an expression from left to right

The parts collected in front of an offset are those of the runs that have stopped there, and the
run in progress is the rest of the word characters. Each further character keeps this; at the end
the parts are those of the flat reading.
-/

namespace PartScan

/-- The first `n` characters are read: `parts` holds the runs that stop before `n`, and the word
characters from `i` up to `n` are in progress. -/
structure Segmented (q : Char) (e : List Char) (i n : Nat) (parts : List Part) : Prop where
  le : i ≤ n
  word : ∀ k, i ≤ k → k < n → wordAt q e k = true
  start : ∀ k, k + 1 = i → wordAt q e k = false
  mem_iff : ∀ p, p ∈ parts ↔ ∃ i j, IsRun q e i j ∧ j < n ∧ p = runPart q e i j
  sorted : parts.Pairwise fun p p' => p.stop < p'.start
  letters : parts.flatMap Part.text ++ e.extract i n = (e.take n).filter (isWordChar q)

namespace Segmented

variable {q c : Char} {e : List Char} {i n : Nat} {parts : List Part}

theorem zero (q : Char) (e : List Char) : Segmented q e 0 0 [] where
  le := Nat.le_refl 0
  word k _ hk := absurd hk (Nat.not_lt_zero k)
  start k hk := absurd hk (Nat.succ_ne_zero k)
  mem_iff p := by simp
  sorted := .nil
  letters := by simp

theorem le_length (h : Segmented q e i n parts) (hi : i < n) : n ≤ e.length := by
  have := lt_length_of_wordAt (h.word (n - 1) (by omega) (by omega))
  omega

theorem extract_succ (hi : i ≤ n) (hc : e[n]? = some c) :
    e.extract i (n + 1) = e.extract i n ++ [c] := by
  rw [List.extract_eq_take_drop, Nat.succ_sub hi, List.take_add_one, List.getElem?_drop,
    Nat.add_sub_cancel' hi, hc]
  rfl

theorem take_succ_filter (h : e[n]? = some c) :
    (e.take (n + 1)).filter (isWordChar q) =
      (e.take n).filter (isWordChar q) ++ [c].filter (isWordChar q) := by
  rw [List.take_add_one, h, Option.toList_some, List.filter_append]

/-- A word character goes on with the run in progress. -/
theorem read (h : Segmented q e i n parts) (hc : e[n]? = some c) (hw : isWordChar q c = true) :
    Segmented q e i (n + 1) parts where
  le := Nat.le_succ_of_le h.le
  word k hk hlt := by
    rcases Nat.lt_succ_iff_lt_or_eq.1 hlt with hlt | rfl
    · exact h.word k hk hlt
    · rw [wordAt_of_getElem hc, hw]
  start := h.start
  mem_iff p := by
    rw [h.mem_iff]
    constructor
    · rintro ⟨i, j, hr, hj, rfl⟩
      exact ⟨i, j, hr, Nat.lt_succ_of_lt hj, rfl⟩
    · rintro ⟨i, j, hr, hj, rfl⟩
      refine ⟨i, j, hr, Nat.lt_of_le_of_ne (Nat.le_of_lt_succ hj) ?_, rfl⟩
      rintro rfl
      have := hr.stop
      rw [wordAt_of_getElem hc, hw] at this
      cases this
  sorted := h.sorted
  letters := by
    rw [take_succ_filter hc, ← h.letters, extract_succ h.le hc]
    simp [hw]

/-- The run in progress stops where no word character stands. -/
theorem isRun (h : Segmented q e i n parts) (hi : i < n) (hn : wordAt q e n = false) :
    IsRun q e i n :=
  ⟨hi, h.word, h.start, hn⟩

/-- Only the run in progress can stop at the next character. -/
theorem start_eq (h : Segmented q e i n parts) {i' : Nat} (hr : IsRun q e i' n) : i' = i := by
  rcases Nat.lt_trichotomy i' i with hlt | heq | hlt
  · have hs := h.start (i - 1) (by omega)
    rw [hr.word (i - 1) (by omega) (by have := h.le; omega)] at hs
    cases hs
  · exact heq
  · have hs := hr.start (i' - 1) (by omega)
    rw [h.word (i' - 1) (by omega) (by have := hr.lt; omega)] at hs
    cases hs

/-- Any other character, or the end of the expression, ends the run in progress. -/
theorem close (h : Segmented q e i n parts) (hn : wordAt q e n = false) :
    Segmented q e (n + 1) (n + 1) (parts ++ if i = n then [] else [runPart q e i n]) where
  le := Nat.le_refl _
  word k hk hlt := by omega
  start k hk := by
    obtain rfl : k = n := Nat.succ.inj hk
    exact hn
  mem_iff p := by
    rw [List.mem_append, h.mem_iff]
    constructor
    · rintro (⟨i', j, hr, hj, rfl⟩ | hp)
      · exact ⟨i', j, hr, Nat.lt_succ_of_lt hj, rfl⟩
      · split at hp
        · cases hp
        · rename_i hi
          exact ⟨i, n, h.isRun (Nat.lt_of_le_of_ne h.le hi) hn, Nat.lt_succ_self n,
            List.mem_singleton.1 hp⟩
    · rintro ⟨i', j, hr, hj, rfl⟩
      rcases Nat.lt_succ_iff_lt_or_eq.1 hj with hj | rfl
      · exact .inl ⟨i', j, hr, hj, rfl⟩
      · obtain rfl := h.start_eq hr
        exact .inr (by simp [Nat.ne_of_lt hr.lt])
  sorted := by
    rw [List.pairwise_append]
    refine ⟨h.sorted, by split <;> simp, fun p hp p' hp' => ?_⟩
    split at hp'
    · cases hp'
    · rename_i hi
      obtain rfl := List.mem_singleton.1 hp'
      obtain ⟨i', j, hr, hj, rfl⟩ := (h.mem_iff p).1 hp
      exact Int.ofNat_lt.2 (hr.stop_lt_start (h.isRun (Nat.lt_of_le_of_ne h.le hi) hn) hj)
  letters := by
    have hx : (e.take (n + 1)).filter (isWordChar q) = (e.take n).filter (isWordChar q) := by
      cases hc : e[n]? with
      | none =>
        rw [List.take_add_one, hc, Option.toList_none, List.append_nil]
      | some c =>
        have : isWordChar q c = false := by rw [← wordAt_of_getElem hc, hn]
        rw [take_succ_filter hc]
        simp [this]
    rw [hx, ← h.letters]
    split
    · rename_i hi
      subst hi
      simp
    · simp [runPart]

/-- A reading that has gone past the end of the expression is the flat one. -/
theorem eq_flatParts (h : Segmented q e i (e.length + 1) parts) : parts = flatParts q e := by
  have hsorted {ps : List Part} (hs : ps.Pairwise fun p p' => p.stop < p'.start)
      (hm : ∀ p ∈ ps, ∃ i j, IsRun q e i j ∧ p = runPart q e i j) :
      ps.Pairwise fun p p' => p.start < p'.start := by
    refine hs.imp_of_mem fun {p p'} hp _ hlt => ?_
    obtain ⟨i, j, hr, rfl⟩ := hm p hp
    exact Int.lt_trans (Int.ofNat_lt.2 hr.lt) hlt
  have hmem : ∀ p, p ∈ parts ↔ p ∈ flatParts q e := by
    intro p
    rw [h.mem_iff, mem_flatParts]
    constructor
    · rintro ⟨i, j, hr, -, rfl⟩
      exact ⟨i, j, hr, rfl⟩
    · rintro ⟨i, j, hr, rfl⟩
      exact ⟨i, j, hr, Nat.lt_succ_of_le hr.le_length, rfl⟩
  have h₁ := hsorted h.sorted fun p hp => mem_flatParts.1 ((hmem p).1 hp)
  have h₂ := hsorted (pairwise_flatParts (q := q) (e := e)) fun p hp => mem_flatParts.1 hp
  have hnodup {ps : List Part} (hs : ps.Pairwise fun p p' => p.start < p'.start) : ps.Nodup :=
    hs.imp fun {p p'} hlt heq => by rw [heq] at hlt; exact Int.lt_irrefl _ hlt
  have hperm := (List.perm_ext_iff_of_nodup (hnodup h₁) (hnodup h₂)).2 hmem
  exact hperm.eq_of_pairwise (fun p p' _ _ hlt hlt' => absurd (Int.lt_trans hlt hlt') (Int.lt_irrefl _)) h₁ h₂

end Segmented

variable {q : Char} {e : List Char}

theorem exists_segmented (q : Char) (e : List Char) (n : Nat) :
    ∃ i parts, Segmented q e i n parts := by
  induction n with
  | zero => exact ⟨0, [], .zero q e⟩
  | succ n ih =>
    obtain ⟨i, parts, h⟩ := ih
    cases hw : wordAt q e n with
    | false => exact ⟨n + 1, _, h.close hw⟩
    | true =>
      have hc := List.getElem?_eq_getElem (lt_length_of_wordAt hw)
      exact ⟨i, parts, h.read hc (by rw [← wordAt_of_getElem hc, hw])⟩

/-- No word character is lost or repeated. -/
theorem flatMap_text_flatParts (q : Char) (e : List Char) :
    (flatParts q e).flatMap Part.text = e.filter (isWordChar q) := by
  obtain ⟨i, parts, h⟩ := exists_segmented q e e.length
  have h' := h.close wordAt_length
  have hl := h'.letters
  rw [h'.eq_flatParts, List.take_of_length_le (Nat.le_succ _)] at hl
  simpa using hl

/-- Every word character belongs to a run. -/
theorem exists_isRun {k : Nat} (hk : wordAt q e k = true) : ∃ i j, IsRun q e i j ∧ i ≤ k ∧ k < j := by
  obtain ⟨i, parts, h⟩ := exists_segmented q e k
  have hword : wordAt q e i = true := by
    rcases Nat.eq_or_lt_of_le h.le with rfl | hi
    · exact hk
    · exact h.word i (Nat.le_refl i) hi
  have hstart : i = 0 ∨ wordAt q e (i - 1) = false := by
    rcases Nat.eq_zero_or_pos i with rfl | hi
    · exact .inl rfl
    · exact .inr (h.start _ (Nat.sub_add_cancel hi))
  have hr := isRun_takeWhile hword hstart
  refine ⟨i, _, hr, h.le, ?_⟩
  by_contra hlt
  have hstop := hr.stop
  rcases Nat.eq_or_lt_of_le (Nat.le_of_not_lt hlt) with heq | hlt
  · rw [heq, hk] at hstop
    cases hstop
  · rw [h.word _ (Nat.le_add_right _ _) hlt] at hstop
    cases hstop

theorem mem_flatParts_covers_iff {k : Nat} :
    (∃ p ∈ flatParts q e, p.start ≤ k ∧ k < p.stop) ↔ wordAt q e k = true := by
  constructor
  · rintro ⟨p, hp, hi, hj⟩
    obtain ⟨i, j, hr, rfl⟩ := mem_flatParts.1 hp
    exact hr.word k (Int.ofNat_le.1 hi) (Int.ofNat_lt.1 hj)
  · intro hk
    obtain ⟨i, j, hr, hi, hj⟩ := exists_isRun hk
    exact ⟨_, mem_flatParts.2 ⟨i, j, hr, rfl⟩, Int.ofNat_le.2 hi, Int.ofNat_lt.2 hj⟩

end PartScan
