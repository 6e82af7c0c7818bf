import Mathlib.Data.List.Basic
import PartScan.Word

/-! # Runs of word characters

The flat reading of an expression: its maximal runs of word characters from left to right, each
classified by the character behind it and by its own text. Parentheses play no part in it.
-/

namespace PartScan

variable {q : Char} {e : List Char} {i j i' j' n : Nat} {c : Char}

/-- A word character stands at the offset. -/
def wordAt (q : Char) (e : List Char) (k : Nat) : Bool := (e[k]?).any (isWordChar q)

/-- The word characters from `i` up to `j` are a run that no neighbour extends. -/
structure IsRun (q : Char) (e : List Char) (i j : Nat) : Prop where
  lt : i < j
  word : ∀ k, i ≤ k → k < j → wordAt q e k = true
  start : ∀ k, k + 1 = i → wordAt q e k = false
  stop : wordAt q e j = false

def runKind (q : Char) (e : List Char) (i j : Nat) : PartKind :=
  if e[j]? = some '(' then .function
  else if e[i]? = some q then .string
  else if isNumber (e.extract i j) then .number
  else .var

def runPart (q : Char) (e : List Char) (i j : Nat) : Part :=
  ⟨runKind q e i j, i, j, e.extract i j⟩

/-- Where the run that starts at an offset stops, if one does. -/
def runStop? (q : Char) (e : List Char) (i : Nat) : Option Nat :=
  if wordAt q e i && (i == 0 || !wordAt q e (i - 1)) then
    some (i + ((e.drop i).takeWhile (isWordChar q)).length)
  else none

/-- One part for each run, from left to right. -/
def flatParts (q : Char) (e : List Char) : List Part :=
  (List.range e.length).filterMap fun i => (runStop? q e i).map (runPart q e i)

theorem wordAt_of_getElem (h : e[n]? = some c) : wordAt q e n = isWordChar q c := by
  simp [wordAt, h]

theorem lt_length_of_wordAt (h : wordAt q e n = true) : n < e.length := by
  by_contra hn
  simp [wordAt, List.getElem?_eq_none (Nat.le_of_not_lt hn)] at h

theorem wordAt_length : wordAt q e e.length = false := by simp [wordAt]

theorem wordAt_takeWhile {k : Nat} (h : k < ((e.drop n).takeWhile (isWordChar q)).length) :
    wordAt q e (n + k) = true := by
  rw [wordAt, ← List.getElem?_drop]
  generalize e.drop n = cs at h
  induction cs generalizing k with
  | nil => simp at h
  | cons c cs ih =>
    by_cases hc : isWordChar q c
    · cases k with
      | zero => simpa using hc
      | succ k => simpa using ih (by simpa [hc] using h)
    · simp [hc] at h

theorem wordAt_length_takeWhile :
    wordAt q e (n + ((e.drop n).takeWhile (isWordChar q)).length) = false := by
  rw [wordAt, ← List.getElem?_drop]
  generalize e.drop n = cs
  induction cs with
  | nil => rfl
  | cons c cs ih => by_cases hc : isWordChar q c <;> simp [hc, ih]

namespace IsRun

theorem le_length (h : IsRun q e i j) : j ≤ e.length := by
  have hj := h.lt
  have := lt_length_of_wordAt (h.word (j - 1) (by omega) (by omega))
  omega

theorem extract_ne_nil (h : IsRun q e i j) : e.extract i j ≠ [] := by
  have := h.lt
  have := h.le_length
  rw [Ne, ← List.length_eq_zero_iff, List.extract_eq_take_drop, List.length_take,
    List.length_drop]
  omega

/-- A run that stops before another one lies wholly in front of it. -/
theorem stop_lt_start (h : IsRun q e i j) (h' : IsRun q e i' j') (hj : j < j') : j < i' := by
  by_contra hi
  have := h'.word j (by omega) hj
  rw [h.stop] at this
  cases this

theorem start_inj (h : IsRun q e i j) (h' : IsRun q e i j') : j = j' := by
  rcases Nat.lt_trichotomy j j' with hj | hj | hj
  · have := h.stop_lt_start h' hj
    have := h.lt
    omega
  · exact hj
  · have := h'.stop_lt_start h hj
    have := h'.lt
    omega

theorem stop_lt_of_start_lt (h : IsRun q e i j) (h' : IsRun q e i' j') (hi : i < i') : j < i' := by
  refine h.stop_lt_start h' ?_
  rcases Nat.lt_trichotomy j j' with hj | hj | hj
  · exact hj
  · subst hj
    have := h.word (i' - 1) (by omega) (by have := h'.lt; omega)
    rw [h'.start _ (by omega)] at this
    cases this
  · have := h'.stop_lt_start h hj
    have := h'.lt
    omega

end IsRun

theorem isRun_takeWhile (hw : wordAt q e i = true) (hs : i = 0 ∨ wordAt q e (i - 1) = false) :
    IsRun q e i (i + ((e.drop i).takeWhile (isWordChar q)).length) := by
  have hstop := wordAt_length_takeWhile (q := q) (e := e) (n := i)
  refine ⟨?_, fun k hk hlt => ?_, fun k hk => ?_, hstop⟩
  · rcases Nat.eq_zero_or_pos ((e.drop i).takeWhile (isWordChar q)).length with h | h
    · rw [h, Nat.add_zero, hw] at hstop
      cases hstop
    · omega
  · have := wordAt_takeWhile (q := q) (e := e) (n := i) (k := k - i) (by omega)
    rwa [Nat.add_sub_cancel' hk] at this
  · rcases hs with rfl | hs
    · omega
    · rwa [← hk] at hs

theorem runStop?_eq_some_iff : runStop? q e i = some j ↔ IsRun q e i j := by
  unfold runStop?
  constructor
  · intro h
    split at h
    · rename_i hc
      cases h
      simp only [Bool.and_eq_true, Bool.or_eq_true, beq_iff_eq, Bool.not_eq_true'] at hc
      exact isRun_takeWhile hc.1 hc.2
    · cases h
  · intro h
    have hw := h.word i (Nat.le_refl i) h.lt
    have hs : i = 0 ∨ wordAt q e (i - 1) = false := by
      rcases Nat.eq_zero_or_pos i with rfl | hi
      · exact .inl rfl
      · exact .inr (h.start _ (Nat.sub_add_cancel hi))
    rw [if_pos (by simpa [hw] using hs), (isRun_takeWhile hw hs).start_inj h]

theorem mem_flatParts {p : Part} :
    p ∈ flatParts q e ↔ ∃ i j, IsRun q e i j ∧ p = runPart q e i j := by
  simp only [flatParts, List.mem_filterMap, List.mem_range, Option.map_eq_some_iff,
    runStop?_eq_some_iff]
  constructor
  · rintro ⟨i, -, j, h, rfl⟩
    exact ⟨i, j, h, rfl⟩
  · rintro ⟨i, j, h, rfl⟩
    exact ⟨i, Nat.lt_of_lt_of_le h.lt h.le_length, j, h, rfl⟩

theorem pairwise_flatParts : (flatParts q e).Pairwise fun p p' => p.stop < p'.start := by
  refine List.Pairwise.filterMap _ ?_ List.pairwise_lt_range
  intro i i' hi p hp p' hp'
  simp only [Option.map_eq_some_iff, runStop?_eq_some_iff] at hp hp'
  obtain ⟨j, h, rfl⟩ := hp
  obtain ⟨j', h', rfl⟩ := hp'
  exact Int.ofNat_lt.2 (h.stop_lt_of_start_lt h' hi)

end PartScan
