import Mathlib.Data.List.Basic
import PartScan.Text.Split

/-! # Lines of a text

A text is joined from the segments between its line feeds, and cutting it there gives them back. A
text of terminated lines has one more segment than lines, and that one is empty.
-/

namespace PartScan.Text

variable {sep : Char} {cs : List Char}

theorem splitOn_eq (sep : Char) (cs : List Char) : splitOn sep cs = cs.splitOn sep := by
  induction cs with
  | nil => rfl
  | cons c cs ih =>
    rw [splitOn, ih, List.splitOn_cons_eq_if_modifyHead]
    cases hpieces : cs.splitOn sep with
    | nil => exact absurd hpieces (List.splitOn_ne_nil _ _)
    | cons piece pieces => simp only [beq_iff_eq, List.modifyHead_cons]

theorem not_mem_of_mem_splitOn {piece : List Char} (h : piece ∈ splitOn sep cs) : sep ∉ piece := by
  induction cs generalizing piece with
  | nil =>
    rw [List.mem_singleton.1 h]
    exact List.not_mem_nil
  | cons c cs ih =>
    rw [splitOn_eq, List.splitOn_cons_eq_if_modifyHead, ← splitOn_eq] at h
    split at h
    · rcases List.mem_cons.1 h with rfl | h
      · exact List.not_mem_nil
      · exact ih h
    · rename_i hc
      cases hpieces : splitOn sep cs with
      | nil =>
        rw [hpieces] at h
        cases h
      | cons front pieces =>
        rw [hpieces] at h ih
        rcases List.mem_cons.1 h with rfl | h
        · have hne : c ≠ sep := by simpa using hc
          exact List.not_mem_cons_of_ne_of_not_mem hne.symm (ih List.mem_cons_self)
        · exact ih (List.mem_cons_of_mem _ h)

/-- The segments of a text: at least one, and none with a line feed. -/
structure Segments (segments : List (List Char)) : Prop where
  ne_nil : segments ≠ []
  single : ∀ s ∈ segments, '\n' ∉ s

/-- The text with a line feed between each segment and the next. -/
def joined (segments : List (List Char)) : List Char := ['\n'].intercalate segments

/-- The text with a line feed behind each line. -/
def terminated (lines : List (List Char)) : List Char := lines.flatMap (· ++ ['\n'])

variable {segments lines : List (List Char)}

theorem segments_splitOn (input : List Char) : Segments (splitOn '\n' input) where
  ne_nil := by
    rw [splitOn_eq]
    exact List.splitOn_ne_nil _ _
  single _ hs := not_mem_of_mem_splitOn hs

theorem joined_splitOn (input : List Char) : joined (splitOn '\n' input) = input := by
  rw [splitOn_eq]
  exact List.intercalate_splitOn '\n'

theorem splitOn_joined (h : Segments segments) : splitOn '\n' (joined segments) = segments := by
  rw [splitOn_eq]
  exact List.splitOn_intercalate _ h.single h.ne_nil

theorem joined_cons (s : List Char) (h : segments ≠ []) :
    joined (s :: segments) = s ++ '\n' :: joined segments := by
  rw [joined, List.intercalate_cons_of_ne_nil h, List.append_assoc]
  rfl

/-- A line feed at the end stands in front of one more segment without characters. -/
theorem joined_concat_nil (h : segments ≠ []) :
    joined (segments ++ [[]]) = joined segments ++ ['\n'] := by
  induction segments with
  | nil => exact absurd rfl h
  | cons s rest ih =>
    rcases eq_or_ne rest [] with rfl | hrest
    · simp [joined]
    · rw [List.cons_append, joined_cons s (by simp), ih hrest, joined_cons s hrest,
        List.append_assoc, List.cons_append]

theorem terminated_eq (h : lines ≠ []) : terminated lines = joined lines ++ ['\n'] := by
  induction lines with
  | nil => exact absurd rfl h
  | cons s rest ih =>
    rcases eq_or_ne rest [] with rfl | hrest
    · simp [joined, terminated]
    · rw [terminated, List.flatMap_cons, ← terminated, ih hrest, joined_cons s hrest]
      simp only [List.append_assoc, List.cons_append, List.nil_append]

theorem Segments.concat_nil (h : Segments segments) : Segments (segments ++ [[]]) :=
  ⟨by simp, List.forall_mem_append.2 ⟨h.single, by simp⟩⟩

theorem splitOn_joined_concat (h : Segments segments) :
    splitOn '\n' (joined segments ++ ['\n']) = segments ++ [[]] := by
  rw [← joined_concat_nil h.ne_nil, splitOn_joined h.concat_nil]

theorem splitOn_terminated (h : ∀ l ∈ lines, '\n' ∉ l) :
    splitOn '\n' (terminated lines) = lines ++ [[]] := by
  rcases eq_or_ne lines [] with rfl | hne
  · rfl
  · rw [terminated_eq hne, splitOn_joined_concat ⟨hne, h⟩]

/-- A test that fails in all lines holds of their ends, or of nothing. -/
theorem countP_terminated {p : Char → Bool} (h : ∀ l ∈ lines, l.countP p = 0) :
    (terminated lines).countP p = lines.length * ['\n'].countP p := by
  induction lines with
  | nil => exact (Nat.zero_mul _).symm
  | cons line rest ih =>
    obtain ⟨hfirst, hrest⟩ := List.forall_mem_cons.1 h
    rw [terminated, List.flatMap_cons, ← terminated, List.countP_append, List.countP_append,
      hfirst, ih hrest, Nat.zero_add, List.length_cons, Nat.succ_mul, Nat.add_comm]

end PartScan.Text
