import Mathlib.Data.List.TakeWhile
import PartScan.Lexeme

/-! # What stands at the front of a text

A number is a run of digits with at most one point, a name is a run of name characters that no digit
leads. What is cut off at the front of a text is the longest number, or else the longest name, or
else a single character that is no blank.
-/

namespace PartScan

open Text

variable {Form : List Char → Prop} {take : List Char → List Char} {kind : LexemeKind} {c : Char}
  {cs ds rest v w : List Char}

/-- Digits, digits with a point behind or among them, or digits behind a point. -/
inductive NumberForm : List Char → Prop
  | digits {ds : List Char} (hne : ds ≠ []) (hds : ∀ d ∈ ds, isDigit d = true) : NumberForm ds
  | point {ds es : List Char} (hne : ds ≠ []) (hds : ∀ d ∈ ds, isDigit d = true)
      (hes : ∀ e ∈ es, isDigit e = true) : NumberForm (ds ++ '.' :: es)
  | fraction {es : List Char} (hne : es ≠ []) (hes : ∀ e ∈ es, isDigit e = true) :
      NumberForm ('.' :: es)

/-- Name characters, and the first is no digit. -/
inductive NameForm : List Char → Prop
  | run {c : Char} {rest : List Char} (hc : isNameChar c = true) (hd : isDigit c = false)
      (hrest : ∀ r ∈ rest, isNameChar r = true) : NameForm (c :: rest)

/-- The text `w` is the longest one of a form at the front of `cs`. -/
structure Longest (Form : List Char → Prop) (cs w : List Char) : Prop where
  form : Form w
  front : w <+: cs
  longest : ∀ v, Form v → v <+: cs → v.length ≤ w.length

/-- No text of a form stands at the front of `cs`. -/
def Absent (Form : List Char → Prop) (cs : List Char) : Prop := ∀ v, Form v → ¬ v <+: cs

theorem Longest.alone (h : Longest Form cs w) : Longest Form w w :=
  ⟨h.form, List.prefix_rfl, fun _ _ hv => hv.length_le⟩

theorem Absent.mono (h : Absent Form cs) (hw : w <+: cs) : Absent Form w :=
  fun v hv hfront => h v hv (hfront.trans hw)

/-- The text of a lexeme at the front of `cs`. -/
inductive Stands : LexemeKind → List Char → List Char → Prop
  | number {cs w : List Char} (h : Longest NumberForm cs w) : Stands .number w cs
  | name {cs w : List Char} (hnumber : Absent NumberForm cs) (h : Longest NameForm cs w) :
      Stands .name w cs
  | other {c : Char} {rest : List Char} (hnumber : Absent NumberForm (c :: rest))
      (hname : Absent NameForm (c :: rest)) (hblank : isBlank c = false) :
      Stands .other [c] (c :: rest)

/-- The function `take` cuts the longest text of a form off the front, if there is one. -/
structure Cuts (Form : List Char → Prop) (take : List Char → List Char) : Prop where
  ne_nil : ∀ {w}, Form w → w ≠ []
  front : ∀ cs, take cs <+: cs
  form : ∀ {cs}, take cs ≠ [] → Form (take cs)
  longest : ∀ {cs v}, Form v → v <+: cs → v <+: take cs

namespace Cuts

theorem take_ne_nil (h : Cuts Form take) (hv : Form v) (hfront : v <+: cs) : take cs ≠ [] := by
  intro hnil
  have hprefix := h.longest hv hfront
  rw [hnil, List.prefix_nil] at hprefix
  exact h.ne_nil hv hprefix

theorem absent_iff (h : Cuts Form take) : Absent Form cs ↔ take cs = [] := by
  constructor
  · intro habsent
    by_contra hne
    exact habsent _ (h.form hne) (h.front cs)
  · intro hnil v hv hfront
    exact h.take_ne_nil hv hfront hnil

theorem longest_iff (h : Cuts Form take) : Longest Form cs w ↔ take cs ≠ [] ∧ take cs = w := by
  constructor
  · intro hw
    have hne := h.take_ne_nil hw.form hw.front
    have hle := hw.longest _ (h.form hne) (h.front cs)
    exact ⟨hne, ((h.longest hw.form hw.front).eq_of_length_le hle).symm⟩
  · rintro ⟨hne, rfl⟩
    exact ⟨h.form hne, h.front cs, fun v hv hfront => (h.longest hv hfront).length_le⟩

end Cuts

theorem takeWhile_prefix_numberPrefix (cs : List Char) : cs.takeWhile isDigit <+: numberPrefix cs := by
  simp only [numberPrefix]
  split
  · split
    · rename_i hnil
      exact hnil.1 ▸ List.nil_prefix
    · exact List.prefix_append _ _
  · exact List.prefix_rfl

theorem numberPrefix_point (hds : ∀ d ∈ ds, isDigit d = true) :
    numberPrefix (ds ++ '.' :: rest) =
      if ds = [] ∧ rest.takeWhile isDigit = [] then [] else ds ++ '.' :: rest.takeWhile isDigit := by
  have hpoint : ¬ isDigit '.' = true := by decide
  have htake : (ds ++ '.' :: rest).takeWhile isDigit = ds := by
    rw [List.takeWhile_append_of_pos hds, List.takeWhile_cons_of_neg hpoint, List.append_nil]
  have hdrop : (ds ++ '.' :: rest).dropWhile isDigit = '.' :: rest := by
    rw [List.dropWhile_append_of_pos hds, List.dropWhile_cons_of_neg hpoint]
  simp only [numberPrefix, htake, hdrop]

theorem numberPrefix_front (cs : List Char) : numberPrefix cs <+: cs := by
  have hcs := List.takeWhile_append_dropWhile (p := isDigit) (l := cs)
  simp only [numberPrefix]
  split
  · rename_i rest hrest
    split
    · exact List.nil_prefix
    · rw [hrest] at hcs
      conv => rhs; rw [← hcs]
      exact (List.prefix_append_right_inj _).2
        (List.cons_prefix_cons.2 ⟨rfl, List.takeWhile_prefix _⟩)
  · exact List.takeWhile_prefix _

theorem numberForm_numberPrefix (hne : numberPrefix cs ≠ []) : NumberForm (numberPrefix cs) := by
  have hdigits : ∀ {l : List Char}, ∀ d ∈ l.takeWhile isDigit, isDigit d = true :=
    fun _ => List.mem_takeWhile_imp
  simp only [numberPrefix] at hne ⊢
  split at hne
  · split at hne
    · exact absurd rfl hne
    · rename_i hplaces
      rw [if_neg hplaces]
      by_cases hwhole : cs.takeWhile isDigit = []
      · rw [hwhole]
        exact .fraction (fun hnil => hplaces ⟨hwhole, hnil⟩) hdigits
      · exact .point hwhole hdigits hdigits
  · exact .digits hne hdigits

theorem prefix_numberPrefix (hv : NumberForm v) (hfront : v <+: cs) : v <+: numberPrefix cs := by
  obtain ⟨rest, rfl⟩ := hfront
  cases hv with
  | digits hne hds =>
    refine List.IsPrefix.trans ?_ (takeWhile_prefix_numberPrefix _)
    rw [List.takeWhile_append_of_pos hds]
    exact List.prefix_append _ _
  | point hne hds hes =>
    rw [List.append_assoc, List.cons_append, numberPrefix_point hds, if_neg (fun h => hne h.1),
      List.takeWhile_append_of_pos hes, ← List.cons_append, ← List.append_assoc]
    exact List.prefix_append _ _
  | @fraction es hne hes =>
    have hnumber : numberPrefix ('.' :: (es ++ rest)) = '.' :: (es ++ rest).takeWhile isDigit := by
      have hpoint := @numberPrefix_point [] (es ++ rest) (List.forall_mem_nil _)
      rwa [if_neg] at hpoint
      rw [List.takeWhile_append_of_pos hes]
      exact fun h => hne (List.append_eq_nil_iff.1 h.2).1
    rw [List.cons_append, hnumber, List.takeWhile_append_of_pos hes]
    exact List.prefix_append ('.' :: es) _

theorem cuts_numberPrefix : Cuts NumberForm numberPrefix where
  ne_nil := fun h => by cases h <;> simp [*]
  front := numberPrefix_front
  form := numberForm_numberPrefix
  longest := prefix_numberPrefix

theorem cuts_namePrefix : Cuts NameForm namePrefix where
  ne_nil := by
    rintro _ ⟨⟩
    exact List.cons_ne_nil _ _
  front cs := by
    cases cs with
    | nil => exact List.nil_prefix
    | cons c rest =>
      rw [namePrefix]
      split
      · exact List.cons_prefix_cons.2 ⟨rfl, List.takeWhile_prefix _⟩
      · exact List.nil_prefix
  form {cs} hne := by
    cases cs with
    | nil => exact absurd rfl hne
    | cons c rest =>
      rw [namePrefix] at hne ⊢
      split at hne
      · rename_i hc
        rw [if_pos hc]
        rw [Bool.and_eq_true, Bool.not_eq_true'] at hc
        exact .run hc.1 hc.2 fun _ => List.mem_takeWhile_imp
      · exact absurd rfl hne
  longest := by
    rintro _ _ ⟨hc, hd, hrest⟩ ⟨rest, rfl⟩
    rw [List.cons_append, namePrefix, if_pos (by simp [hc, hd]),
      List.takeWhile_append_of_pos hrest, ← List.cons_append]
    exact List.prefix_append _ _

/-- What is cut off a text is what stands at its front. -/
theorem lexemeAt_eq_some_iff : lexemeAt c rest = some (kind, w) ↔ Stands kind w (c :: rest) := by
  rw [lexemeAt]
  constructor
  · intro h
    split at h
    · rename_i hne
      cases h
      exact .number (cuts_numberPrefix.longest_iff.2 ⟨hne, rfl⟩)
    · rename_i hnumber
      have habsent := cuts_numberPrefix.absent_iff.2 (not_not.1 hnumber)
      split at h
      · rename_i hne
        cases h
        exact .name habsent (cuts_namePrefix.longest_iff.2 ⟨hne, rfl⟩)
      · rename_i hname
        split at h
        · cases h
        · rename_i hblank
          cases h
          exact .other habsent (cuts_namePrefix.absent_iff.2 (not_not.1 hname))
            (Bool.eq_false_iff.2 hblank)
  · intro h
    cases h with
    | number h =>
      obtain ⟨hne, rfl⟩ := cuts_numberPrefix.longest_iff.1 h
      rw [if_pos hne]
    | name habsent h =>
      obtain ⟨hne, rfl⟩ := cuts_namePrefix.longest_iff.1 h
      rw [if_neg (not_not.2 (cuts_numberPrefix.absent_iff.1 habsent)), if_pos hne]
    | other habsent habsent' hblank =>
      rw [if_neg (not_not.2 (cuts_numberPrefix.absent_iff.1 habsent)),
        if_neg (not_not.2 (cuts_namePrefix.absent_iff.1 habsent')), if_neg (by simp [hblank])]

theorem isBlank_of_lexemeAt_eq_none (h : lexemeAt c rest = none) : isBlank c = true := by
  rw [lexemeAt] at h
  split at h
  · cases h
  · split at h
    · cases h
    · split at h
      · assumption
      · cases h

/-- No blank belongs to a name. -/
theorem isNameChar_of_isBlank (h : isBlank c = true) : isNameChar c = false := by
  obtain ⟨r, hr, hfirst, hlast⟩ := Ranges.exists_of_contains h
  have hranges : ∀ r ∈ blankRanges, ∀ k < r.2 + 1 - r.1,
      letterRanges.contains (r.1 + k) = false ∧ digitRanges.contains (r.1 + k) = false ∧
        numeralRanges.contains (r.1 + k) = false ∧ r.1 + k ≠ '_'.toNat := by
    decide +kernel
  obtain ⟨hletter, hdigit, hnumeral, hunderscore⟩ := hranges r hr (c.toNat - r.1) (by omega)
  rw [Nat.add_sub_cancel' hfirst] at hletter hdigit hnumeral hunderscore
  have hne : c ≠ '_' := fun hc => hunderscore (congrArg Char.toNat hc)
  simp [isNameChar, isLetter, isDigit, isNumeral, hletter, hdigit, hnumeral, hne]

theorem isNameChar_of_isDigit (h : isDigit c = true) : isNameChar c = true := by
  simp [isNameChar, h]

theorem isBlank_of_isNameChar (h : isNameChar c = true) : isBlank c = false := by
  by_contra hblank
  rw [isNameChar_of_isBlank (Bool.not_eq_false _ ▸ hblank)] at h
  exact absurd h (by decide)

namespace Stands

theorem front (h : Stands kind w cs) : w <+: cs := by
  cases h with
  | number h => exact h.front
  | name _ h => exact h.front
  | other => exact List.prefix_append [_] _

theorem ne_nil (h : Stands kind w cs) : w ≠ [] := by
  cases h with
  | number h => exact cuts_numberPrefix.ne_nil h.form
  | name _ h => exact cuts_namePrefix.ne_nil h.form
  | other => exact List.cons_ne_nil _ _

theorem not_blank (h : Stands kind w cs) : ∀ d ∈ w, isBlank d = false := by
  have hdigits : ∀ {l : List Char}, (∀ d ∈ l, isDigit d = true) → ∀ d ∈ l, isBlank d = false :=
    fun h d hd => isBlank_of_isNameChar (isNameChar_of_isDigit (h d hd))
  cases h with
  | number h =>
    cases h.form with
    | digits _ hds => exact hdigits hds
    | point _ hds hes =>
      rw [List.forall_mem_append, List.forall_mem_cons]
      exact ⟨hdigits hds, by decide, hdigits hes⟩
    | fraction _ hes => exact List.forall_mem_cons.2 ⟨by decide, hdigits hes⟩
  | name _ h =>
    cases h.form with
    | run hc _ hrest =>
      rw [List.forall_mem_cons]
      exact ⟨isBlank_of_isNameChar hc, fun d hd => isBlank_of_isNameChar (hrest d hd)⟩
  | other _ _ hblank =>
    rw [List.forall_mem_singleton]
    exact hblank

theorem filter_isBlank (h : Stands kind w cs) : w.filter isBlank = [] := by
  rw [List.filter_eq_nil_iff]
  exact fun d hd => Bool.eq_false_iff.1 (h.not_blank d hd)

theorem filter_not_isBlank (h : Stands kind w cs) : w.filter (!isBlank ·) = w := by
  rw [List.filter_eq_self]
  intro d hd
  rw [h.not_blank d hd, Bool.not_false]

/-- A lexeme alone is its own front. -/
theorem alone (h : Stands kind w cs) : Stands kind w w := by
  cases h with
  | number h => exact .number h.alone
  | name habsent h => exact .name (habsent.mono h.front) h.alone
  | @other c rest habsent habsent' hblank =>
    have hfront : [c] <+: c :: rest := List.prefix_append [c] rest
    exact .other (habsent.mono hfront) (habsent'.mono hfront) hblank

end Stands

end PartScan
