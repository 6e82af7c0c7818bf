import PartScan.Proofs.Lexeme.Tiling

/-! # Numbers

A text is a number exactly if it is all one number lexeme. Such a text holds digits and at most one
point, and no other text that has a digit does.
-/

namespace PartScan

open Text

variable {cs ds es : List Char}

theorem point_notMem (h : ∀ d ∈ ds, isDigit d = true) : '.' ∉ ds :=
  fun hmem => absurd (h '.' hmem) (by decide)

theorem exists_isDigit (hne : ds ≠ []) (h : ∀ d ∈ ds, isDigit d = true) :
    ∃ d ∈ ds, isDigit d = true :=
  ⟨_, List.head_mem hne, h _ (List.head_mem hne)⟩

theorem forall_isDigit (h : ∀ c ∈ cs, isDigit c = true ∨ c = '.') (hpoint : '.' ∉ cs) :
    ∀ c ∈ cs, isDigit c = true :=
  fun c hc => (h c hc).resolve_right fun heq => hpoint (heq ▸ hc)

/-- A number has no point, or one with digits on at least one side. -/
theorem numberForm_iff_split : NumberForm cs ↔
    (cs ≠ [] ∧ ∀ d ∈ cs, isDigit d = true) ∨
      ∃ ds es, cs = ds ++ '.' :: es ∧ ds ++ es ≠ [] ∧ ∀ d ∈ ds ++ es, isDigit d = true := by
  constructor
  · intro h
    cases h with
    | digits hne hds => exact .inl ⟨hne, hds⟩
    | @point ds es hne hds hes =>
      exact .inr ⟨ds, es, rfl, List.append_ne_nil_of_left_ne_nil hne es,
        List.forall_mem_append.2 ⟨hds, hes⟩⟩
    | @fraction es hne hes => exact .inr ⟨[], es, rfl, hne, hes⟩
  · rintro (⟨hne, hds⟩ | ⟨ds, es, rfl, hne, hdigits⟩)
    · exact .digits hne hds
    · obtain ⟨hds, hes⟩ := List.forall_mem_append.1 hdigits
      by_cases hnil : ds = []
      · subst hnil
        exact .fraction hne hes
      · exact .point hnil hds hes

/-- The form of a number by counting: digits and points, no second point, at least one digit. -/
theorem numberForm_iff : NumberForm cs ↔
    (∀ c ∈ cs, isDigit c = true ∨ c = '.') ∧ cs.count '.' ≤ 1 ∧ ∃ c ∈ cs, isDigit c = true := by
  rw [numberForm_iff_split]
  constructor
  · rintro (⟨hne, hds⟩ | ⟨ds, es, rfl, hne, hdigits⟩)
    · refine ⟨fun c hc => .inl (hds c hc), ?_, exists_isDigit hne hds⟩
      rw [List.count_eq_zero_of_not_mem (point_notMem hds)]
      exact Nat.zero_le 1
    · have hmiddle : (ds ++ '.' :: es).Perm ('.' :: (ds ++ es)) := List.perm_middle
      obtain ⟨d, hd, hdigit⟩ := exists_isDigit hne hdigits
      refine ⟨fun c hc => ?_, ?_, d, hmiddle.mem_iff.2 (List.mem_cons_of_mem _ hd), hdigit⟩
      · exact (List.mem_cons.1 (hmiddle.mem_iff.1 hc)).symm.imp_left (hdigits c)
      · rw [hmiddle.count_eq, List.count_cons_self,
          List.count_eq_zero_of_not_mem (point_notMem hdigits)]
  · rintro ⟨hall, hcount, d, hd, hdigit⟩
    by_cases hpoint : '.' ∈ cs
    · obtain ⟨ds, es, rfl⟩ := List.append_of_mem hpoint
      have hmiddle : (ds ++ '.' :: es).Perm ('.' :: (ds ++ es)) := List.perm_middle
      have hnone : '.' ∉ ds ++ es := by
        rw [hmiddle.count_eq, List.count_cons_self] at hcount
        exact List.count_eq_zero.1 (by omega)
      refine .inr ⟨ds, es, rfl, fun hnil => ?_, forall_isDigit (fun c hc => ?_) hnone⟩
      · rw [hmiddle.mem_iff, hnil, List.mem_singleton] at hd
        exact absurd (hd ▸ hdigit) (by decide)
      · exact hall c (hmiddle.mem_iff.2 (List.mem_cons_of_mem _ hc))
    · exact .inl ⟨List.ne_nil_of_mem hd, forall_isDigit hall hpoint⟩

/-- A number stands at its own front, and nothing longer does. -/
theorem NumberForm.stands (h : NumberForm cs) : Stands .number cs cs :=
  .number ⟨h, List.prefix_rfl, fun _ _ hv => hv.length_le⟩

theorem isNumber_iff_numberForm : isNumber cs = true ↔ NumberForm cs := by
  rw [isNumber]
  constructor
  · intro h
    split at h
    · rename_i l hl
      simp only [Bool.and_eq_true, decide_eq_true_eq] at h
      obtain ⟨hkind, htext⟩ := h
      obtain ⟨k, -, hstands⟩ := (tiles_lexFrom 0 cs).stands (l := l)
        (by rw [← lex, hl]; exact List.mem_singleton_self l)
      -- the lexeme is all of `cs`, so no blank was skipped beside it
      rw [hkind, htext] at hstands
      cases hstands with
      | number h => exact h.form
    · cases h
  · intro h
    rw [h.stands.lex_text, lexemes_lexeme]
    simp

/-- A text is a number if and only if it is digits, digits with a point behind or among them, or
digits behind a point: that is, only digits and points, no second point, and at least one digit. -/
theorem isNumber_iff (cs : List Char) :
    (isNumber cs = true ↔ NumberForm cs) ∧
      (isNumber cs = true ↔ (∀ c ∈ cs, isDigit c = true ∨ c = '.') ∧ cs.count '.' ≤ 1 ∧
        ∃ c ∈ cs, isDigit c = true) :=
  ⟨isNumber_iff_numberForm, isNumber_iff_numberForm.trans numberForm_iff⟩

theorem isNumber_iff_blank :
    lex ['1', '.', ' '] = [.lexeme ⟨.number, ['1', '.'], 0⟩, .skipped ' '] ∧
      isNumber ['1', '.', ' '] = false ∧
      NumberForm ['٣', '.'] ∧ isNumber ['٣', '.'] = true := by
  have hform : NumberForm ['٣', '.'] :=
    @NumberForm.point ['٣'] [] nofun (List.forall_mem_singleton.2 (by decide +kernel)) nofun
  refine ⟨by decide +kernel, ?_, hform, (isNumber_iff _).1.2 hform⟩
  rw [← Bool.not_eq_true, (isNumber_iff _).2]
  exact fun h => absurd (h.1 ' ' (by decide)) (by decide)

end PartScan
