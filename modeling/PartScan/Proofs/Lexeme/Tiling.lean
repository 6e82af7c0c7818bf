import PartScan.Proofs.Lexeme.Form

/-! # Lexemes tile the text

At each position of a text either a lexeme stands, and the lexer goes on behind it, or a blank is
skipped. So each character belongs to one lexeme or is a skipped blank, and both come in the order
of the text.
-/

namespace PartScan

open Text

variable {index : Nat} {kind : LexemeKind} {c : Char} {cs rest w : List Char} {l : Lexeme}
  {ls : List Lexed}

/-- What is cut off a text whose first character has the offset `index`: lexemes and blanks one
behind the other. -/
inductive Tiles : Nat → List Char → List Lexed → Prop
  | nil (index : Nat) : Tiles index [] []
  | lexeme {index : Nat} {kind : LexemeKind} {w rest : List Char} {ls : List Lexed}
      (hw : Stands kind w (w ++ rest)) (h : Tiles (index + w.length) rest ls) :
      Tiles index (w ++ rest) (.lexeme ⟨kind, w, index⟩ :: ls)
  | blank {index : Nat} {c : Char} {rest : List Char} {ls : List Lexed} (hc : isBlank c = true)
      (h : Tiles (index + 1) rest ls) : Tiles index (c :: rest) (.skipped c :: ls)

/-- Behind a lexeme at the front, the lexer goes on. -/
theorem lexFrom_append (h : Stands kind w (w ++ rest)) :
    lexFrom index (w ++ rest) = .lexeme ⟨kind, w, index⟩ :: lexFrom (index + w.length) rest := by
  cases w with
  | nil => exact absurd rfl h.ne_nil
  | cons c w =>
    rw [List.cons_append] at h ⊢
    rw [lexFrom, lexemeAt_eq_some_iff.2 h]
    simp [Nat.add_assoc, Nat.add_comm 1]

theorem tiles_lexFrom (index : Nat) (cs : List Char) : Tiles index cs (lexFrom index cs) := by
  induction hn : cs.length using Nat.strong_induction_on generalizing index cs with
  | _ n ih =>
    cases cs with
    | nil =>
      rw [lexFrom]
      exact .nil index
    | cons c rest =>
      cases hat : lexemeAt c rest with
      | none =>
        rw [lexFrom, hat]
        exact .blank (isBlank_of_lexemeAt_eq_none hat) (ih _ (by simp [← hn]) _ _ rfl)
      | some front =>
        have hw := lexemeAt_eq_some_iff.1 hat
        obtain ⟨rest', hrest⟩ := hw.front
        have hlength := congrArg List.length hrest
        have hpos := List.length_pos_iff.2 hw.ne_nil
        rw [List.length_append, hn] at hlength
        rw [← hrest] at hw ⊢
        rw [lexFrom_append hw]
        exact .lexeme hw (ih _ (by omega) _ _ rfl)

@[simp] theorem lexemes_lexeme (l : Lexeme) (ls : List Lexed) :
    (.lexeme l :: ls).filterMap Lexed.lexeme? = l :: ls.filterMap Lexed.lexeme? := rfl

@[simp] theorem lexemes_skipped (c : Char) (ls : List Lexed) :
    (.skipped c :: ls).filterMap Lexed.lexeme? = ls.filterMap Lexed.lexeme? := rfl

@[simp] theorem skipped_lexeme (l : Lexeme) (ls : List Lexed) :
    (.lexeme l :: ls).filterMap Lexed.skipped? = ls.filterMap Lexed.skipped? := rfl

@[simp] theorem skipped_skipped (c : Char) (ls : List Lexed) :
    (.skipped c :: ls).filterMap Lexed.skipped? = c :: ls.filterMap Lexed.skipped? := rfl

namespace Tiles

theorem length_le (h : Tiles index cs ls) : ls.length ≤ cs.length := by
  induction h with
  | nil => exact Nat.le_refl 0
  | lexeme hw _ ih =>
    have := List.length_pos_iff.2 hw.ne_nil
    rw [List.length_cons, List.length_append]
    omega
  | blank _ _ ih => exact Nat.succ_le_succ ih

theorem flatMap_text (h : Tiles index cs ls) :
    (ls.filterMap Lexed.lexeme?).flatMap Lexeme.text = cs.filter (!isBlank ·) := by
  induction h with
  | nil => rfl
  | lexeme hw _ ih =>
    rw [lexemes_lexeme, List.flatMap_cons, ih, List.filter_append, hw.filter_not_isBlank]
  | blank hc _ ih => rw [lexemes_skipped, ih, List.filter_cons_of_neg (by simp [hc])]

theorem filterMap_skipped (h : Tiles index cs ls) :
    ls.filterMap Lexed.skipped? = cs.filter isBlank := by
  induction h with
  | nil => rfl
  | lexeme hw _ ih =>
    rw [skipped_lexeme, ih, List.filter_append, hw.filter_isBlank, List.nil_append]
  | blank hc _ ih => rw [skipped_skipped, ih, List.filter_cons_of_pos hc]

/-- Each lexeme stands where its offset says. -/
theorem stands (h : Tiles index cs ls) (hl : l ∈ ls.filterMap Lexed.lexeme?) :
    ∃ k, l.index = index + k ∧ Stands l.kind l.text (cs.drop k) := by
  induction h with
  | nil => cases hl
  | @lexeme index kind w rest ls hw _ ih =>
    rcases List.mem_cons.1 hl with rfl | hl
    · exact ⟨0, rfl, hw⟩
    · obtain ⟨k, hk, hstands⟩ := ih hl
      exact ⟨w.length + k, by omega, by rwa [List.drop_length_add_append]⟩
  | blank _ _ ih =>
    obtain ⟨k, hk, hstands⟩ := ih hl
    exact ⟨k + 1, by omega, hstands⟩

theorem pairwise (h : Tiles index cs ls) :
    (ls.filterMap Lexed.lexeme?).Pairwise fun l m => l.index + l.text.length ≤ m.index := by
  induction h with
  | nil => exact .nil
  | lexeme _ h ih =>
    refine List.pairwise_cons.2 ⟨fun m hm => ?_, ih⟩
    obtain ⟨k, hk, -⟩ := h.stands hm
    exact hk ▸ Nat.le_add_right _ k
  | blank _ _ ih => exact ih

/-- A character belongs to a lexeme if and only if it is no blank. -/
theorem covered_iff (h : Tiles index cs ls) {p : Nat} (hp : cs[p]? = some c) :
    (∃ l ∈ ls.filterMap Lexed.lexeme?, l.index ≤ index + p ∧
      index + p < l.index + l.text.length) ↔ isBlank c = false := by
  induction h generalizing p with
  | nil => cases hp
  | @lexeme index kind w rest ls hw h ih =>
    simp only [lexemes_lexeme, List.mem_cons, exists_eq_or_imp]
    rcases Nat.lt_or_ge p w.length with hlt | hge
    · rw [List.getElem?_append_left hlt] at hp
      exact iff_of_true (.inl ⟨Nat.le_add_right _ _, Nat.add_lt_add_left hlt _⟩)
        (hw.not_blank c (List.mem_of_getElem? hp))
    · rw [List.getElem?_append_right hge] at hp
      rw [← ih hp, Nat.add_assoc, Nat.add_sub_cancel' hge, or_iff_right]
      rintro ⟨-, hcovered⟩
      exact Nat.not_lt.2 hge (Nat.lt_of_add_lt_add_left hcovered)
  | @blank index d rest ls hd h ih =>
    rw [lexemes_skipped]
    cases p with
    | zero =>
      cases hp
      rw [hd]
      refine iff_of_false ?_ (by decide)
      rintro ⟨l, hl, hle, -⟩
      obtain ⟨k, hk, -⟩ := h.stands hl
      omega
    | succ p =>
      rw [← ih hp]
      simp only [Nat.add_assoc, Nat.add_comm 1]

end Tiles

/-- The text of a lexeme has no other lexeme than itself. -/
theorem Stands.lex_text (h : Stands kind w cs) : lex w = [.lexeme ⟨kind, w, 0⟩] := by
  have hw : Stands kind w (w ++ []) := (List.append_nil w).symm ▸ h.alone
  rw [lex, ← List.append_nil w, lexFrom_append hw, lexFrom, List.append_nil]

/-- The lexemes of a text stand one behind the other, each is the longest number or name at its
offset or another single character, and its text alone is cut into that lexeme again. Between them
lie exactly the blanks, and each is skipped once. Each step consumes a character, so lexing ends. -/
theorem lex_tiles (cs : List Char) :
    ((lex cs).filterMap Lexed.lexeme?).Pairwise (fun l m => l.index + l.text.length ≤ m.index) ∧
      (∀ l ∈ (lex cs).filterMap Lexed.lexeme?, l.text ≠ [] ∧ l.text <+: cs.drop l.index ∧
        Stands l.kind l.text (cs.drop l.index) ∧ lex l.text = [.lexeme ⟨l.kind, l.text, 0⟩]) ∧
      (∀ p c, cs[p]? = some c →
        ((∃ l ∈ (lex cs).filterMap Lexed.lexeme?, l.index ≤ p ∧ p < l.index + l.text.length) ↔
          isBlank c = false)) ∧
      (lex cs).filterMap Lexed.skipped? = cs.filter isBlank ∧
      ((lex cs).filterMap Lexed.lexeme?).flatMap Lexeme.text = cs.filter (!isBlank ·) ∧
      (lex cs).length ≤ cs.length := by
  have h : Tiles 0 cs (lex cs) := tiles_lexFrom 0 cs
  refine ⟨h.pairwise, ?_, ?_, h.filterMap_skipped, h.flatMap_text, h.length_le⟩
  · intro l hl
    obtain ⟨k, hk, hstands⟩ := h.stands hl
    rw [Nat.zero_add] at hk
    rw [← hk] at hstands
    exact ⟨hstands.ne_nil, hstands.front, hstands, hstands.lex_text⟩
  · intro p c hp
    have := h.covered_iff hp
    rwa [Nat.zero_add] at this

theorem lex_tiles_points :
    lex ['2', '.', '.', '5', ' ', 'x', '²', '+'] =
        [.lexeme ⟨.number, ['2', '.'], 0⟩, .lexeme ⟨.number, ['.', '5'], 2⟩, .skipped ' ',
          .lexeme ⟨.name, ['x', '²'], 5⟩, .lexeme ⟨.other, ['+'], 7⟩] ∧
      Stands .number ['.', '5'] ['.', '5', ' ', 'x', '²', '+'] ∧
      lex ['.', '5'] = [.lexeme ⟨.number, ['.', '5'], 0⟩] := by
  have hlex : lex ['2', '.', '.', '5', ' ', 'x', '²', '+'] =
      [.lexeme ⟨.number, ['2', '.'], 0⟩, .lexeme ⟨.number, ['.', '5'], 2⟩, .skipped ' ',
        .lexeme ⟨.name, ['x', '²'], 5⟩, .lexeme ⟨.other, ['+'], 7⟩] := by decide +kernel
  obtain ⟨-, hlexemes, -⟩ := lex_tiles ['2', '.', '.', '5', ' ', 'x', '²', '+']
  obtain ⟨-, -, hstands, halone⟩ := hlexemes ⟨.number, ['.', '5'], 2⟩ (by rw [hlex]; decide)
  exact ⟨hlex, hstands, halone⟩

end PartScan
