import PartScan.Proofs.Parenthesis.Mate
import PartScan.Proofs.Scan.Outcome

/-! # Scans that pair with the first closing parenthesis

No closing parenthesis is left inside a group that the first one ends. So groups do not nest, an
opening parenthesis inside a group is refused, and no scan is refused for its depth.
-/

namespace PartScan

variable {e : List Char} {l l' m : Level} {outer : List Level} {c : Char} {rest : List Char}
  {i o j k : Nat}

/-- At most one level lies inside the whole expression. It has no closing parenthesis, and outside
of it every opening parenthesis is closed. -/
structure Siblings (e : List Char) (l : Level) (outer : List Level) : Prop where
  stacked : Stacked e l outer
  closed : outer = [] → ∀ i < l.offset, e[i]? = some '(' →
    ∃ j < l.offset, i < j ∧ e[j]? = some ')'
  alone : ∀ m rest, outer = m :: rest → rest = [] ∧ 0 < l.base ∧ e[l.base - 1]? = some '(' ∧
    ')' ∉ l.text
  clear : ∀ o < l.offset, ¬ Stranded e o

namespace Siblings

theorem start (e : List Char) : Siblings e { base := 0, text := e } [] where
  stacked := .start e
  closed _ i hi := absurd hi (Nat.not_lt_zero i)
  alone m rest h := by cases h
  clear o ho := absurd ho (Nat.not_lt_zero o)

/-- Reading a character that opens no group keeps the levels. -/
theorem step (h : Siblings e l outer) (hr : l.remaining = c :: rest) (hc : c ≠ '(')
    (hs : Stacked e l' outer) (hb : l'.base = l.base) (ht : l'.text = l.text)
    (ho : l'.offset = l.offset + 1) : Siblings e l' outer := by
  have hget := h.stacked.getElem_offset hr
  have hnone : e[l.offset]? ≠ some '(' := by simpa [hget] using hc
  refine ⟨hs, fun houter i hi hopen => ?_, fun m rest houter => ?_, ?_⟩
  · rw [ho] at hi ⊢
    rcases Nat.lt_succ_iff_lt_or_eq.1 hi with hi | rfl
    · obtain ⟨j, hj, hij, hclose⟩ := h.closed houter i hi hopen
      exact ⟨j, Nat.lt_succ_of_lt hj, hij, hclose⟩
    · exact absurd hopen hnone
  · rw [hb, ht]
    exact h.alone m rest houter
  · rw [ho]
    exact Nat.forall_lt_succ_right.2 ⟨h.clear, fun hs => hnone hs.1⟩

/-- A group can only be entered from the level of the whole expression. -/
theorem outer_eq_nil (h : Siblings e l outer)
    (hk : Pairing.firstClosing l.remaining = some k) : outer = [] := by
  cases outer with
  | nil => rfl
  | cons m rest =>
    have hmem := List.mem_of_getElem? (Pairing.firstClosing_getElem hk)
    exact absurd (List.mem_of_mem_drop hmem) (h.alone m rest rfl).2.2.2

theorem enter {rules : Rules} (hf : rules.pairing = .first) (h : Siblings e l outer)
    (hr : l.remaining = '(' :: rest) (hk : rules.pairing.closing l.remaining = some k) :
    Siblings e (l.group k) (l.passGroup k :: outer) := by
  have hs := h.stacked.enter hr hk
  rw [hf, Pairing.closing] at hk
  obtain rfl := h.outer_eq_nil hk
  have hopen := h.stacked.getElem_offset hr
  obtain ⟨hclose, hfree⟩ := Pairing.firstClosing_eq_some_iff.1 hk
  refine ⟨hs, fun houter => (List.cons_ne_nil _ _ houter).elim, fun m rest' houter => ?_, ?_⟩
  · obtain ⟨-, rfl⟩ := List.cons.inj houter
    refine ⟨rfl, Nat.succ_pos _, hopen, fun hmem => ?_⟩
    obtain ⟨j, hj⟩ := List.mem_iff_getElem?.1 hmem
    simp only [Level.group, List.getElem?_take, List.getElem?_drop] at hj
    split at hj
    · exact hfree (1 + j) (by omega) hj
    · cases hj
  · rw [Level.offset_group]
    refine Nat.forall_lt_succ_right.2 ⟨h.clear, ?_⟩
    have hend := (h.stacked.getElem_remaining (Pairing.closing_lt (p := .first) hk)).trans hclose
    have hpos := Pairing.closing_pos (p := .first) (hr ▸ hk)
    rintro ⟨-, hlast | ⟨i, hi, hiopen, hbetween⟩⟩
    · exact hlast _ (List.getElem?_eq_some_iff.1 hend).1 (by omega) hend
    · obtain ⟨j, hj, hij, hjclose⟩ := h.closed rfl i hi hiopen
      exact hbetween j hj hij hjclose

theorem leave (h : Siblings e l (m :: outer)) (hr : l.remaining = []) (ps : List Part)
    (hs : Stacked e (m.takeParts ps) outer) : Siblings e (m.takeParts ps) outer := by
  obtain ⟨hget, hm, -⟩ := h.stacked.getElem_end hr
  have hnone : e[l.offset]? ≠ some '(' := by simp [hget]
  obtain ⟨rfl, -⟩ := h.alone m outer rfl
  refine ⟨hs, fun _ i hi hopen => ?_,
    fun m' rest houter => (List.cons_ne_nil _ _ houter.symm).elim, ?_⟩
  · rw [Level.offset_takeParts, hm] at hi ⊢
    rcases Nat.lt_succ_iff_lt_or_eq.1 hi with hi | rfl
    · exact ⟨l.offset, Nat.lt_succ_self _, hi, hget⟩
    · exact absurd hopen hnone
  · rw [Level.offset_takeParts, hm]
    exact Nat.forall_lt_succ_right.2 ⟨h.clear, fun hs => hnone hs.1⟩

theorem kept {rules : Rules} (hf : rules.pairing = .first) (e : List Char) :
    Kept rules (Siblings e) where
  read h hr hc hw :=
    h.step hr hc ((Stacked.kept rules e).read h.stacked hr hc hw) rfl rfl (Level.offset_read _ _)
  skip h hr hc hw :=
    h.step hr hc ((Stacked.kept rules e).skip h.stacked hr hc hw) (by simp [Level.skip])
      (by simp [Level.skip]) (Level.offset_skip _ _)
  enter h hr hk _ := h.enter hf hr hk
  leave h hr := h.leave hr _ ((Stacked.kept rules e).leave h.stacked hr)

/-- Between the parenthesis that opens the level and the one that ends it no closing one
stands. -/
theorem between (h : Siblings e l (m :: outer)) :
    ∀ j < l.stop, l.base - 1 < j → e[j]? ≠ some ')' := by
  obtain ⟨-, hpos, -, hfree⟩ := h.alone m outer rfl
  intro j hj hlt hclose
  obtain ⟨i, rfl⟩ := Nat.exists_eq_add_of_le (show l.base ≤ j by omega)
  rw [h.stacked.getElem_text (Nat.lt_of_add_lt_add_left hj)] at hclose
  exact hfree (List.mem_of_getElem? hclose)

/-- A parenthesis is only refused because it is stranded. -/
theorem refused {rules : Rules} (hf : rules.pairing = .first) (h : Siblings e l outer)
    (hr : l.remaining = '(' :: rest) {f : Fault} (hfault : Refused rules e l outer f) :
    Stranded e l.offset ∧ f = .unclosed e (some l.offset) none := by
  have hopen := h.stacked.getElem_offset hr
  cases hfault with
  | unclosed hk =>
    refine ⟨⟨hopen, ?_⟩, rfl⟩
    rw [hf, Pairing.closing, Pairing.firstClosing_eq_none_iff] at hk
    cases outer with
    | nil =>
      refine .inl fun j _ hlt hclose => hk ?_
      rw [h.stacked.remaining_eq_drop, List.mem_iff_getElem?]
      exact ⟨j - l.offset, by rwa [List.getElem?_drop, Nat.add_sub_cancel' (Nat.le_of_lt hlt)]⟩
    | cons m outer =>
      obtain ⟨-, hpos, hbase, -⟩ := h.alone m outer rfl
      exact .inr ⟨l.base - 1, by unfold Level.offset; omega, hbase,
        fun j hj => h.between j (hj.trans (Stacked.offset_lt_stop hr))⟩
  | tooDeep hk hd =>
    rw [hf, Pairing.closing] at hk
    have hpos := rules.maxDepth_pos
    rw [h.outer_eq_nil hk] at hd
    exact absurd hd (Nat.not_le.2 hpos)

end Siblings

variable {rules : Rules}

/-- A scan succeeds where nothing is stranded, and a fault is that of the first stranded
parenthesis. -/
theorem tokenize_first (hf : rules.pairing = .first) (e : List Char) :
    match tokenize rules e with
    | .ok _ => ∀ o, ¬ Stranded e o
    | .error f => ∃ o, Stranded e o ∧ (∀ o' < o, ¬ Stranded e o') ∧
        f = .unclosed e (some ↑o) none := by
  have h := (Siblings.kept hf e).tokenize_meets (.start e)
  revert h
  cases tokenize rules e with
  | ok ps =>
    rintro ⟨l, hl, hr, -⟩ o ho
    have hlen := hl.stacked.offset_end hr
    exact hl.clear o (hlen ▸ (List.getElem?_eq_some_iff.1 ho.1).1) ho
  | error f =>
    rintro ⟨l, outer, rest, hl, hr, hfault⟩
    obtain ⟨hstranded, rfl⟩ := hl.refused hf hr hfault
    exact ⟨l.offset, hstranded, hl.clear, rfl⟩

/-- A scan that pairs with the first closing parenthesis ends. It fails exactly where a parenthesis
is stranded, and the first such one is unclosed; no depth is too large, and no access on the way
fails. -/
theorem first_scan_outcome (hf : rules.pairing = .first) (e : List Char) :
    ((∃ f, tokenize rules e = .error f) ↔ ∃ o, Stranded e o) ∧
      (∀ o, Stranded e o → (∀ o' < o, ¬ Stranded e o') →
        tokenize rules e = .error (.unclosed e (some ↑o) none)) ∧
      (∀ e' o m, tokenize rules e ≠ .error (.tooDeep e' o m)) ∧
      (Scan.ready rules e).run.1.length ≤ e.length + 1 ∧
      ∀ l outer, Reached rules e l outer →
        advance? rules e l outer = (advance rules e l outer).checked := by
  have h := tokenize_first hf e
  have hfirst (o : Nat) (ho : Stranded e o) (hleast : ∀ o' < o, ¬ Stranded e o') :
      tokenize rules e = .error (.unclosed e (some ↑o) none) := by
    cases ht : tokenize rules e with
    | ok ps =>
      rw [ht] at h
      exact absurd ho (h o)
    | error f =>
      rw [ht] at h
      obtain ⟨o', ho', hleast', rfl⟩ := h
      rcases Nat.lt_trichotomy o o' with hlt | rfl | hlt
      · exact absurd ho (hleast' o hlt)
      · rfl
      · exact absurd ho' (hleast o' hlt)
  refine ⟨⟨?_, ?_⟩, hfirst, fun e' o m ht => ?_, Scan.length_run_ready_le rules e,
    fun l outer hl => ((Stacked.kept rules e).reached (.start e) hl).advance?_eq⟩
  · rintro ⟨f, ht⟩
    rw [ht] at h
    obtain ⟨o, ho, -⟩ := h
    exact ⟨o, ho⟩
  · rintro ⟨o, ho⟩
    have hleast := Nat.find_spec ⟨o, ho⟩
    exact ⟨_, hfirst _ hleast fun o' => Nat.find_min ⟨o, ho⟩⟩
  · rw [ht] at h
    obtain ⟨o', -, -, hfault⟩ := h
    cases hfault

theorem first_scan_outcome_inner :
    ({ pairing := .first, maxDepth := 1 } : Rules).pairing = .first ∧
      tokenize { pairing := .first, maxDepth := 1 }
          ['f', '(', ')', 'g', '(', 'h', '(', 'x', ')', ')'] =
        .error (.unclosed ['f', '(', ')', 'g', '(', 'h', '(', 'x', ')', ')'] (some 6) none) :=
  ⟨rfl, (first_scan_outcome rfl _).2.1 6 (by decide) (by decide)⟩

end PartScan
