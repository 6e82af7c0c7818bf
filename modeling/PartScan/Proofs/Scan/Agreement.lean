import PartScan.Proofs.Scan.Siblings
import PartScan.Proofs.Scan.Suspension

/-! # Agreement of the pairings

Where nothing is stranded, both pairings close every group at the same place, so their scans take
the same steps. That is so where the first pairing succeeds, and where groups nested at most one
deep are matched.
-/

namespace PartScan

variable {r r' : Rules} {e : List Char} {l : Level} {outer : List Level} {c : Char}
  {rest : List Char} {k : Nat}

section Steps

theorem advance_end (hr : l.remaining = []) : advance r e l outer =
    match outer with
    | [] => .finished (l.endWord r.quote).parts
    | m :: rest => .suspended (m.takeParts (l.endWord r.quote).parts) rest := by
  rw [advance]
  split
  · rfl
  · rename_i h
    rw [hr] at h
    cases h

theorem advance_open (hr : l.remaining = '(' :: rest)
    (hk : r.pairing.closing l.remaining = some k) (hd : outer.length < r.maxDepth) :
    advance r e l outer = advance r e (l.group k) (l.passGroup k :: outer) := by
  rw [advance]
  split
  · rename_i h
    rw [hr] at h
    cases h
  · rename_i h
    rw [hr] at h
    cases h
    rw [if_pos rfl, hk]
    exact if_neg (by omega)

theorem advance_char (hr : l.remaining = c :: rest) (hc : c ≠ '(') : advance r e l outer =
    .suspended (if isWordChar r.quote c then l.read c else l.skip r.quote) outer := by
  rw [advance]
  split
  · rename_i h
    rw [hr] at h
    cases h
  · rename_i h
    rw [hr] at h
    cases h
    rw [if_neg hc]
    split <;> rfl

end Steps

namespace Siblings

/-- From a stack of sibling groups of an expression in which nothing is stranded, every pairing
closes a group where the first one does. -/
theorem closing_eq {p : Pairing} (h : Siblings e l outer) (hs : ∀ o, ¬ Stranded e o)
    (hr : l.remaining = '(' :: rest) (hk : Pairing.first.closing l.remaining = some k) :
    p.closing l.remaining = some k := by
  cases p with
  | first => exact hk
  | nested =>
    have hlt : k < l.remaining.length := Pairing.closing_lt hk
    have hfree := (Pairing.firstClosing_eq_some_iff.1 hk).2
    rw [hr] at hk ⊢
    refine Pairing.closing_nested_of_first hk fun j hpos hj hopen => ?_
    rw [← hr, ← h.stacked.getElem_remaining (hj.trans hlt)] at hopen
    -- an inner parenthesis would be stranded, as nothing is closed between the outer one and it
    refine hs (l.offset + j) ⟨hopen, .inr ⟨l.offset, Nat.lt_add_of_pos_right hpos,
      h.stacked.getElem_offset hr, fun i hi hlo hclose => ?_⟩⟩
    obtain ⟨i, rfl⟩ := Nat.exists_eq_add_of_le hlo.le
    rw [h.stacked.getElem_remaining (by omega)] at hclose
    exact hfree i (by omega) hclose

/-- Where nothing is stranded, a step does not depend on the pairing and the greatest depth. -/
theorem advance_congr (hf : r.pairing = .first) (hq : r'.quote = r.quote)
    (hs : ∀ o, ¬ Stranded e o) (h : Siblings e l outer) :
    advance r' e l outer = advance r e l outer := by
  fun_induction advance r e l outer with
  | case1 l hr => rw [advance_end hr, hq]
  | case2 l hr parts m outer => rw [advance_end hr, hq]
  | case3 l outer rest hk hr => exact absurd (h.refused hf hr (.unclosed hk)).1 (hs _)
  | case4 l outer rest k hk hd hr =>
    exact absurd (h.refused hf hr (.tooDeep hk (by omega))).1 (hs _)
  | case5 l outer rest k hk hd hr ih =>
    have hfirst : Pairing.first.closing l.remaining = some k := hf ▸ hk
    have hdepth : outer.length < r'.maxDepth := by
      rw [h.outer_eq_nil hfirst]
      exact r'.maxDepth_pos
    rw [advance_open hr (h.closing_eq hs hr hfirst) hdepth]
    exact ih (h.enter hf hr hk)
  | case6 l outer c rest hr hc hw => rw [advance_char hr hc, hq, if_pos hw]
  | case7 l outer c rest hr hc hw => rw [advance_char hr hc, hq, if_neg hw]

theorem run_congr (hf : r.pairing = .first) (hq : r'.quote = r.quote) (hs : ∀ o, ¬ Stranded e o)
    (h : Siblings e l outer) {s s' : Scan} (ha : s.At r e l outer) (ha' : s'.At r' e l outer)
    (hreport : s'.report = s.report) : s'.run = s.run := by
  induction l, outer using advance_induction (r := r) (e := e) generalizing s s' with
  | suspended hadv ih =>
    have hl := (Siblings.kept hf e).advance_meets (e := e) h
    rw [hadv] at hl
    rw [(ha.of_suspended hadv).1,
      (ha'.of_suspended ((h.advance_congr hf hq hs).trans hadv)).1, hreport,
      ih hl (.suspended _ _) (.suspended _ _) rfl]
  | finished hadv =>
    rw [(ha.of_finished hadv).1, (ha'.of_finished ((h.advance_congr hf hq hs).trans hadv)).1,
      hreport]
  | failed hadv =>
    rw [(ha.of_failed hadv).1, (ha'.of_failed ((h.advance_congr hf hq hs).trans hadv)).1, hreport]

end Siblings

theorem Scan.run_eq_of_not_stranded (hf : r.pairing = .first) (hq : r'.quote = r.quote)
    (hs : ∀ o, ¬ Stranded e o) : (Scan.ready r' e).run = (Scan.ready r e).run := by
  rcases eq_or_ne e [] with rfl | he
  · have hr (r : Rules) : (Scan.ready r []).run =
        ([[.started, .progress (.ofNat 100)]], .ok []) := Scan.run_of_finished rfl
    rw [hr, hr]
  · exact (Siblings.start e).run_congr hf hq hs (.ready he) (.ready he) rfl

/-- Groups that are closed and not nested leave nothing stranded. -/
theorem not_stranded_of_not_misplaced (h : ∀ o, ¬ Misplaced 1 e o) (o : Nat) :
    ¬ Stranded e o := by
  have hclosed (i : Nat) (hi : e[i]? = some '(') : ∃ j, partner? e i = some j := by
    cases hj : partner? e i with
    | none => exact absurd ⟨hi, .inl hj⟩ (h i)
    | some j => exact ⟨j, rfl⟩
  rintro ⟨hopen, hlast | ⟨i, hi, hiopen, hbetween⟩⟩
  · obtain ⟨j, hj⟩ := hclosed o hopen
    have hclose := closes_of_partner? hj
    exact hlast j (List.getElem?_eq_some_iff.1 hclose).1 (lt_of_partner? hj) hclose
  · obtain ⟨j, hj⟩ := hclosed i hiopen
    have hclose := closes_of_partner? hj
    have hoj : o < j := by
      rcases Nat.lt_trichotomy o j with hlt | rfl | hlt
      · exact hlt
      · rw [hopen] at hclose
        cases hclose
      · exact absurd hclose (hbetween j hlt (lt_of_partner? hj))
    refine h o ⟨hopen, .inr ?_⟩
    have hmem : i ∈ (List.range o).filter fun i => (partner? e i).any fun j => decide (o < j) := by
      simp [hi, hj, hoj]
    have := List.length_pos_of_mem hmem
    rw [nestingLevel]
    omega

/-- The pairings agree where the first one works: where it succeeds, so does the nested one with
any depth, with the same parts and the same reports in every resumption; and so does the first one
where the nested one succeeds with depth one. -/
theorem pairings_agree (hf : r.pairing = .first) (hn : r'.pairing = .nested)
    (hq : r'.quote = r.quote) (e : List Char) :
    (∀ ps, tokenize r e = .ok ps →
        tokenize r' e = .ok ps ∧ (Scan.ready r' e).run = (Scan.ready r e).run) ∧
      (r'.maxDepth = 1 → ∀ ps, tokenize r' e = .ok ps →
        tokenize r e = .ok ps ∧ (Scan.ready r e).run = (Scan.ready r' e).run) := by
  constructor
  · intro ps hps
    have hs := tokenize_first hf e
    rw [hps] at hs
    have hrun := Scan.run_eq_of_not_stranded hf hq hs
    exact ⟨by rw [← hps, tokenize, hrun, tokenize], hrun⟩
  · intro hd ps hps
    have hm := tokenize_nested hn e
    rw [hps, hd] at hm
    have hrun := Scan.run_eq_of_not_stranded hf hq (not_stranded_of_not_misplaced hm)
    exact ⟨by rw [← hps, tokenize, ← hrun, tokenize], hrun.symm⟩

theorem pairings_agree_stray :
    tokenize { pairing := .first } [')', 'f', '(', ')'] = .ok [⟨.function, 1, 2, ['f']⟩] ∧
      tokenize { maxDepth := 1 } [')', 'f', '(', ')'] = .ok [⟨.function, 1, 2, ['f']⟩] ∧
      (Scan.ready { maxDepth := 1 } [')', 'f', '(', ')']).run =
        (Scan.ready { pairing := .first } [')', 'f', '(', ')']).run := by
  have hfirst : tokenize { pairing := .first } [')', 'f', '(', ')'] =
      .ok [⟨.function, 1, 2, ['f']⟩] := by decide +kernel
  have hnested : tokenize { maxDepth := 1 } [')', 'f', '(', ')'] =
      .ok [⟨.function, 1, 2, ['f']⟩] := by decide +kernel
  have hf : ({ pairing := .first } : Rules).pairing = .first := rfl
  have hn : ({ maxDepth := 1 } : Rules).pairing = .nested := rfl
  have hagree := pairings_agree hf hn rfl [')', 'f', '(', ')']
  exact ⟨(hagree.2 rfl _ hnested).1, hagree.1 _ hfirst⟩

end PartScan
