import PartScan.Proofs.Parenthesis.Partner
import PartScan.Proofs.Scan.Stack

/-! # Levels of a nested scan

Where parentheses are paired by depth, the levels of a scan are the pairs of partners around its
offset. So the scan is refused at the first parenthesis that is not closed or lies too deep.
-/

namespace PartScan

namespace Level

/-- The offset of the first character behind the level. -/
def stop (l : Level) : Nat := l.base + l.text.length

@[simp] theorem stop_takeParts (l : Level) (ps : List Part) : (l.takeParts ps).stop = l.stop := rfl

end Level

/-- The closed parentheses in front of `n` whose partners are not in front of it. -/
def openBefore (e : List Char) (n : Nat) : List Nat :=
  (List.range n).filter fun i => (partner? e i).any fun j => decide (n ≤ j)

/-- The offsets of the parentheses that open the inner levels, from the outermost on. -/
def openings : Level → List Level → List Nat
  | _, [] => []
  | l, m :: outer => openings m outer ++ [l.base - 1]

theorem length_openings (l : Level) (outer : List Level) :
    (openings l outer).length = outer.length := by
  induction outer generalizing l with
  | nil => rfl
  | cons m outer ih => simp [openings, ih]

/-- Every inner level lies between a parenthesis and its partner. -/
def Matched (e : List Char) : Level → List Level → Prop
  | _, [] => True
  | l, m :: outer => 0 < l.base ∧ partner? e (l.base - 1) = some l.stop ∧ Matched e m outer

variable {e : List Char} {l l' m : Level} {outer : List Level} {n k : Nat} {rest : List Char}

theorem openings_congr (h : l'.base = l.base) (outer : List Level) :
    openings l' outer = openings l outer := by
  cases outer <;> simp [openings, h]

theorem Matched.congr (h : Matched e l outer) (hb : l'.base = l.base) (hs : l'.stop = l.stop) :
    Matched e l' outer := by
  cases outer with
  | nil => trivial
  | cons m outer => simpa only [Matched, hb, hs] using h

theorem filter_partner (e : List Char) (n : Nat) :
    (List.range n).filter (fun i => (partner? e i).any fun j => decide (n < j)) =
      (openBefore e n).filter fun i => partner? e i ≠ some n := by
  rw [openBefore, List.filter_filter]
  apply List.filter_congr
  intro i _
  cases partner? e i with
  | none => simp
  | some j =>
    simp only [Option.any_some, Option.some.injEq, ne_eq, Bool.and_eq_decide, decide_eq_true_eq]
    congr 1
    simp only [eq_iff_iff]
    omega

theorem nestingLevel_eq (e : List Char) (n : Nat) : nestingLevel e n =
    1 + ((openBefore e n).filter fun i => partner? e i ≠ some n).length := by
  rw [nestingLevel, filter_partner]

/-- One character further, a parenthesis that is closed there is no longer open, and a closed one
that stands there is. -/
theorem openBefore_succ (e : List Char) (n : Nat) : openBefore e (n + 1) =
    ((openBefore e n).filter fun i => partner? e i ≠ some n) ++
      if (partner? e n).isSome then [n] else [] := by
  rw [openBefore, List.range_succ, List.filter_append]
  congr 1
  · exact filter_partner e n
  · cases h : partner? e n with
    | none => simp [h]
    | some j =>
      have := lt_of_partner? h
      simp [h]
      omega

namespace Stacked

/-- The levels around a level reach beyond it. -/
theorem stop_lt (h : Stacked e l (m :: outer)) : l.stop < m.stop := by
  cases h with
  | group ht hi hc hm hw h =>
    have := h.index_le
    simp only [Level.stop, Level.offset] at hm ⊢
    omega

theorem tail (h : Stacked e l (m :: outer)) : Stacked e m outer := by
  cases h
  assumption

/-- A closing parenthesis stands behind an inner level. -/
theorem getElem_stop (h : Stacked e l (m :: outer)) : e[l.stop]? = some ')' := by
  cases h with
  | group ht hi hc => exact hc

theorem offset_lt_stop {c : Char} (hr : l.remaining = c :: rest) : l.offset < l.stop :=
  Nat.add_lt_add_left (Level.index_lt hr) l.base

/-- The parentheses around a level are closed behind it or where it stops. -/
theorem stop_le_partner (h : Stacked e l outer) (hm : Matched e l outer) {i : Nat}
    (hi : i ∈ openings l outer) : ∃ j, partner? e i = some j ∧ l.stop ≤ j := by
  induction outer generalizing l with
  | nil => cases hi
  | cons m outer ih =>
    rcases List.mem_append.1 hi with hi | hi
    · obtain ⟨j, hj, hle⟩ := ih h.tail hm.2.2 hi
      exact ⟨j, hj, (h.stop_lt.trans_le hle).le⟩
    · rw [List.mem_singleton.1 hi]
      exact ⟨l.stop, hm.2.1, le_rfl⟩

end Stacked

/-- The levels are the partners around the offset, and nothing in front of it is misplaced. -/
structure Nests (m : Nat) (e : List Char) (l : Level) (outer : List Level) : Prop where
  stacked : Stacked e l outer
  matched : Matched e l outer
  openBefore_eq : openBefore e l.offset = openings l outer
  clear : ∀ o < l.offset, ¬ Misplaced m e o

namespace Nests

variable {d : Nat}

theorem start (d : Nat) (e : List Char) : Nests d e { base := 0, text := e } [] where
  stacked := .start e
  matched := trivial
  openBefore_eq := rfl
  clear o ho := absurd ho (Nat.not_lt_zero o)

/-- In front of a further character, all parentheses around the level stay open. -/
theorem filter_openBefore (h : Nests d e l outer) {c : Char} (hr : l.remaining = c :: rest) :
    ((openBefore e l.offset).filter fun i => partner? e i ≠ some l.offset) =
      openings l outer := by
  rw [h.openBefore_eq, List.filter_eq_self]
  intro i hi
  obtain ⟨j, hj, hle⟩ := h.stacked.stop_le_partner h.matched hi
  have := Stacked.offset_lt_stop hr
  simp only [hj, ne_eq, Option.some.injEq, decide_eq_true_eq]
  omega

theorem nestingLevel_offset (h : Nests d e l outer) {c : Char} (hr : l.remaining = c :: rest) :
    nestingLevel e l.offset = outer.length + 1 := by
  rw [nestingLevel_eq, h.filter_openBefore hr, length_openings, Nat.add_comm]

theorem clear_succ (h : Nests d e l outer) (hn : ¬ Misplaced d e l.offset) :
    ∀ o < l.offset + 1, ¬ Misplaced d e o := by
  intro o ho
  rcases Nat.lt_succ_iff_lt_or_eq.1 ho with ho | rfl
  · exact h.clear o ho
  · exact hn

/-- Inside a level the search for a partner succeeds exactly where there is one. -/
theorem closing_eq_some_iff (h : Nests d e l outer) (hr : l.remaining = '(' :: rest) :
    Pairing.nested.closing l.remaining = some k ↔ partner? e l.offset = some (l.offset + k) := by
  have hget := h.stacked.getElem_offset hr
  have htake : l.remaining = (e.drop l.offset).take l.remaining.length :=
    List.prefix_iff_eq_take.1 h.stacked.remaining_prefix
  have hlen : l.remaining.length = l.stop - l.offset := by
    simp only [Level.remaining, Level.stop, Level.offset, List.length_drop]
    omega
  rw [← closing_drop_eq_some_iff hget, htake, Pairing.closing, Pairing.nestedClosing_take]
  refine and_iff_left_of_imp fun hk => ?_
  rw [hlen]
  cases h.stacked with
  | whole hb ht hi =>
    have := Pairing.closing_lt (p := .nested) hk
    simp only [List.length_drop, Level.stop, Level.offset, hb, ht] at this ⊢
    omega
  | group ht hi hc hm hw hs =>
    obtain ⟨hpos, hmatch, -⟩ := h.matched
    obtain ⟨j, hj, hlt⟩ := partner?_inside hmatch (n := l.offset) (by unfold Level.offset; omega)
      (Stacked.offset_lt_stop hr) hget
    have hk' := (closing_drop_eq_some_iff hget).1 hk
    rw [hj] at hk'
    cases hk'
    omega

/-- Reading a character that opens no group keeps the levels. -/
theorem step (h : Nests d e l outer) {c : Char} (hr : l.remaining = c :: rest) (hc : c ≠ '(')
    (hs : Stacked e l' outer) (hb : l'.base = l.base) (ht : l'.text = l.text)
    (ho : l'.offset = l.offset + 1) : Nests d e l' outer := by
  have hget := h.stacked.getElem_offset hr
  have hnone : e[l.offset]? ≠ some '(' := by simpa [hget] using hc
  refine ⟨hs, h.matched.congr hb (by rw [Level.stop, hb, ht, Level.stop]), ?_, ?_⟩
  · rw [ho, openBefore_succ, h.filter_openBefore hr, openings_congr hb, partner?_eq_none hnone]
    simp
  · rw [ho]
    exact h.clear_succ fun hm => hnone hm.1

theorem enter {rules : Rules} (hn : rules.pairing = .nested)
    (h : Nests rules.maxDepth e l outer) (hr : l.remaining = '(' :: rest)
    (hk : rules.pairing.closing l.remaining = some k) (hd : outer.length < rules.maxDepth) :
    Nests rules.maxDepth e (l.group k) (l.passGroup k :: outer) := by
  have hpartner : partner? e l.offset = some (l.offset + k) :=
    (h.closing_eq_some_iff hr).1 (hn ▸ hk)
  have hpos := lt_of_partner? hpartner
  refine ⟨h.stacked.enter hr hk, ⟨Nat.succ_pos _, ?_, ?_⟩, ?_, ?_⟩
  · have hstop : (l.group k).stop = l.offset + k := by
      rw [Level.stop, Level.length_group (Pairing.closing_lt hk)]
      simp only [Level.group]
      omega
    rw [hstop]
    exact hpartner
  · exact h.matched.congr (by simp [Level.passGroup]) (by simp [Level.stop, Level.passGroup])
  · have hopen : openings (l.passGroup k) outer = openings l outer :=
      openings_congr (by simp [Level.passGroup]) outer
    rw [Level.offset_group, openBefore_succ, h.filter_openBefore hr, hpartner, openings, hopen]
    rfl
  · rw [Level.offset_group]
    apply h.clear_succ
    rintro ⟨-, hnone | hdeep⟩
    · simp [hpartner] at hnone
    · rw [h.nestingLevel_offset hr] at hdeep
      omega

theorem leave (h : Nests d e l (m :: outer)) (hr : l.remaining = []) (ps : List Part)
    (hs : Stacked e (m.takeParts ps) outer) : Nests d e (m.takeParts ps) outer := by
  obtain ⟨hget, hm, -⟩ := h.stacked.getElem_end hr
  have hstop : l.offset = l.stop := by
    rw [Level.offset, Level.index_eq h.stacked.index_le hr, Level.stop]
  have hnone : e[l.offset]? ≠ some '(' := by simp [hget]
  obtain ⟨hpos, hmatch, htail⟩ := h.matched
  refine ⟨hs, htail.congr rfl rfl, ?_, ?_⟩
  · -- of the parentheses around the level, only the one that opens it is closed here
    have hkeep : (openings m outer).filter (fun i => partner? e i ≠ some l.offset) =
        openings m outer := by
      rw [List.filter_eq_self]
      intro i hi
      obtain ⟨j, hj, hle⟩ := h.stacked.tail.stop_le_partner htail hi
      have := h.stacked.stop_lt
      simp only [hj, ne_eq, Option.some.injEq, decide_eq_true_eq]
      omega
    have hopen : openings (m.takeParts ps) outer = openings m outer :=
      openings_congr (show (m.takeParts ps).base = m.base from rfl) outer
    rw [Level.offset_takeParts, hm, openBefore_succ, h.openBefore_eq, openings,
      List.filter_append, hkeep, hopen, partner?_eq_none hnone]
    simp [hmatch, hstop]
  · rw [Level.offset_takeParts, hm]
    exact h.clear_succ fun hmis => hnone hmis.1

theorem kept {rules : Rules} (hn : rules.pairing = .nested) (e : List Char) :
    Kept rules (Nests rules.maxDepth e) where
  read h hr hc hw :=
    h.step hr hc ((Stacked.kept rules e).read h.stacked hr hc hw) rfl rfl (Level.offset_read _ _)
  skip h hr hc hw :=
    h.step hr hc ((Stacked.kept rules e).skip h.stacked hr hc hw) (by simp [Level.skip])
      (by simp [Level.skip]) (Level.offset_skip _ _)
  enter h hr hk hd := h.enter hn hr hk hd
  leave h hr := h.leave hr _ ((Stacked.kept rules e).leave h.stacked hr)

end Nests

/-- Why a misplaced parenthesis refuses the expression. -/
def faultAt (m : Nat) (e : List Char) (o : Nat) : Fault :=
  if partner? e o = none then .unclosed e (some o) none else .tooDeep e o m

def FirstMisplaced (m : Nat) (e : List Char) (o : Nat) : Prop :=
  Misplaced m e o ∧ ∀ o' < o, ¬ Misplaced m e o'

instance (m : Nat) (e : List Char) (o : Nat) : Decidable (FirstMisplaced m e o) :=
  inferInstanceAs (Decidable (_ ∧ ∀ o' < o, ¬ Misplaced m e o'))

theorem Nests.refused {rules : Rules} (hn : rules.pairing = .nested)
    (h : Nests rules.maxDepth e l outer) (hr : l.remaining = '(' :: rest) {f : Fault}
    (hf : Refused rules e l outer f) :
    FirstMisplaced rules.maxDepth e l.offset ∧ f = faultAt rules.maxDepth e l.offset := by
  have hget := h.stacked.getElem_offset hr
  cases hf with
  | unclosed hk =>
    have hnone : partner? e l.offset = none := by
      cases hp : partner? e l.offset with
      | none => rfl
      | some j =>
        obtain ⟨k, rfl⟩ := Nat.exists_eq_add_of_lt (lt_of_partner? hp)
        rw [Nat.add_assoc, ← h.closing_eq_some_iff hr, ← hn, hk] at hp
        cases hp
    exact ⟨⟨⟨hget, .inl hnone⟩, h.clear⟩, by simp [faultAt, hnone]⟩
  | tooDeep hk hd =>
    have hp := (h.closing_eq_some_iff hr).1 (hn ▸ hk)
    have hlevel := h.nestingLevel_offset hr
    exact ⟨⟨⟨hget, .inr (by omega)⟩, h.clear⟩, by simp [faultAt, hp]⟩

theorem FirstMisplaced.unique {d o o' : Nat} (h : FirstMisplaced d e o)
    (h' : FirstMisplaced d e o') : o = o' := by
  rcases Nat.lt_trichotomy o o' with hlt | heq | hlt
  · exact absurd h.1 (h'.2 o hlt)
  · exact heq
  · exact absurd h'.1 (h.2 o' hlt)

end PartScan
