import PartScan.Proofs.Parenthesis.Partner

/-! # Groups under either pairing

Either pairing closes an opening parenthesis at one later offset or leaves it unclosed. The offsets
in between are inside the group; the first pairing strands a parenthesis that no closing one
follows, or that stands in a group itself.
-/

namespace PartScan

/-- Where the first closing parenthesis behind an opening one stands. -/
def follower? (e : List Char) (o : Nat) : Option Nat :=
  if e[o]? = some '(' then
    (List.range e.length).find? fun j => decide (o < j ∧ e[j]? = some ')')
  else none

/-- Where the pairing closes an opening parenthesis, if it does. -/
def mate? : Pairing → List Char → Nat → Option Nat
  | .nested => partner?
  | .first => follower?

/-- The offset lies strictly inside a group. -/
def inGroup (p : Pairing) (e : List Char) (c : Nat) : Bool :=
  (List.range c).any fun o => (mate? p e o).any fun j => decide (c < j)

/-- Where the outermost group opens that closes at the offset, if one does. -/
def groupStart? (p : Pairing) (e : List Char) (c : Nat) : Option Nat :=
  (List.range c).find? fun o => decide (mate? p e o = some c)

/-- A parenthesis that no closing one follows, or between which and an earlier opening one no
closing one stands. -/
def Stranded (e : List Char) (o : Nat) : Prop :=
  e[o]? = some '(' ∧ ((∀ j < e.length, o < j → e[j]? ≠ some ')') ∨
    ∃ i < o, e[i]? = some '(' ∧ ∀ j < o, i < j → e[j]? ≠ some ')')

instance (e : List Char) (o : Nat) : Decidable (Stranded e o) :=
  inferInstanceAs (Decidable (_ ∧ (_ ∨ _)))

variable {e : List Char} {p : Pairing} {o c i j k : Nat}

namespace Pairing

theorem firstClosing_eq_findIdx? (cs : List Char) :
    firstClosing cs = cs.findIdx? fun c => decide (c = ')') := by
  induction cs with
  | nil => rfl
  | cons c cs ih => by_cases hc : c = ')' <;> simp [firstClosing, List.findIdx?_cons, hc, ih]

theorem firstClosing_eq_none_iff {cs : List Char} : firstClosing cs = none ↔ ')' ∉ cs := by
  rw [firstClosing_eq_findIdx?, List.findIdx?_eq_none_iff]
  simp only [decide_eq_false_iff_not]
  exact ⟨fun h hmem => h _ hmem rfl, fun h c hc heq => h (heq ▸ hc)⟩

theorem firstClosing_eq_some_iff {cs : List Char} : firstClosing cs = some k ↔
    cs[k]? = some ')' ∧ ∀ j < k, cs[j]? ≠ some ')' := by
  rw [firstClosing_eq_findIdx?, List.findIdx?_eq_some_iff_getElem]
  simp only [decide_eq_true_eq, List.getElem?_eq_some_iff, ne_eq, not_exists]
  constructor
  · rintro ⟨hlt, hk, hmin⟩
    exact ⟨⟨hlt, hk⟩, fun j hj _ => hmin j hj⟩
  · rintro ⟨⟨hlt, hk⟩, hmin⟩
    exact ⟨hlt, hk, fun j hj => hmin j hj (Nat.lt_trans hj hlt)⟩

/-- From depth one, the depth first comes back to zero at the first closing parenthesis if nothing
opens in front of it. -/
theorem nestedClosing_one_eq {cs : List Char} (h : firstClosing cs = some k)
    (hfree : ∀ j < k, cs[j]? ≠ some '(') : nestedClosing 1 cs = some k := by
  induction cs generalizing k with
  | nil => cases h
  | cons c cs ih =>
    rw [firstClosing] at h
    split at h
    · rename_i hc
      cases h
      rw [hc, nestedClosing_close, if_pos rfl]
    · rename_i hc
      obtain ⟨j, hj, rfl⟩ := Option.map_eq_some_iff.1 h
      have ho : c ≠ '(' := fun heq => hfree 0 (Nat.succ_pos j) (by rw [heq]; rfl)
      rw [nestedClosing_other ho hc, ih hj fun i hi => hfree (i + 1) (Nat.succ_lt_succ hi)]
      rfl

/-- The pairings agree on a group in which nothing opens. -/
theorem closing_nested_of_first {cs : List Char} (h : Pairing.first.closing ('(' :: cs) = some k)
    (hfree : ∀ j, 0 < j → j < k → ('(' :: cs)[j]? ≠ some '(') :
    Pairing.nested.closing ('(' :: cs) = some k := by
  rw [closing, firstClosing, if_neg (by decide)] at h
  obtain ⟨j, hj, rfl⟩ := Option.map_eq_some_iff.1 h
  rw [closing, nestedClosing_open, Int.zero_add,
    nestedClosing_one_eq hj fun i hi => hfree (i + 1) (Nat.succ_pos i) (Nat.succ_lt_succ hi)]
  rfl

end Pairing

theorem follower?_eq_some_iff : follower? e o = some j ↔
    e[o]? = some '(' ∧ o < j ∧ e[j]? = some ')' ∧ ∀ i, o < i → i < j → e[i]? ≠ some ')' := by
  unfold follower?
  split
  · rename_i h
    simp only [List.find?_range_eq_some, decide_eq_true_eq, List.mem_range, Bool.not_eq_true',
      decide_eq_false_iff_not, not_and]
    constructor
    · rintro ⟨⟨hoj, hj⟩, -, hmin⟩
      exact ⟨h, hoj, hj, fun i hi hij => hmin i hij hi⟩
    · rintro ⟨-, hoj, hj, hmin⟩
      exact ⟨⟨hoj, hj⟩, (List.getElem?_eq_some_iff.1 hj).1, fun i hij hi => hmin i hi hij⟩
  · rename_i h
    simp [h]

theorem inGroup_iff : inGroup p e c = true ↔ ∃ o j, mate? p e o = some j ∧ o < c ∧ c < j := by
  simp only [inGroup, List.any_eq_true, List.mem_range, Option.any_eq_true, decide_eq_true_eq]
  constructor
  · rintro ⟨o, ho, j, hj, hlt⟩
    exact ⟨o, j, hj, ho, hlt⟩
  · rintro ⟨o, j, hj, ho, hlt⟩
    exact ⟨o, ho, j, hj, hlt⟩

theorem lt_of_mate? (h : mate? p e o = some j) : o < j := by
  cases p
  · exact lt_of_partner? h
  · exact (follower?_eq_some_iff.1 h).2.1

/-- The partner is a closing parenthesis. -/
theorem closes_of_partner? (h : partner? e o = some j) : e[j]? = some ')' := by
  obtain ⟨k, rfl⟩ := Nat.exists_eq_add_of_le (Nat.le_of_lt (lt_of_partner? h))
  have hk := (closing_drop_eq_some_iff (opens_of_partner? h)).2 h
  rw [← List.getElem?_drop]
  exact Pairing.closing_getElem hk

theorem opens_of_mate? (h : mate? p e o = some j) : e[o]? = some '(' := by
  cases p
  · exact opens_of_partner? h
  · exact (follower?_eq_some_iff.1 h).1

end PartScan
