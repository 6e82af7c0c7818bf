import Mathlib.Data.List.Basic

/-! # Round robin

Items wait in a line, each with what it will say at each of its turns. Where the first item has its
turn and goes to the end of the line unless it has said everything, the items speak round by round,
in each round in their first order.
-/

namespace PartScan

variable {α : Type}

/-- An item that stands in line, unless it has said everything. -/
def lined (i : Nat) : List (List α) → List (Nat × List (List α))
  | [] => []
  | said :: turns => [(i, said :: turns)]

/-- The items of a line that have something left after `r` turns. -/
def standing (items : List (Nat × List (List α))) (r : Nat) : List (Nat × List (List α)) :=
  items.flatMap fun item => lined item.1 (item.2.drop r)

/-- What the items of a line say at their turns with the number `r`. -/
def round (items : List (Nat × List (List α))) (r : Nat) : List (Nat × α) :=
  items.flatMap fun item => (item.2[r]?.getD []).map (Prod.mk item.1)

/-- What the items of a line say at their first turns, then at their second ones, and so on. -/
def firstRounds (items : List (Nat × List (List α))) (r : Nat) : List (Nat × α) :=
  (List.range r).flatMap (round items)

/-- The most turns that an item of a line has. -/
def longest (items : List (Nat × List (List α))) : Nat :=
  (items.map fun item => item.2.length).foldr max 0

def rounds (items : List (Nat × List (List α))) : List (Nat × α) := firstRounds items (longest items)

variable {items had yet now : List (Nat × List (List α))} {given : List (Nat × α)} {i k r n : Nat}
  {said : List α} {turns rest : List (List α)}

theorem lined_eq_nil : lined i turns = [] ↔ turns = [] := by
  cases turns <;> simp [lined]

theorem lined_of_ne_nil (h : turns ≠ []) : lined i turns = [(i, turns)] := by
  cases turns with
  | nil => exact absurd rfl h
  | cons said turns => rfl

theorem standing_append (items items' : List (Nat × List (List α))) (r : Nat) :
    standing (items ++ items') r = standing items r ++ standing items' r := List.flatMap_append

theorem standing_cons (i : Nat) (turns : List (List α)) (items : List (Nat × List (List α)))
    (r : Nat) : standing ((i, turns) :: items) r = lined i (turns.drop r) ++ standing items r :=
  List.flatMap_cons

theorem standing_zero (h : ∀ item ∈ items, item.2 ≠ []) : standing items 0 = items := by
  induction items with
  | nil => rfl
  | cons item items ih =>
    obtain ⟨hitem, hline⟩ := List.forall_mem_cons.1 h
    rw [standing_cons, List.drop_zero, lined_of_ne_nil hitem, ih hline]
    rfl

theorem round_append (items items' : List (Nat × List (List α))) (r : Nat) :
    round (items ++ items') r = round items r ++ round items' r := List.flatMap_append

theorem firstRounds_succ (items : List (Nat × List (List α))) (r : Nat) :
    firstRounds items (r + 1) = firstRounds items r ++ round items r := by
  rw [firstRounds, List.range_succ, List.flatMap_append, List.flatMap_singleton, firstRounds]

theorem longest_le_iff : longest items ≤ r ↔ ∀ item ∈ items, item.2.length ≤ r := by
  induction items with
  | nil => simp [longest]
  | cons item items ih =>
    rw [List.forall_mem_cons, ← ih, longest, List.map_cons, List.foldr_cons, Nat.max_le, longest]

theorem standing_eq_nil : standing items r = [] ↔ longest items ≤ r := by
  rw [standing, List.flatMap_eq_nil_iff, longest_le_iff]
  simp only [lined_eq_nil, List.drop_eq_nil_iff]

theorem round_eq_nil (h : longest items ≤ r) : round items r = [] := by
  refine List.flatMap_eq_nil_iff.2 fun item hitem => ?_
  rw [List.getElem?_eq_none (longest_le_iff.1 h item hitem)]
  rfl

theorem firstRounds_of_le (h : r ≤ n) : firstRounds items r <+: firstRounds items n := by
  induction h with
  | refl => exact List.prefix_refl _
  | step _ ih =>
    rw [firstRounds_succ]
    exact ih.trans (List.prefix_append _ _)

theorem firstRounds_of_longest_le (h : longest items ≤ r) : firstRounds items r = rounds items := by
  induction h with
  | refl => rfl
  | step h ih => rw [firstRounds_succ, ih, round_eq_nil h, List.append_nil]

theorem firstRounds_of_rounds (items : List (Nat × List (List α))) (r : Nat) :
    firstRounds items r <+: rounds items := by
  rcases Nat.le_total r (longest items) with h | h
  · exact firstRounds_of_le h
  · exact ⟨[], by rw [List.append_nil, firstRounds_of_longest_le h]⟩

theorem mem_standing : i ∈ (standing items r).map Prod.fst ↔
    ∃ turns, (i, turns) ∈ items ∧ r < turns.length := by
  have hlined {turns : List (List α)} {item : Nat × List (List α)} {k : Nat} :
      item ∈ lined k turns ↔ turns ≠ [] ∧ item = (k, turns) := by
    cases turns <;> simp [lined]
  simp only [standing, List.mem_map, List.mem_flatMap, hlined, ne_eq, List.drop_eq_nil_iff,
    Nat.not_le]
  constructor
  · rintro ⟨_, ⟨item, hmem, hlt, rfl⟩, rfl⟩
    exact ⟨item.2, hmem, hlt⟩
  · rintro ⟨turns, hmem, hlt⟩
    exact ⟨_, ⟨_, hmem, hlt, rfl⟩, rfl⟩

/-- The items of a line are numbered by their places. -/
def Numbered (items : List (Nat × List (List α))) : Prop :=
  ∀ (n : Nat) (item : Nat × List (List α)), items[n]? = some item → item.1 = n

/-- A line in the middle of its round `r`: the items `had` at its front have had their turn in it,
the items `yet` behind them have not. -/
structure Midway (items : List (Nat × List (List α))) (given : List (Nat × α))
    (now : List (Nat × List (List α))) (r : Nat) (had yet : List (Nat × List (List α))) : Prop where
  split : items = had ++ yet
  now : now = standing yet r ++ standing had (r + 1)
  given : given = firstRounds items r ++ round had r

namespace Midway

theorem begins (h : ∀ item ∈ items, item.2 ≠ []) : Midway items [] items 0 [] items := by
  refine ⟨rfl, ?_, rfl⟩
  rw [standing_zero h]
  exact (List.append_nil _).symm

theorem next_round (h : Midway items given now r had yet) (hyet : standing yet r = []) :
    Midway items given now (r + 1) [] items := by
  have hlong := standing_eq_nil.1 hyet
  refine ⟨rfl, ?_, ?_⟩
  · rw [h.now, hyet, h.split, standing_append had, standing_eq_nil.2 (Nat.le_succ_of_le hlong)]
    simp [standing]
  · rw [h.given, firstRounds_succ]
    conv_rhs => rw [h.split, round_append, round_eq_nil hlong, ← h.split]
    simp [round]

theorem exists_head (h : standing yet r = (k, said :: rest) :: now) :
    ∃ skipped turns yet', yet = skipped ++ (k, turns) :: yet' ∧ longest skipped ≤ r ∧
      turns.drop r = said :: rest ∧ now = standing yet' r := by
  induction yet with
  | nil => cases h
  | cons item yet ih =>
    rw [standing, List.flatMap_cons] at h
    cases hd : item.2.drop r with
    | nil =>
      rw [hd] at h
      obtain ⟨skipped, turns, yet', rfl, hlong, hdrop, hnow⟩ := ih h
      refine ⟨item :: skipped, turns, yet', rfl, ?_, hdrop, hnow⟩
      rw [longest_le_iff] at hlong ⊢
      exact List.forall_mem_cons.2 ⟨List.drop_eq_nil_iff.1 hd, hlong⟩
    | cons said' rest' =>
      rw [hd] at h
      cases h
      exact ⟨[], item.2, yet, rfl, Nat.zero_le r, hd, rfl⟩

/-- The first item of the line is the first of a round that has not had its turn in it. -/
theorem head (h : Midway items given ((k, said :: rest) :: now) r had yet) :
    ∃ r had turns yet, turns.drop r = said :: rest ∧
      Midway items given ((k, said :: rest) :: now) r had ((k, turns) :: yet) := by
  wlog hyet : standing yet r ≠ [] generalizing r had yet
  · have hnext := h.next_round (not_not.1 hyet)
    refine this hnext fun hnil => ?_
    have hnow := hnext.now
    rw [hnil] at hnow
    cases hnow
  · obtain ⟨item, now', hcons⟩ := List.exists_cons_of_ne_nil hyet
    have hnow := h.now
    rw [hcons, List.cons_append, List.cons.injEq] at hnow
    obtain ⟨rfl, rfl⟩ := hnow
    obtain ⟨skipped, turns, yet', rfl, hlong, hdrop, rfl⟩ := exists_head hcons
    refine ⟨r, had ++ skipped, turns, yet', hdrop, ?_, ?_, ?_⟩
    · rw [h.split, List.append_assoc]
    · rw [standing_append had, standing_eq_nil.2 (Nat.le_succ_of_le hlong), List.append_nil,
        standing_cons, hdrop]
      rfl
    · rw [h.given, round_append, round_eq_nil hlong, List.append_nil]

/-- The first item of the line has its turn. -/
theorem turn (h : Midway items given ((k, said :: rest) :: now) r had ((k, turns) :: yet))
    (hdrop : turns.drop r = said :: rest) :
    Midway items (given ++ said.map (Prod.mk k)) (now ++ lined k rest) r (had ++ [(k, turns)])
      yet := by
  have hsaid : turns[r]? = some said := by
    rw [← Nat.add_zero r, ← List.getElem?_drop, hdrop]
    rfl
  have hrest : turns.drop (r + 1) = rest := by
    rw [← List.drop_drop, hdrop]
    rfl
  have hnow := h.now
  rw [standing_cons, hdrop] at hnow
  refine ⟨?_, ?_, ?_⟩
  · rw [h.split, List.append_assoc]
    rfl
  · rw [(List.cons.inj hnow).2, standing_append had, standing_cons, hrest, ← List.append_assoc]
    exact congrArg _ (List.append_nil _).symm
  · rw [h.given, round_append, ← List.append_assoc]
    simp [round, hsaid]

theorem so_far (h : Midway items given now r had yet) : given <+: rounds items := by
  refine List.IsPrefix.trans ?_ (firstRounds_of_rounds items (r + 1))
  rw [h.given, firstRounds_succ, List.prefix_append_right_inj]
  conv_rhs => rw [h.split, round_append]
  exact List.prefix_append _ _

theorem ended (h : Midway items given now r had yet) (hnow : now = []) : given = rounds items := by
  have hnil := h.now.symm.trans hnow
  rw [List.append_eq_nil_iff] at hnil
  obtain ⟨hyet, hhad⟩ := hnil
  have hlast : longest items ≤ r + 1 := by
    rw [← standing_eq_nil, h.split, standing_append, hhad,
      standing_eq_nil.2 (Nat.le_succ_of_le (standing_eq_nil.1 hyet)), List.append_nil]
  rw [h.given, ← firstRounds_of_longest_le hlast, firstRounds_succ]
  conv_rhs => rw [h.split, round_append, round_eq_nil (standing_eq_nil.1 hyet), ← h.split]
  rw [List.append_nil]

/-- An item is still in the line if it has a turn after the ones that it has had. -/
theorem mem_iff (h : Midway items given now r had yet) (hn : Numbered items)
    (hi : items[i]? = some (i, turns)) :
    i ∈ now.map Prod.fst ↔ (if i < had.length then r + 1 else r) < turns.length := by
  have heq {n : Nat} {turns' : List (List α)} (hget : items[n]? = some (i, turns')) :
      i = n ∧ turns' = turns := by
    obtain rfl : i = n := hn n _ hget
    rw [hi] at hget
    cases hget
    exact ⟨rfl, rfl⟩
  have hhad {turns' : List (List α)} : (i, turns') ∈ had ↔ i < had.length ∧ turns' = turns := by
    constructor
    · intro hmem
      obtain ⟨n, hlt, hget⟩ := List.getElem_of_mem hmem
      obtain ⟨rfl, rfl⟩ := heq (n := n) (by rw [h.split, List.getElem?_append_left hlt,
        List.getElem?_eq_getElem hlt, hget])
      exact ⟨hlt, rfl⟩
    · rintro ⟨hlt, rfl⟩
      rw [h.split, List.getElem?_append_left hlt] at hi
      exact List.mem_of_getElem? hi
  have hyet {turns' : List (List α)} : (i, turns') ∈ yet ↔ ¬ i < had.length ∧ turns' = turns := by
    constructor
    · intro hmem
      obtain ⟨n, hlt, hget⟩ := List.getElem_of_mem hmem
      obtain ⟨hin, rfl⟩ := heq (n := had.length + n) (by rw [h.split,
        List.getElem?_append_right (Nat.le_add_right _ _), Nat.add_sub_cancel_left,
        List.getElem?_eq_getElem hlt, hget])
      exact ⟨by omega, rfl⟩
    · rintro ⟨hlt, rfl⟩
      rw [h.split, List.getElem?_append_right (Nat.not_lt.1 hlt)] at hi
      exact List.mem_of_getElem? hi
  rw [h.now, List.map_append, List.mem_append, mem_standing, mem_standing]
  simp only [hhad, hyet]
  split <;> simp [*]

/-- An item leaves the line no later than one behind it that has no fewer turns. -/
theorem gone (h : Midway items given now r had yet) (hn : Numbered items) (hik : i < k)
    (hi : items[i]? = some (i, turns)) (hk : items[k]? = some (k, rest))
    (hle : turns.length ≤ rest.length) (hgone : k ∉ now.map Prod.fst) : i ∉ now.map Prod.fst := by
  rw [h.mem_iff hn hk] at hgone
  rw [h.mem_iff hn hi]
  split <;> split at hgone <;> omega

end Midway

end PartScan
