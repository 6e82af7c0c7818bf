import Mathlib.Data.List.Infix
import PartScan.Proofs.Parenthesis.Depth
import PartScan.Proofs.Scan.Invariant

/-! # Stacks of levels

Every level of a suspended scan is a slice of the whole expression, and the levels around it go on
right behind the parenthesis that closes the slice. Each step moves one character on.
-/

namespace PartScan

namespace Level

variable (l : Level) (q c : Char) (k : Nat) (ps : List Part)

@[simp] theorem base_endWord : (l.endWord q).base = l.base := by unfold endWord; split <;> rfl

@[simp] theorem text_endWord : (l.endWord q).text = l.text := by unfold endWord; split <;> rfl

@[simp] theorem index_endWord : (l.endWord q).index = l.index := by unfold endWord; split <;> rfl

@[simp] theorem word_endWord : (l.endWord q).word = [] := by
  unfold endWord
  split
  · assumption
  · rfl

theorem parts_endWord : (l.endWord q).parts =
    l.parts ++ if l.word = [] then [] else [.ofWord [q] l.word l.offset] := by
  unfold endWord
  split <;> simp

@[simp] theorem base_endCall : l.endCall.base = l.base := by unfold endCall; split <;> rfl

@[simp] theorem text_endCall : l.endCall.text = l.text := by unfold endCall; split <;> rfl

@[simp] theorem word_endCall : l.endCall.word = [] := by
  unfold endCall
  split
  · assumption
  · rfl

theorem parts_endCall : l.endCall.parts =
    l.parts ++ if l.word = [] then [] else [.ofCall l.word l.offset] := by
  unfold endCall
  split <;> simp

@[simp] theorem offset_read : (l.read c).offset = l.offset + 1 := rfl

@[simp] theorem offset_skip : (l.skip q).offset = l.offset + 1 := by
  simp [skip, offset, Nat.add_assoc]

@[simp] theorem offset_group : (l.group k).offset = l.offset + 1 := rfl

@[simp] theorem offset_passGroup : (l.passGroup k).offset = l.offset + k + 1 := by
  simp [passGroup, offset, Nat.add_assoc]

@[simp] theorem offset_takeParts : (l.takeParts ps).offset = l.offset := rfl

@[simp] theorem word_skip : (l.skip q).word = [] := by simp [skip]

@[simp] theorem word_group : (l.group k).word = [] := rfl

@[simp] theorem word_passGroup : (l.passGroup k).word = [] := by simp [passGroup]

@[simp] theorem word_takeParts : (l.takeParts ps).word = l.word := rfl

variable {l c k} {rest : List Char}

theorem index_lt (h : l.remaining = c :: rest) : l.index < l.text.length := by
  have : l.remaining.length ≠ 0 := by simp [h]
  simp only [remaining, List.length_drop] at this
  omega

theorem index_eq (hi : l.index ≤ l.text.length) (h : l.remaining = []) :
    l.index = l.text.length := by
  have : l.remaining.length = 0 := by simp [h]
  simp only [remaining, List.length_drop] at this
  omega

theorem length_group (h : k < l.remaining.length) : (l.group k).text.length = k - 1 := by
  simp only [group, List.length_take, List.length_drop]
  omega

end Level

/-- The levels of a suspended scan of `e`: the whole expression, or a slice that a closing
parenthesis ends, where the level around it goes on. -/
inductive Stacked (e : List Char) : Level → List Level → Prop
  | whole {l : Level} (hb : l.base = 0) (ht : l.text = e) (hi : l.index ≤ l.text.length) :
      Stacked e l []
  | group {l m : Level} {outer : List Level} (ht : l.text <+: e.drop l.base)
      (hi : l.index ≤ l.text.length) (hc : e[l.base + l.text.length]? = some ')')
      (hm : m.offset = l.base + l.text.length + 1) (hw : m.word = []) (h : Stacked e m outer) :
      Stacked e l (m :: outer)

namespace Stacked

variable {e : List Char} {l l' m : Level} {outer : List Level} {c : Char} {rest : List Char}

theorem index_le (h : Stacked e l outer) : l.index ≤ l.text.length := by
  cases h <;> assumption

theorem text_prefix (h : Stacked e l outer) : l.text <+: e.drop l.base := by
  cases h with
  | whole hb ht hi => simp [hb, ht]
  | group ht => exact ht

/-- What the level still has to read stands in the expression at its offset. -/
theorem remaining_prefix (h : Stacked e l outer) : l.remaining <+: e.drop l.offset := by
  rw [Level.remaining, Level.offset, ← List.drop_drop]
  exact h.text_prefix.drop l.index

/-- The text of a level stands in the expression at its base. -/
theorem getElem_text (h : Stacked e l outer) {i : Nat} (hi : i < l.text.length) :
    e[l.base + i]? = l.text[i]? := by
  obtain ⟨t, ht⟩ := h.text_prefix
  rw [← List.getElem?_drop, ← ht, List.getElem?_append_left hi]

theorem getElem_remaining (h : Stacked e l outer) {k : Nat} (hk : k < l.remaining.length) :
    e[l.offset + k]? = l.remaining[k]? := by
  obtain ⟨t, ht⟩ := h.remaining_prefix
  rw [← List.getElem?_drop, ← ht, List.getElem?_append_left hk]

theorem getElem_offset (h : Stacked e l outer) (hr : l.remaining = c :: rest) :
    e[l.offset]? = some c := by
  obtain ⟨t, ht⟩ := h.remaining_prefix
  rw [← List.head?_drop, ← ht, hr]
  rfl

/-- The parenthesis that closes a level stands where the level ends. -/
theorem getElem_end (h : Stacked e l (m :: outer)) (hr : l.remaining = []) :
    e[l.offset]? = some ')' ∧ m.offset = l.offset + 1 ∧ m.word = [] := by
  cases h with
  | group ht hi hc hm hw h =>
    have hn := Level.index_eq hi hr
    rw [Level.offset, hn]
    exact ⟨hc, hm, hw⟩

theorem offset_end (h : Stacked e l []) (hr : l.remaining = []) : l.offset = e.length := by
  cases h with
  | whole hb ht hi =>
    rw [Level.offset, hb, Level.index_eq hi hr, ht, Nat.zero_add]

theorem base_eq_zero (h : Stacked e l []) : l.base = 0 := by
  cases h with
  | whole hb => exact hb

theorem remaining_eq_drop (h : Stacked e l []) : l.remaining = e.drop l.offset := by
  cases h with
  | whole hb ht hi => rw [Level.remaining, Level.offset, hb, ht, Nat.zero_add]

theorem congr (h : Stacked e l outer) (hb : l'.base = l.base) (ht : l'.text = l.text)
    (hi : l'.index ≤ l.text.length) : Stacked e l' outer := by
  cases h with
  | whole hb' ht' hi' => exact .whole (hb.trans hb') (ht.trans ht') (ht ▸ hi)
  | group ht' hi' hc hm hw h =>
    exact .group (by rwa [ht, hb]) (ht ▸ hi) (by rwa [ht, hb]) (by rw [hb, ht, hm]) hw h

theorem start (e : List Char) : Stacked e { base := 0, text := e } [] :=
  .whole rfl rfl (Nat.zero_le _)

theorem enter {p : Pairing} {k : Nat} (h : Stacked e l outer) (hr : l.remaining = '(' :: rest)
    (hk : p.closing l.remaining = some k) : Stacked e (l.group k) (l.passGroup k :: outer) := by
  have hpos : 0 < k := Pairing.closing_pos (hr ▸ hk)
  have hlt : k < l.remaining.length := Pairing.closing_lt hk
  have hlen : (l.group k).text.length = k - 1 := Level.length_group hlt
  have hget : e[l.offset + k]? = some ')' :=
    (h.getElem_remaining hlt).trans (Pairing.closing_getElem hk)
  have hend : (l.group k).base + (l.group k).text.length = l.offset + k := by
    rw [hlen]
    simp only [Level.group]
    omega
  refine .group ?_ (Nat.zero_le _) (by rw [hend]; exact hget) (by simp [hend])
    (by simp [Level.passGroup]) (h.congr (by simp [Level.passGroup]) (by simp [Level.passGroup]) ?_)
  · have : l.remaining.drop 1 <+: e.drop (l.offset + 1) := by
      rw [← List.drop_drop]
      exact h.remaining_prefix.drop 1
    exact (List.take_prefix _ _).trans this
  · simp only [Level.passGroup, Level.remaining, List.length_drop] at hlt ⊢
    omega

/-- Every scan keeps its stack in this shape. -/
theorem kept (rules : Rules) (e : List Char) : Kept rules (Stacked e) where
  read h hr _ _ := h.congr rfl rfl (Level.index_lt hr)
  skip h hr _ _ := h.congr (by simp [Level.skip]) (by simp [Level.skip]) (Level.index_lt hr)
  enter h hr hk _ := h.enter hr hk
  leave h hr := by
    cases h with
    | group ht hi hc hm hw h => exact h.congr rfl rfl h.index_le

end Stacked

end PartScan
