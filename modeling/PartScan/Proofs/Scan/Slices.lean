import PartScan.Proofs.Parenthesis.Search
import PartScan.Proofs.Scan.Nesting

/-! # Searching in slices

What stands between a parenthesis and its partner is balanced, so a search that sees nothing else
finds the partners of the whole text there. Every level of a nested scan is such a slice: its base
and the index that is found in its own text add up to the partner in the whole expression.
-/

namespace PartScan

/-- No prefix closes more than it opens, and as many are closed as are opened. -/
structure Balanced (cs : List Char) : Prop where
  covers : ∀ t, t <+: cs → t.count ')' ≤ t.count '('
  total : cs.count '(' = cs.count ')'

/-- A text and where it begins in the expression: the whole of it, or what stands between a
parenthesis and its partner. -/
inductive Slice (e : List Char) : Nat → List Char → Prop
  | whole : Slice e 0 e
  | group {o j : Nat} (h : partner? e o = some j) : Slice e (o + 1) (e.extract (o + 1) j)

section Text

open Pairing

variable {e text cs : List Char} {o i j k b : Nat}

theorem depth_append (cs ds : List Char) : depth (cs ++ ds) = depth cs + depth ds := by
  simp only [depth, List.count_append]
  omega

/-- In front of the place where a search from depth one ends, everything is closed again. -/
theorem balanced_take (h : nestedClosing 1 cs = some k) : Balanced (cs.take k) where
  covers t ht := by
    have hlen : t.length ≤ k := ht.length_le.trans (List.length_take_le k cs)
    have htake : t = cs.take t.length :=
      List.prefix_iff_eq_take.1 (ht.trans (List.take_prefix k cs))
    have hpos := (nestedClosing_drop (by decide) h hlen).1
    rw [← htake, depth] at hpos
    omega
  total := by
    obtain ⟨-, hzero, -⟩ := (nestedClosing_eq_some_iff (by decide)).1 h
    rw [List.take_add_one, nestedClosing_getElem h, Option.toList_some, depth_append, depth_close,
      depth_nil, depth] at hzero
    omega

theorem extract_eq_take (e : List Char) (o k : Nat) :
    e.extract o (o + k) = (e.drop o).take k := by
  rw [List.extract_eq_take_drop, Nat.add_sub_cancel_left]

theorem findClosing_nested_eq_some_iff (hopen : text[o]? = some '(') :
    findClosing .nested text o = some (j : Int) ↔ partner? text o = some j := by
  rw [findClosing_natCast, Option.some.injEq]
  constructor
  · intro h
    cases hk : Pairing.nested.closing (text.drop o) with
    | none =>
      rw [hk] at h
      cases h
    | some k =>
      rw [hk, Option.elim_some, Int.natCast_inj] at h
      rw [← h, ← closing_drop_eq_some_iff hopen, hk]
  · intro h
    obtain ⟨k, rfl⟩ := Nat.exists_eq_add_of_le (lt_of_partner? h).le
    rw [(closing_drop_eq_some_iff hopen).2 h, Option.elim_some]

theorem balanced_group (h : partner? e o = some j) : Balanced (e.extract (o + 1) j) := by
  obtain ⟨k, rfl⟩ := Nat.exists_eq_add_of_le (lt_of_partner? h : o + 1 ≤ j)
  rw [extract_eq_take]
  exact balanced_take ((partner?_eq_nestedClosing (opens_of_partner? h)).1 h)

/-- Between partners, a search in the slice finds what the search in the whole text finds. -/
theorem closing_group (h : partner? e o = some j) (hk : (e.extract (o + 1) j)[k]? = some '(') :
    ∃ r, Pairing.nested.closing ((e.extract (o + 1) j).drop k) = some r ∧
      Pairing.nested.closing (e.drop (o + 1 + k)) = some r ∧ o + 1 + k + r < j := by
  obtain ⟨n, rfl⟩ := Nat.exists_eq_add_of_le (lt_of_partner? h : o + 1 ≤ j)
  rw [extract_eq_take, List.getElem?_take, Option.ite_none_right_eq_some, List.getElem?_drop] at hk
  obtain ⟨hlt, hopen⟩ := hk
  obtain ⟨p, hp, hpj⟩ := partner?_inside h (n := o + 1 + k) (by omega) (by omega) hopen
  obtain ⟨r, rfl⟩ := Nat.exists_eq_add_of_le (lt_of_partner? hp).le
  have hwhole := (closing_drop_eq_some_iff hopen).2 hp
  refine ⟨r, ?_, hwhole, hpj⟩
  rw [extract_eq_take, List.drop_take, List.drop_drop]
  exact nestedClosing_take.2 ⟨hwhole, by omega⟩

/-- A search in a slice finds what the search in the expression finds from the same place. -/
theorem Slice.closing_eq (h : Slice e b text) (hk : text[k]? = some '(') :
    Pairing.nested.closing (text.drop k) = Pairing.nested.closing (e.drop (b + k)) := by
  cases h with
  | whole => rw [Nat.zero_add]
  | group h =>
    obtain ⟨r, hslice, hwhole, -⟩ := closing_group h hk
    rw [hslice, hwhole]

theorem Slice.findClosing_iff (h : Slice e b text) (hk : text[k]? = some '(') :
    findClosing .nested text k = some (i : Int) ↔
      findClosing .nested e (b + k : Nat) = some ((b + i : Nat) : Int) := by
  rw [findClosing_natCast, findClosing_natCast, h.closing_eq hk]
  cases Pairing.nested.closing (e.drop (b + k)) with
  | none => exact iff_of_false nofun nofun
  | some r =>
    simp only [Option.elim_some, Option.some.injEq, Int.natCast_inj]
    omega

end Text

section Levels

/-- The stacks from which the scan of an expression steps on: where it begins, where it has been
suspended, and where it has entered a group without a pause. -/
inductive Visited (rules : Rules) (e : List Char) : Level → List Level → Prop
  | start : Visited rules e { base := 0, text := e } []
  | next {l l' : Level} {outer outer' : List Level} (h : Visited rules e l outer)
      (ha : advance rules e l outer = .suspended l' outer') : Visited rules e l' outer'
  | enter {l : Level} {outer : List Level} {rest : List Char} {k : Nat}
      (h : Visited rules e l outer) (hr : l.remaining = '(' :: rest)
      (hk : rules.pairing.closing l.remaining = some k) (hd : outer.length < rules.maxDepth) :
      Visited rules e (l.group k) (l.passGroup k :: outer)

variable {rules : Rules} {e : List Char} {I : Level → List Level → Prop} {l m : Level}
  {outer : List Level}

theorem Kept.visited (hI : Kept rules I) (h₀ : I { base := 0, text := e } [])
    (h : Visited rules e l outer) : I l outer := by
  induction h with
  | start => exact h₀
  | next _ ha ih =>
    have := hI.advance_meets (e := e) ih
    rwa [ha] at this
  | enter _ hr hk hd ih => exact hI.enter ih hr hk hd

/-- All levels of a nested scan are slices of the expression. -/
theorem Matched.slice (hs : Stacked e l outer) (h : Matched e l outer) (hm : m ∈ l :: outer) :
    Slice e m.base m.text := by
  induction outer generalizing l with
  | nil =>
    obtain rfl := List.mem_singleton.1 hm
    cases hs with
    | whole hb ht => exact hb ▸ ht ▸ .whole
  | cons l' outer ih =>
    obtain ⟨hpos, hpartner, htail⟩ := h
    rcases List.mem_cons.1 hm with rfl | hm
    · obtain ⟨o, ho⟩ := Nat.exists_eq_add_of_le' hpos
      have htext : m.text = e.extract (o + 1) m.stop := by
        rw [Level.stop, ho, extract_eq_take]
        exact List.prefix_iff_eq_take.1 (ho ▸ hs.text_prefix)
      rw [ho, Nat.add_sub_cancel] at hpartner
      exact htext ▸ ho ▸ .group hpartner
    · exact ih hs.tail htail hm

/-- What stands between a parenthesis and the closing one that the search by depth finds is
balanced, and the search in this slice finds the closing parentheses of the whole text. Hence every
level that a nested scan visits finds the partners of the whole expression in its own text. -/
theorem slices_keep_partners :
    (∀ (text : List Char) (o j : Nat), text[o]? = some '(' →
      findClosing .nested text o = some (j : Int) →
      Balanced (text.extract (o + 1) j) ∧
        ∀ k : Nat, (text.extract (o + 1) j)[k]? = some '(' → ∃ i : Nat,
          findClosing .nested (text.extract (o + 1) j) k = some (i : Int) ∧
          findClosing .nested text (o + 1 + k : Nat) = some ((i + o + 1 : Nat) : Int) ∧
          i + o + 1 < j) ∧
    ∀ (rules : Rules) (e : List Char), rules.pairing = .nested → ∀ l outer,
      Visited rules e l outer → ∀ m ∈ l :: outer, ∀ k i : Nat, m.text[k]? = some '(' →
        (findClosing .nested m.text k = some (i : Int) ↔
          findClosing .nested e (m.base + k : Nat) = some ((m.base + i : Nat) : Int)) := by
  constructor
  · intro text o j hopen hj
    have hpartner := (findClosing_nested_eq_some_iff hopen).1 hj
    refine ⟨balanced_group hpartner, fun k hk => ?_⟩
    obtain ⟨r, hslice, hwhole, hlt⟩ := closing_group hpartner hk
    refine ⟨k + r, ?_, ?_, by omega⟩
    · rw [findClosing_natCast, hslice, Option.elim_some]
    · rw [findClosing_natCast, hwhole, Option.elim_some,
        show o + 1 + k + r = k + r + o + 1 by omega]
  · intro rules e hnested l outer h m hm k i hk
    have hnests := (Nests.kept hnested e).visited (.start _ e) h
    exact (hnests.matched.slice hnests.stacked hm).findClosing_iff hk

/-- The inner of two groups, as the level around it sees it and as the whole expression does. -/
theorem slices_keep_partners_inner :
    let e : List Char := ['f', '(', 'a', '(', ')', ')', ')']
    let outer : Level := ⟨0, e, 6, 1, [], [⟨.function, 0, 1, ['f']⟩]⟩
    findClosing .nested e 1 = some 5 ∧ Balanced ['a', '(', ')'] ∧
      (∃ i : Nat, findClosing .nested ['a', '(', ')'] 1 = some (i : Int) ∧
        findClosing .nested e 3 = some ((i + 1 + 1 : Nat) : Int) ∧ i + 1 + 1 < 5) ∧
      Visited default e ⟨2, ['a', '(', ')'], 0, 0, [], []⟩ [outer] ∧
      (findClosing .nested ['a', '(', ')'] 1 = some (2 : Nat) ↔
        findClosing .nested e 3 = some (4 : Nat)) := by
  intro e outer
  obtain ⟨htext, hscan⟩ := slices_keep_partners
  have hclosing : findClosing .nested e 1 = some 5 := by decide
  obtain ⟨hbalanced, hinner⟩ := htext e 1 5 rfl hclosing
  have hword : Visited default e ⟨0, e, 1, 0, ['f'], []⟩ [] := .next .start (by decide +kernel)
  have hvisited : Visited default e ⟨2, ['a', '(', ')'], 0, 0, [], []⟩ [outer] :=
    .enter (k := 4) hword rfl (by decide) (by decide)
  exact ⟨hclosing, hbalanced, hinner 1 rfl, hvisited,
    hscan default e rfl _ _ hvisited _ List.mem_cons_self 1 2 rfl⟩

end Levels

end PartScan
