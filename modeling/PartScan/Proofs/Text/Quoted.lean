import Mathlib.Data.List.Basic
import PartScan.Proofs.Json.Writing
import PartScan.Text.Quoted

/-! # Reading quoted texts

A quoted text can be read back whatever follows it, in either kind of quotes. All of its characters
show by themselves, so it stays on one line.
-/

namespace PartScan.Text

open Number

/-- The character whose number is written with the first `width` characters, and what follows. -/
def numbered (width : Nat) (cs : List Char) : Char × List Char :=
  (Char.ofNat (natOfDigitsBase 16 (cs.take width)), cs.drop width)

/-- The character that an escape stands for, and what follows it; its backslash has been read. -/
def unescape? : List Char → Option (Char × List Char)
  | [] => none
  | 'n' :: rest => some ('\n', rest)
  | 'r' :: rest => some ('\r', rest)
  | 't' :: rest => some ('\t', rest)
  | 'x' :: rest => some (numbered 2 rest)
  | 'u' :: rest => some (numbered 4 rest)
  | 'U' :: rest => some (numbered 8 rest)
  | c :: rest => some (c, rest)

/-- The character that the front of a text stands for, and what follows it. -/
def character? : List Char → Option (Char × List Char)
  | [] => none
  | c :: rest => if c = '\\' then unescape? rest else some (c, rest)

theorem character?_length {cs rest : List Char} {c : Char} (h : character? cs = some (c, rest)) :
    rest.length < cs.length := by
  unfold character? unescape? numbered at h
  split at h
  · cases h
  · split at h
    · split at h <;> cases h <;> simp <;> omega
    · cases h
      simp

/-- The text up to the closing quote, and what follows it. -/
def quotedBody? (quote : Char) : List Char → Option (List Char × List Char)
  | [] => none
  | c :: rest =>
    if c = quote then some ([], rest)
    else
      match _h : character? (c :: rest) with
      | none => none
      | some (d, more) => (quotedBody? quote more).map fun (s, r) => (d :: s, r)
  termination_by cs => cs.length
  decreasing_by exact character?_length _h

/-- The text in quotes at the front, and what follows it. -/
def unquote? : List Char → Option (List Char × List Char)
  | [] => none
  | quote :: rest => quotedBody? quote rest

variable {quote c : Char} {n width : Nat}

theorem natOfDigitsBase_hexText (h : n < 16 ^ width) :
    natOfDigitsBase 16 (hexText width n) = n := by
  have hdigit : ∀ d < 16, natOfDigitsBase.digitValue (Nat.digitChar d) = d := by decide
  induction width generalizing n with
  | zero =>
    rw [Nat.pow_zero, Nat.lt_one_iff] at h
    rw [h]
    rfl
  | succ width ih =>
    have hfront : n / 16 < 16 ^ width := Nat.div_lt_of_lt_mul (by rwa [← Nat.pow_succ'])
    rw [hexText, natOfDigitsBase, List.foldl_append, ← natOfDigitsBase, ih hfront, List.foldl_cons,
      List.foldl_nil, hdigit _ (Nat.mod_lt n (by decide))]
    exact Nat.div_add_mod n 16

theorem numbered_hexText (h : c.toNat < 16 ^ width) (rest : List Char) :
    numbered width (hexText width c.toNat ++ rest) = (c, rest) := by
  have hlen := length_hexText width c.toNat
  rw [numbered, List.take_left' hlen, List.drop_left' hlen, natOfDigitsBase_hexText h,
    Char.ofNat_toNat]

theorem toNat_lt (c : Char) : c.toNat < 16 ^ 8 := by
  obtain hlow | ⟨-, htop⟩ := c.valid
  · exact Nat.lt_trans hlow (by decide)
  · exact Nat.lt_trans htop (by decide)

theorem delimiter_eq (s : List Char) : delimiter s = '\'' ∨ delimiter s = '"' := by
  unfold delimiter
  split
  · exact .inr rfl
  · exact .inl rfl

/-- The letters that stand for line breaks and tabs behind a backslash. -/
def letters : List (Char × Char) := [('n', '\n'), ('r', '\r'), ('t', '\t')]

/-- The marks in front of a number, with the digits that follow them. -/
def marks : List (Char × Nat) := [('x', 2), ('u', 4), ('U', 8)]

/-- How a character is written between quotes: behind a backslash, as itself or as a letter, without
one, or by its number. -/
inductive Written (quote c : Char) : List Char → Prop
  | self (h : c = quote ∨ c = '\\') : Written quote c ['\\', c]
  | letter {e : Char} (h : (e, c) ∈ letters) : Written quote c ['\\', e]
  | plain (hquote : c ≠ quote) (hback : c ≠ '\\') (h : isPrintable c = true) : Written quote c [c]
  | number {mark : Char} {width : Nat} (h : (mark, width) ∈ marks) (hlt : c.toNat < 16 ^ width) :
    Written quote c ('\\' :: mark :: hexText width c.toNat)

theorem written_escape (quote c : Char) : Written quote c (escape quote c) := by
  unfold escape
  split
  case isTrue h => exact .self h
  case isFalse hself =>
    obtain ⟨hquote, hback⟩ := not_or.1 hself
    split
    case isTrue h => exact h ▸ .letter (by decide)
    split
    case isTrue h => exact h ▸ .letter (by decide)
    split
    case isTrue h => exact h ▸ .letter (by decide)
    split
    case isTrue h => exact .plain hquote hback h
    split
    case isTrue h => exact .number (by decide) h
    split
    case isTrue h => exact .number (by decide) h
    case isFalse => exact .number (by decide) (toNat_lt c)

section Quote

variable {t : List Char} (hquote : quote = '\'' ∨ quote = '"')
include hquote

theorem Written.character? (h : Written quote c t) (rest : List Char) :
    Text.character? (t ++ rest) = some (c, rest) := by
  cases h with
  | self h =>
    obtain rfl | rfl := h
    · obtain rfl | rfl := hquote <;> rfl
    · rfl
  | @letter e h =>
    have hletters : ∀ p ∈ letters, unescape? (p.1 :: rest) = some (p.2, rest) := by
      simp [letters, unescape?]
    exact hletters _ h
  | plain _ hback _ => exact if_neg hback
  | @number mark width h hlt =>
    have hmarks : ∀ p ∈ marks, ∀ cs, unescape? (p.1 :: cs) = some (numbered p.2 cs) := by
      simp [marks, unescape?]
    exact (hmarks _ h _).trans (congrArg some (numbered_hexText hlt rest))

/-- The written form of a character does not begin like the closing quote. -/
theorem Written.eq_cons (h : Written quote c t) : ∃ d more, t = d :: more ∧ d ≠ quote := by
  have hback : '\\' ≠ quote := by
    obtain rfl | rfl := hquote <;> decide
  cases h with
  | self _ => exact ⟨_, _, rfl, hback⟩
  | letter _ => exact ⟨_, _, rfl, hback⟩
  | plain hne _ _ => exact ⟨_, _, rfl, hne⟩
  | number _ _ => exact ⟨_, _, rfl, hback⟩

theorem quotedBody?_flatMap (s rest : List Char) :
    quotedBody? quote (s.flatMap (escape quote) ++ quote :: rest) = some (s, rest) := by
  induction s with
  | nil => rw [List.flatMap_nil, List.nil_append, quotedBody?, if_pos rfl]
  | cons c s ih =>
    have hwritten := written_escape quote c
    obtain ⟨d, more, htext, hne⟩ := hwritten.eq_cons hquote
    have hread := hwritten.character? hquote (s.flatMap (escape quote) ++ quote :: rest)
    -- no written form begins like the closing quote, so reading goes on behind it
    rw [List.flatMap_cons, List.append_assoc]
    rw [htext, List.cons_append] at hread ⊢
    rw [quotedBody?, if_neg hne]
    split
    · rename_i hnone
      rw [hnone] at hread
      cases hread
    · rename_i hsome
      rw [hsome] at hread
      cases hread
      rw [ih]
      rfl

end Quote

/-- A quoted text is read back in front of any rest. -/
theorem unquote?_quoted (s rest : List Char) : unquote? (quoted s ++ rest) = some (s, rest) := by
  rw [quoted, List.append_assoc]
  exact quotedBody?_flatMap (delimiter_eq s) s rest

/-! ## Characters that show -/

/-- All characters show by themselves, so the text is on one line. -/
def Visible (t : List Char) : Prop := ∀ c ∈ t, isPrintable c = true

instance (t : List Char) : Decidable (Visible t) :=
  List.decidableBAll _ t

theorem isPrintable_of_ascii {c : Char} (h : ' ' ≤ c ∧ c ≤ '~') : isPrintable c = true := by
  have hall : ∀ n < 0x7f, 0x20 ≤ n → hiddenRanges.contains n = false := by decide +kernel
  rw [isPrintable, hall c.toNat (Nat.lt_succ_of_le h.2) h.1]
  rfl

theorem visible_of_printable {t : List Char} (h : Json.Printable t) : Visible t :=
  fun c hc => isPrintable_of_ascii (h c hc)

theorem visible_cons {t : List Char} (hc : isPrintable c = true) (ht : Visible t) :
    Visible (c :: t) :=
  List.forall_mem_cons.2 ⟨hc, ht⟩

theorem visible_append {t u : List Char} (ht : Visible t) (hu : Visible u) : Visible (t ++ u) :=
  List.forall_mem_append.2 ⟨ht, hu⟩

theorem Written.visible {t : List Char} (hquote : quote = '\'' ∨ quote = '"')
    (h : Written quote c t) : Visible t := by
  have hback : isPrintable '\\' = true := by decide
  cases h with
  | self h =>
    have hself : isPrintable c = true := by
      obtain rfl | rfl := h
      · obtain rfl | rfl := hquote <;> decide
      · exact hback
    exact visible_cons hback (visible_cons hself nofun)
  | letter h =>
    have hletters : ∀ p ∈ letters, isPrintable p.1 = true := by decide
    exact visible_cons hback (visible_cons (hletters _ h) nofun)
  | plain _ _ h => exact visible_cons h nofun
  | number h _ =>
    have hmarks : ∀ p ∈ marks, isPrintable p.1 = true := by decide
    exact visible_cons hback
      (visible_cons (hmarks _ h) (visible_of_printable (Json.printable_hexText _ _)))

theorem visible_quoted (s : List Char) : Visible (quoted s) := by
  have hdelimiter : isPrintable (delimiter s) = true := by
    obtain h | h := delimiter_eq s <;> rw [h] <;> decide
  refine visible_append (visible_cons hdelimiter fun c hc => ?_) (visible_cons hdelimiter nofun)
  obtain ⟨d, -, hd⟩ := List.mem_flatMap.1 hc
  exact (written_escape _ d).visible (delimiter_eq s) c hd

end PartScan.Text
