import Mathlib.Data.List.Basic
import Mathlib.Data.Nat.Digits.Defs
import PartScan.Json.Layout
import PartScan.Proofs.Json.Grammar

/-! # What is written

The texts that are written on one line stand for what they were written from, whether or not
characters above ASCII are escaped. If they are, nothing but printable ASCII is written.
-/

namespace PartScan.Json

open Number

/-- Whatever follows it, the text stands for the value. -/
def Writes (t : List Char) (v : Json) : Prop := ∀ r, Spells (t ++ r) (.value v) r

/-! ## Texts -/

theorem digitChar_mem {d : Nat} (h : d < 16) : (Nat.digitChar d, d) ∈ hexDigits := by
  revert d
  decide

theorem hexUnit_hexText {n : Nat} (hn : n < 0x10000) (r : List Char) :
    HexUnit (hexText 4 n ++ r) n r := by
  have hunit : HexUnit (hexText 4 n ++ r)
      (((16 * (n / 16 / 16 / 16 % 16) + n / 16 / 16 % 16) * 16 + n / 16 % 16) * 16 + n % 16) r :=
    .mk (digitChar_mem (Nat.mod_lt _ (by decide))) (digitChar_mem (Nat.mod_lt _ (by decide)))
      (digitChar_mem (Nat.mod_lt _ (by decide))) (digitChar_mem (Nat.mod_lt _ (by decide)))
  have hvalue : ((16 * (n / 16 / 16 / 16 % 16) + n / 16 / 16 % 16) * 16 + n / 16 % 16) * 16 +
      n % 16 = n := by omega
  rwa [hvalue] at hunit

/-- A character above the units is written as a pair of surrogates. -/
theorem character_pair {c : Char} (h : ¬ c.toNat < 0x10000) (r : List Char) :
    Character (unitEscape (0xd800 + (c.toNat - 0x10000) / 0x400) ++
      (unitEscape (0xdc00 + (c.toNat - 0x10000) % 0x400) ++ r)) c r := by
  have htop : c.toNat < 0x110000 := by
    obtain hlow | ⟨_, htop⟩ := c.valid
    · exact absurd (Nat.lt_trans hlow (by decide)) h
    · exact htop
  have hpair := Character.pair (hexUnit_hexText (n := 0xd800 + (c.toNat - 0x10000) / 0x400)
    (by omega) _) (by omega) (hexUnit_hexText (n := 0xdc00 + (c.toNat - 0x10000) % 0x400)
    (by omega) r) (by omega)
  have hvalue : 0x10000 + (0xd800 + (c.toNat - 0x10000) / 0x400 - 0xd800) * 0x400 +
      (0xdc00 + (c.toNat - 0x10000) % 0x400 - 0xdc00) = c.toNat := by omega
  rwa [hvalue, Char.ofNat_toNat] at hpair

theorem character_charEscape (c : Char) (r : List Char) : Character (charEscape c ++ r) c r := by
  unfold charEscape
  split
  case isTrue h =>
    have hvalid : c.toNat < 0xd800 ∨ 0xdfff < c.toNat := c.valid.imp_right And.left
    have hunit := Character.unit (hexUnit_hexText h r) hvalid
    rwa [Char.ofNat_toNat] at hunit
  case isFalse h =>
    rw [List.append_assoc]
    exact character_pair h r

/-- A character is written as a short escape, by its number, or as it is. -/
theorem charText_cases (ascii : Bool) (c : Char) :
    (∃ e, (e, c) ∈ shortEscapes ∧ charText ascii c = ['\\', e]) ∨
      charText ascii c = charEscape c ∨
      charText ascii c = [c] ∧ ' ' ≤ c ∧ c ≠ '"' ∧ c ≠ '\\' ∧ (ascii = true → c ≤ '~') := by
  unfold charText
  split
  case isTrue h => obtain rfl | rfl := h <;> exact .inl ⟨_, by decide, rfl⟩
  case isFalse hself =>
    split
    case isTrue h => exact h ▸ .inl ⟨_, by decide, rfl⟩
    split
    case isTrue h => exact h ▸ .inl ⟨_, by decide, rfl⟩
    split
    case isTrue h => exact h ▸ .inl ⟨_, by decide, rfl⟩
    split
    case isTrue h => exact h ▸ .inl ⟨_, by decide, rfl⟩
    split
    case isTrue h => exact h ▸ .inl ⟨_, by decide, rfl⟩
    split
    case isTrue => exact .inr (.inl rfl)
    case isFalse hlow =>
      split
      case isTrue => exact .inr (.inl rfl)
      case isFalse hhigh =>
        refine .inr (.inr ⟨rfl, Nat.le_of_not_lt hlow, fun h => hself (.inl h),
          fun h => hself (.inr h), fun hascii => ?_⟩)
        exact Nat.le_of_lt_succ (Nat.lt_of_not_le fun h => hhigh ⟨hascii, h⟩)

theorem character_charText (ascii : Bool) (c : Char) (r : List Char) :
    Character (charText ascii c ++ r) c r := by
  obtain ⟨e, he, htext⟩ | htext | ⟨htext, hlow, hquote, hback, -⟩ := charText_cases ascii c
  · exact htext ▸ .short he
  · exact htext ▸ character_charEscape c r
  · exact htext ▸ .plain hlow hquote hback

theorem body_text (ascii : Bool) (s r : List Char) :
    Body (s.flatMap (charText ascii) ++ '"' :: r) s r := by
  induction s with
  | nil => exact .close
  | cons c s ih =>
    rw [List.flatMap_cons, List.append_assoc]
    exact .cons (character_charText ascii c _) ih

theorem writes_string (ascii : Bool) (s : List Char) : Writes (stringText ascii s) (.string s) := by
  intro r
  rw [stringText, List.cons_append, List.cons_append, List.append_assoc]
  exact .string (body_text ascii s r)

/-! ## Numbers -/

theorem natOfDigits_natText (n : Nat) : natOfDigits (natText n) = n :=
  Nat.ofDigitChars_toDigits (by decide) (by decide)

theorem isAsciiDigit_of_mem_natText {n : Nat} {c : Char} (h : c ∈ natText n) :
    isAsciiDigit c = true :=
  Nat.isDigit_of_mem_toDigits (by decide) (by decide) h

theorem natText_eq_cons {n : Nat} (hn : 0 < n) : ∃ d ds, natText n = d :: ds ∧ d ≠ '0' := by
  induction n using Nat.strong_induction_on with
  | _ n ih =>
    by_cases h : n < 10
    · have hdigit : ∀ m < 10, 0 < m → Nat.digitChar m ≠ '0' := by decide
      exact ⟨_, [], Nat.toDigits_of_lt_base h, hdigit n h hn⟩
    · obtain ⟨d, ds, hds, hd⟩ := ih (n / 10) (by omega) (by omega)
      refine ⟨d, ds ++ [Nat.digitChar (n % 10)], ?_, hd⟩
      rw [natText, Nat.toDigits_of_base_le (by decide) (by omega), ← natText, hds]
      rfl

theorem whole_natText (n : Nat) : Whole (natText n) := by
  obtain rfl | hn := Nat.eq_zero_or_pos n
  · exact .zero
  · obtain ⟨d, ds, hds, hd⟩ := natText_eq_cons hn
    have hdigit : ∀ c ∈ d :: ds, isAsciiDigit c = true := by
      rintro c hc
      rw [← hds] at hc
      exact isAsciiDigit_of_mem_natText hc
    obtain ⟨hfront, hrest⟩ := List.forall_mem_cons.1 hdigit
    exact hds ▸ .digits hfront hd hrest

theorem numeral_intText (i : Int) : Numeral (intText i) (.int i) := by
  cases i with
  | ofNat n =>
    have h := Numeral.nat (whole_natText n)
    rwa [natOfDigits_natText] at h
  | negSucc n =>
    have h := Numeral.neg (whole_natText (n + 1))
    rwa [natOfDigits_natText] at h

theorem writes_int (i : Int) : Writes (intText i) (.int i) :=
  fun _ => .number (numeral_intText i)

/-! ## Lists and objects -/

section Layout

variable (ascii : Bool) (depth : Nat)

/-- The items of a list behind some blanks, up to its end. -/
theorem spells_items {t : List Char} {v : Json} {ts : List (List Char)} {vs : List Json}
    (ht : Writes t v) (hts : List.Forall₂ Writes ts vs) {u r : List Char}
    (hu : Blanks u ([',', ' '].intercalate (t :: ts) ++ ']' :: r)) :
    Spells u (.items (v :: vs)) r := by
  induction hts generalizing t v u with
  | nil =>
    rw [List.intercalate_singleton] at hu
    exact .lastItem hu (ht _) .nil
  | @cons t' v' ts vs ht' _ ih =>
    rw [List.intercalate_cons_cons, List.append_assoc, List.append_assoc] at hu
    exact .item hu (ht _) .nil (ih ht' (.cons (by decide) .nil))

theorem name_text {u k w : List Char}
    (hu : Blanks u (stringText ascii k ++ ([':', ' '] ++ w))) : Name u k w := by
  rw [stringText, List.cons_append, List.cons_append, List.append_assoc] at hu
  exact .mk hu (body_text ascii k _) .nil (.cons (by decide) .nil)

/-- The fields of an object behind some blanks, up to its end. -/
theorem spells_fields {k t : List Char} {v : Json} {fs : List (List Char × List Char)}
    {xs : List (List Char × Json)} (ht : Writes t v)
    (hfs : List.Forall₂ (fun f x => f.1 = x.1 ∧ Writes f.2 x.2) fs xs) {u r : List Char}
    (hu : Blanks u ([',', ' '].intercalate (((k, t) :: fs).map fun f =>
      stringText ascii f.1 ++ [':', ' '] ++ f.2) ++ '\x7d' :: r)) :
    Spells u (.fields ((k, v) :: xs)) r := by
  induction hfs generalizing k t v u with
  | nil =>
    simp only [List.map_cons, List.map_nil, List.intercalate_singleton, List.append_assoc] at hu
    exact .lastField (name_text ascii hu) (ht _) .nil
  | @cons f x fs xs hfx _ ih =>
    simp only [List.map_cons, List.intercalate_cons_cons, List.append_assoc] at hu
    obtain ⟨k', v'⟩ := x
    obtain ⟨rfl, ht'⟩ := hfx
    refine .field (name_text ascii hu) (ht _) .nil (ih ht' (.cons (by decide) ?_))
    simp only [List.map_cons, List.append_assoc]
    exact .nil

theorem bracketed_cons (opening closing : Char) (t : List Char) (ts : List (List Char)) :
    ({ ascii } : Layout).bracketed depth opening closing (t :: ts) =
      opening :: ([',', ' '].intercalate (t :: ts) ++ [closing]) :=
  if_neg (List.cons_ne_nil _ _)

theorem writes_array {ts : List (List Char)} {vs : List Json} (h : List.Forall₂ Writes ts vs) :
    Writes (({ ascii } : Layout).arrayText depth ts) (.list vs) := by
  intro r
  cases h with
  | nil => exact .emptyList .nil
  | cons ht hts =>
    rw [Layout.arrayText, bracketed_cons, List.cons_append, List.append_assoc]
    exact .list (spells_items ht hts .nil)

theorem writes_object {fs : List (List Char × List Char)} {xs : List (List Char × Json)}
    (h : List.Forall₂ (fun f x => f.1 = x.1 ∧ Writes f.2 x.2) fs xs) :
    Writes (({ ascii } : Layout).objectText depth fs) (.object xs) := by
  intro r
  cases h with
  | nil => exact .emptyObject .nil
  | @cons f x _ _ hfx hfs =>
    obtain ⟨k, v⟩ := x
    obtain ⟨rfl, ht⟩ := hfx
    rw [Layout.objectText, List.map_cons, bracketed_cons, List.cons_append, List.append_assoc]
    exact .object (spells_fields ascii ht hfs .nil)

end Layout

/-! ## Printable characters -/

/-- The text has only characters of ASCII that print, so it is on one line. -/
def Printable (t : List Char) : Prop := ∀ c ∈ t, ' ' ≤ c ∧ c ≤ '~'

instance (t : List Char) : Decidable (Printable t) :=
  List.decidableBAll (fun c => ' ' ≤ c ∧ c ≤ '~') t

theorem printable_append {t u : List Char} (ht : Printable t) (hu : Printable u) :
    Printable (t ++ u) :=
  List.forall_mem_append.2 ⟨ht, hu⟩

theorem printable_cons {c : Char} {t : List Char} (hc : ' ' ≤ c ∧ c ≤ '~') (ht : Printable t) :
    Printable (c :: t) :=
  List.forall_mem_cons.2 ⟨hc, ht⟩

theorem printable_hexText (width n : Nat) : Printable (hexText width n) := by
  have hdigit : ∀ d < 16, ' ' ≤ Nat.digitChar d ∧ Nat.digitChar d ≤ '~' := by decide
  induction width generalizing n with
  | zero => nofun
  | succ width ih =>
    exact printable_append (ih _) (printable_cons (hdigit _ (Nat.mod_lt _ (by decide))) nofun)

theorem printable_charEscape (c : Char) : Printable (charEscape c) := by
  have hunit (n : Nat) : Printable (unitEscape n) :=
    printable_cons (by decide) (printable_cons (by decide) (printable_hexText 4 n))
  unfold charEscape
  split
  · exact hunit _
  · exact printable_append (hunit _) (hunit _)

theorem printable_charText (c : Char) : Printable (charText true c) := by
  have hshort : ∀ p ∈ shortEscapes, Printable ['\\', p.1] := by decide
  obtain ⟨e, he, htext⟩ | htext | ⟨htext, hlow, -, -, hhigh⟩ := charText_cases true c
  · exact htext ▸ hshort _ he
  · exact htext ▸ printable_charEscape c
  · exact htext ▸ printable_cons ⟨hlow, hhigh rfl⟩ nofun

theorem printable_stringText (s : List Char) : Printable (stringText true s) := by
  have hbody : Printable (s.flatMap (charText true)) := by
    intro c hc
    obtain ⟨d, _, hd⟩ := List.mem_flatMap.1 hc
    exact printable_charText d c hd
  exact printable_cons (by decide) (printable_append hbody (printable_cons (by decide) nofun))

theorem printable_intText (i : Int) : Printable (intText i) := by
  have hnat (n : Nat) : Printable (natText n) := by
    intro c hc
    obtain ⟨hzero, hnine⟩ := Bool.and_eq_true_iff.1 (isAsciiDigit_of_mem_natText hc)
    exact ⟨Char.le_trans (by decide) (of_decide_eq_true hzero),
      Char.le_trans (of_decide_eq_true hnine) (by decide)⟩
  cases i with
  | ofNat n => exact hnat n
  | negSucc n => exact printable_cons (by decide) (hnat _)

theorem printable_intercalate {ts : List (List Char)} (h : ∀ t ∈ ts, Printable t) :
    Printable ([',', ' '].intercalate ts) := by
  induction ts with
  | nil => nofun
  | cons t ts ih =>
    obtain ⟨ht, hts⟩ := List.forall_mem_cons.1 h
    cases ts with
    | nil => rwa [List.intercalate_singleton]
    | cons u us =>
      rw [List.intercalate_cons_cons]
      exact printable_append (printable_append ht (by decide)) (ih hts)

theorem printable_bracketed (depth : Nat) {opening closing : Char} {ts : List (List Char)}
    (hopen : ' ' ≤ opening ∧ opening ≤ '~') (hclose : ' ' ≤ closing ∧ closing ≤ '~')
    (h : ∀ t ∈ ts, Printable t) :
    Printable (({} : Layout).bracketed depth opening closing ts) := by
  have hend : Printable [closing] := printable_cons hclose nofun
  cases ts with
  | nil => exact printable_cons hopen hend
  | cons t ts =>
    rw [bracketed_cons]
    exact printable_cons hopen (printable_append (printable_intercalate h) hend)

theorem printable_arrayText (depth : Nat) {ts : List (List Char)} (h : ∀ t ∈ ts, Printable t) :
    Printable (({} : Layout).arrayText depth ts) :=
  printable_bracketed depth (by decide) (by decide) h

theorem printable_objectText (depth : Nat) {fs : List (List Char × List Char)}
    (h : ∀ f ∈ fs, Printable f.2) : Printable (({} : Layout).objectText depth fs) := by
  apply printable_bracketed depth (by decide) (by decide)
  intro t ht
  obtain ⟨f, hf, rfl⟩ := List.mem_map.1 ht
  exact printable_append (printable_append (printable_stringText _) (by decide)) (h f hf)

end PartScan.Json
