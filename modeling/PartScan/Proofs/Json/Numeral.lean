import Mathlib.Data.List.Basic
import PartScan.Json.Reader
import PartScan.Proofs.Json.Grammar

/-! # Reading numbers

A number is read as the integer or the double that the grammar has for it. Its characters set it
apart from the words that are read as values.
-/

namespace PartScan.Json

open Number

section Run

variable {p : Char → Bool} {t r : List Char} (h : ∀ c ∈ t, p c = true)
  (hr : ∀ c ∈ r.head?, p c = false)
include h hr

theorem takeWhile_append_stop : (t ++ r).takeWhile p = t := by
  rw [List.takeWhile_append_of_pos h]
  cases r with
  | nil => rw [List.takeWhile_nil, List.append_nil]
  | cons c r => rw [List.takeWhile_cons_of_neg (Bool.eq_false_iff.1 (hr c rfl)), List.append_nil]

theorem dropWhile_append_stop : (t ++ r).dropWhile p = r := by
  rw [List.dropWhile_append_of_pos h]
  cases r with
  | nil => rfl
  | cons c r => exact List.dropWhile_cons_of_neg (Bool.eq_false_iff.1 (hr c rfl))

end Run

section Numeral

variable {ds ft fs et t : List Char} {e : Int} {v : Json}

theorem Whole.digit (h : Whole ds) : ∀ c ∈ ds, isAsciiDigit c = true := by
  cases h with
  | zero => exact List.forall_mem_singleton.2 (by decide)
  | digits hd _ hds => exact List.forall_mem_cons.2 ⟨hd, hds⟩

theorem Whole.ne_nil (h : Whole ds) : ds ≠ [] := by
  cases h <;> exact List.cons_ne_nil _ _

/-- The characters of numbers. Each of the words that are read as values has one that is none. -/
def isNumeric (c : Char) : Bool := isAsciiDigit c || c ∈ ['-', '+', '.', 'e', 'E']

theorem isNumeric_of_digits (h : ∀ c ∈ ds, isAsciiDigit c = true) :
    ∀ c ∈ ds, isNumeric c = true := by
  intro c hc
  rw [isNumeric, h c hc, Bool.true_or]

theorem isNumeric_letter {c : Char} (h : c = 'e' ∨ c = 'E') :
    isNumeric c = true ∧ isAsciiDigit c = false ∧ c ≠ '.' := by
  obtain rfl | rfl := h <;> decide

theorem isPlain_of_isNumeric {c : Char} (h : isNumeric c = true) : isPlain c = true := by
  unfold isNumeric at h
  obtain h | h := Bool.or_eq_true_iff.1 h
  · have hdigit : c.isDigit = true := h
    simp only [isPlain, Char.isAlphanum, hdigit, Bool.or_true, Bool.true_or]
  · have hall : ['-', '+', '.', 'e', 'E'].all isPlain = true := by decide
    exact List.all_eq_true.1 hall c (of_decide_eq_true h)

theorem Fraction.numeric (h : Fraction ft fs) : ∀ c ∈ ft, isNumeric c = true := by
  cases h with
  | absent => nofun
  | present hds _ => exact List.forall_mem_cons.2 ⟨by decide, isNumeric_of_digits hds⟩

theorem Exponent.numeric (h : Exponent et e) : ∀ c ∈ et, isNumeric c = true := by
  cases h with
  | absent => nofun
  | bare he hds _ =>
    exact List.forall_mem_cons.2 ⟨(isNumeric_letter he).1, isNumeric_of_digits hds⟩
  | plus he hds _ =>
    exact List.forall_mem_cons.2 ⟨(isNumeric_letter he).1,
      List.forall_mem_cons.2 ⟨by decide, isNumeric_of_digits hds⟩⟩
  | minus he hds _ =>
    exact List.forall_mem_cons.2 ⟨(isNumeric_letter he).1,
      List.forall_mem_cons.2 ⟨by decide, isNumeric_of_digits hds⟩⟩

theorem Numeral.numeric (h : Numeral t v) : ∀ c ∈ t, isNumeric c = true := by
  cases h with
  | nat h => exact isNumeric_of_digits h.digit
  | neg h => exact List.forall_mem_cons.2 ⟨by decide, isNumeric_of_digits h.digit⟩
  | @real _ _ _ _ _ negative h hf he _ =>
    have hrest := List.forall_mem_append.2
      ⟨isNumeric_of_digits h.digit, List.forall_mem_append.2 ⟨hf.numeric, he.numeric⟩⟩
    cases negative with
    | true => exact List.forall_mem_cons.2 ⟨by decide, hrest⟩
    | false => exact hrest

theorem Numeral.ne_nil (h : Numeral t v) : t ≠ [] := by
  cases h with
  | nat h => exact h.ne_nil
  | neg _ => exact List.cons_ne_nil _ _
  | real h _ _ _ => simp [h.ne_nil]

theorem splitSign_digit {d : Char} {t : List Char} (h : isAsciiDigit d = true) :
    Decimal.splitSign (d :: t) = (false, d :: t) := by
  unfold Decimal.splitSign
  split
  case h_1 heq =>
    cases heq
    exact absurd h (by decide)
  case h_2 heq =>
    cases heq
    exact absurd h (by decide)
  case h_3 => rfl

theorem Exponent.read (h : Exponent et e) : Decimal.readExponent et = some e := by
  cases h with
  | absent => rfl
  | bare he hds hne =>
    obtain ⟨d, ds, rfl⟩ := List.exists_cons_of_ne_nil hne
    have hd := hds d List.mem_cons_self
    simp only [Decimal.readExponent, if_pos he, splitSign_digit hd]
    exact if_pos ⟨hne, List.all_eq_true.2 hds⟩
  | plus he hds hne =>
    simp only [Decimal.readExponent, if_pos he]
    exact if_pos ⟨hne, List.all_eq_true.2 hds⟩
  | minus he hds hne =>
    simp only [Decimal.readExponent, if_pos he]
    exact if_pos ⟨hne, List.all_eq_true.2 hds⟩

theorem Exponent.stop (h : Exponent et e) : ∀ c ∈ et.head?, isAsciiDigit c = false ∧ c ≠ '.' := by
  intro c hc
  cases h with
  | absent => cases hc
  | bare he _ _ => exact Option.some.inj hc ▸ (isNumeric_letter he).2
  | plus he _ _ => exact Option.some.inj hc ▸ (isNumeric_letter he).2
  | minus he _ _ => exact Option.some.inj hc ▸ (isNumeric_letter he).2

theorem Fraction.stop (hf : Fraction ft fs) (he : Exponent et e) :
    ∀ c ∈ (ft ++ et).head?, isAsciiDigit c = false := by
  cases hf with
  | absent => exact fun c hc => (he.stop c hc).1
  | present _ _ =>
    intro c hc
    exact Option.some.inj hc ▸ by decide

/-- A number with a fraction or an exponent does not consist of digits. -/
theorem not_digits_of_real (ds : List Char) (hf : Fraction ft fs) (he : Exponent et e)
    (hreal : ft ++ et ≠ []) : ¬ (ds ++ (ft ++ et)).all isAsciiDigit = true := by
  obtain ⟨c, cs, hcs⟩ := List.exists_cons_of_ne_nil hreal
  intro hall
  have hc : isAsciiDigit c = false := hf.stop he c (hcs ▸ rfl)
  have hc' := List.all_eq_true.1 hall c (by simp [hcs])
  rw [hc] at hc'
  cases hc'

theorem readMagnitude_eq (h : Whole ds) (hf : Fraction ft fs) (he : Exponent et e) :
    Decimal.readMagnitude (ds ++ (ft ++ et)) = some (natOfDigits (ds ++ fs), e - fs.length) := by
  have hdigit : ∀ c ∈ et.head?, isAsciiDigit c = false := fun c hc => (he.stop c hc).1
  simp only [Decimal.readMagnitude, takeWhile_append_stop h.digit (hf.stop he),
    dropWhile_append_stop h.digit (hf.stop he), h.ne_nil, false_and, if_false]
  cases hf with
  | absent =>
    rw [List.nil_append]
    split
    · exact absurd rfl (he.stop '.' rfl).2
    · rw [he.read]
      rfl
  | present hds _ =>
    simp only [List.cons_append, takeWhile_append_stop hds hdigit,
      dropWhile_append_stop hds hdigit, he.read, Option.map_some]

theorem readFinite_eq (negative : Bool) (h : Whole ds) (hf : Fraction ft fs) (he : Exponent et e) :
    Decimal.readFinite ((if negative then ['-'] else []) ++ (ds ++ (ft ++ et))) =
      some (.finite negative (natOfDigits (ds ++ fs)) (e - fs.length)) := by
  have hsign : Decimal.splitSign ((if negative then ['-'] else []) ++ (ds ++ (ft ++ et))) =
      (negative, ds ++ (ft ++ et)) := by
    cases negative with
    | true => rfl
    | false =>
      obtain ⟨d, es, rfl⟩ := List.exists_cons_of_ne_nil h.ne_nil
      exact splitSign_digit (h.digit d List.mem_cons_self)
  rw [Decimal.readFinite, hsign]
  exact congrArg (Option.map _) (readMagnitude_eq h hf he)

theorem Numeral.plain? (h : Numeral t v) : Json.plain? t = some v := by
  have hword {w : List Char} (hw : w.all isNumeric = false) : t ≠ w := by
    rintro rfl
    rw [List.all_eq_true.2 h.numeric] at hw
    cases hw
  refine (if_neg (hword (by decide))).trans ((if_neg (hword (by decide))).trans
    ((if_neg (hword (by decide))).trans ((if_neg (hword (by decide))).trans
      ((if_neg (hword (by decide))).trans ((if_neg (hword (by decide))).trans ?_)))))
  cases h with
  | nat h =>
    split
    case h_1 negative ds heq =>
      split at heq
      · exact absurd (h.digit '-' List.mem_cons_self) (by decide)
      · cases heq
        exact if_pos ⟨h.ne_nil, List.all_eq_true.2 h.digit⟩
  | neg h => exact if_pos ⟨h.ne_nil, List.all_eq_true.2 h.digit⟩
  | @real ds ft _ et _ negative h hf he hreal =>
    have hall := not_digits_of_real ds hf he hreal
    have hfinite := congrArg (Option.map fun d => Json.float (.ofDecimal d))
      (readFinite_eq negative h hf he)
    split
    case h_1 negative' ds' heq =>
      have hds : ds' = ds ++ (ft ++ et) := by
        cases negative with
        | true =>
          cases heq
          rfl
        | false =>
          obtain ⟨d, es, rfl⟩ := List.exists_cons_of_ne_nil h.ne_nil
          have hd : d ≠ '-' := by
            rintro rfl
            exact absurd (h.digit '-' List.mem_cons_self) (by decide)
          split at heq
          case h_1 heq' => exact absurd (List.cons.inj heq').1 hd
          case h_2 =>
            cases heq
            rfl
      exact (if_neg fun h => hall (hds ▸ h.2)).trans hfinite

end Numeral

end PartScan.Json
