import Mathlib.Data.List.Basic
import PartScan.Settings.Check

/-! # Checks of settings

What a check makes of each field by itself: the value that gives the field again, its default, or
the one problem of the field. The values that checked settings give are accepted as they are.
-/

namespace PartScan

namespace Field

/-- Read a value for a field, as the value that gives the checked field again. -/
def read : Field → Given → Except Problem Given
  | .stepDelay, g => g.delay.map fun d => .float d.seconds
  | .dueTime, g => g.delay.map fun d => .float d.seconds
  | .maxDepth, g => g.depth.map fun n => .int n.1
  | .pairing, g => g.pairing.map fun p => .text p.label
  | .quote, g => g.quote.map fun c => .text [c.1]

def default (f : Field) : Given := Settings.toGiven Inhabited.default f

/-- What a field has after a check, where a value may be given for it. -/
def checked (f : Field) (g? : Option Given) : Except Problem Given := g?.elim (.ok f.default) f.read

def problem? (f : Field) (g? : Option Given) : Option Problem :=
  match f.checked g? with
  | .ok _ => none
  | .error p => some p

theorem mem_all (f : Field) : f ∈ all := by
  cases f <;> decide

theorem problem?_eq_none_iff {f : Field} {g? : Option Given} :
    f.problem? g? = none ↔ ∃ v, f.checked g? = .ok v := by
  unfold problem?
  cases f.checked g? <;> simp

end Field

namespace Settings

/-- The problems of the fields with the given values, in the order of the fields. -/
def invalid (given : Field → Option Given) : List (Field × Problem) :=
  Field.all.filterMap fun f => (f.problem? (given f)).map (Prod.mk f)

theorem invalid_eq_nil_iff {given : Field → Option Given} :
    invalid given = [] ↔ ∀ f : Field, f.problem? (given f) = none := by
  rw [invalid, List.filterMap_eq_nil_iff]
  constructor
  · intro h f
    simpa using h f f.mem_all
  · intro h f _
    rw [h f]
    rfl

/-- Each field with a problem is there once, and no other. -/
theorem map_fst_invalid (given : Field → Option Given) :
    (invalid given).map Prod.fst = Field.all.filter fun f => (f.problem? (given f)).isSome := by
  rw [invalid, List.map_filterMap, ← List.filterMap_eq_filter]
  apply List.filterMap_congr
  rintro f -
  cases hf : f.problem? (given f) <;> simp [Option.guard, hf]

section Check

variable {α : Type} {given : Field → Option Given} {s s' : Settings}

theorem orDefault_map (d : α) (read : Given → Except Problem α) (dump : α → Given)
    (g? : Option Given) :
    (orDefault d read g?).map dump = g?.elim (.ok (dump d)) fun g => (read g).map dump := by
  cases g? <;> rfl

theorem toList_problem? {f : Field} {g? : Option Given} {e : Except Problem α} {dump : α → Given}
    (h : f.checked g? = e.map dump) :
    ((f.problem? g?).map (Prod.mk f)).toList = problem? f e := by
  rw [Field.problem?, h]
  cases e <;> rfl

theorem toGiven_injective (h : ∀ f, s.toGiven f = s'.toGiven f) : s = s' := by
  obtain ⟨⟨quote, pairing, depth, _, _, _, _, _⟩, ⟨step, _⟩, ⟨due, _⟩⟩ := s
  obtain ⟨⟨quote', pairing', depth', _, _, _, _, _⟩, ⟨step', _⟩, ⟨due', _⟩⟩ := s'
  have hstep : step = step' := Given.float.inj (h .stepDelay)
  have hdue : due = due' := Given.float.inj (h .dueTime)
  have hdepth : depth = depth' := Int.ofNat.inj (Given.int.inj (h .maxDepth))
  have hpairing : pairing = pairing' := by
    have hlabel : pairing.label = pairing'.label := Given.text.inj (h .pairing)
    cases pairing <;> cases pairing' <;> first | rfl | cases hlabel
  have hquote : quote = quote' := (List.cons.inj (Given.text.inj (h .quote))).1
  subst hstep hdue hdepth hpairing hquote
  rfl

theorem invalid_eq (given : Field → Option Given) : invalid given =
    Field.all.flatMap fun f : Field => ((f.problem? (given f)).map (Prod.mk f)).toList :=
  List.filterMap_eq_flatMap_toList _ _

/-- A check accepts the value of every field, or it names the problem of each invalid one. -/
theorem check_cases (given : Field → Option Given) :
    (∃ s, check given = .ok s ∧ ∀ f : Field, f.checked (given f) = .ok (s.toGiven f)) ∨
      invalid given ≠ [] ∧ check given = .error (invalid given) := by
  have hstep := orDefault_map default Given.delay (fun d => .float d.seconds) (given .stepDelay)
  have hdue := orDefault_map default Given.delay (fun d => .float d.seconds) (given .dueTime)
  have hdepth := orDefault_map ⟨64, by decide, by decide⟩ Given.depth (fun n => .int n.1)
    (given .maxDepth)
  have hpairing := orDefault_map .nested Given.pairing (fun p => .text p.label) (given .pairing)
  have hquote := orDefault_map ⟨'"', by decide⟩ Given.quote (fun c => .text [c.1]) (given .quote)
  have hinvalid := invalid_eq given
  simp only [Field.all, List.flatMap_cons, List.flatMap_nil, List.append_nil,
    toList_problem? (f := .stepDelay) hstep.symm, toList_problem? (f := .dueTime) hdue.symm,
    toList_problem? (f := .maxDepth) hdepth.symm, toList_problem? (f := .pairing) hpairing.symm,
    toList_problem? (f := .quote) hquote.symm] at hinvalid
  rw [hinvalid]
  simp only [← List.append_assoc]
  unfold check
  generalize orDefault _ Given.depth _ = depth at hdepth ⊢
  generalize orDefault _ Given.pairing _ = pairing at hpairing ⊢
  generalize orDefault _ Given.quote _ = quote at hquote ⊢
  generalize orDefault _ Given.delay (given .stepDelay) = step at hstep ⊢
  generalize orDefault _ Given.delay (given .dueTime) = due at hdue ⊢
  obtain _ | step := step
  · exact .inr ⟨by simp [problem?], rfl⟩
  obtain _ | due := due
  · exact .inr ⟨by simp [problem?], rfl⟩
  obtain _ | ⟨depth, hpos, hle⟩ := depth
  · exact .inr ⟨by simp [problem?], rfl⟩
  obtain _ | pairing := pairing
  · exact .inr ⟨by simp [problem?], rfl⟩
  obtain _ | ⟨quote, ho, hc, hb⟩ := quote
  · exact .inr ⟨by simp [problem?], rfl⟩
  refine .inl ⟨_, rfl, ?_⟩
  rintro (_ | _ | _ | _ | _)
  · exact hstep.symm
  · exact hdue.symm
  · exact hdepth.symm
  · exact hpairing.symm
  · exact hquote.symm

theorem check_of_valid (h : invalid given = []) :
    ∃ s, check given = .ok s ∧ ∀ f : Field, f.checked (given f) = .ok (s.toGiven f) :=
  (check_cases given).resolve_right fun hinvalid => hinvalid.1 h

theorem check_of_invalid (h : invalid given ≠ []) : check given = .error (invalid given) := by
  obtain ⟨s, -, hfields⟩ | ⟨-, herr⟩ := check_cases given
  · exact absurd (invalid_eq_nil_iff.2 fun f => Field.problem?_eq_none_iff.2 ⟨_, hfields f⟩) h
  · exact herr

theorem delay_float (d : Delay) : Given.delay (.float d.seconds) = .ok d :=
  dif_pos d.nonneg

theorem depth_int {n : Nat} (hpos : 0 < n) (hle : n ≤ 256) :
    Given.depth (.int n) = .ok ⟨n, hpos, hle⟩ := by
  have hpos' : (0 : Int) < n := by omega
  have hle' : (n : Int) ≤ 256 := by omega
  exact (dif_pos hpos').trans (dif_pos hle')

theorem quote_text {c : Char} (h : c ≠ '(' ∧ c ≠ ')' ∧ Text.isBlank c = false) :
    Given.quote (.text [c]) = .ok ⟨c, h⟩ :=
  dif_pos h

/-- The value that a checked field gives is read as itself. -/
theorem read_toGiven (s : Settings) (f : Field) : f.read (s.toGiven f) = .ok (s.toGiven f) := by
  cases f with
  | stepDelay => rw [toGiven, Field.read, delay_float]; rfl
  | dueTime => rw [toGiven, Field.read, delay_float]; rfl
  | maxDepth => rw [toGiven, Field.read, depth_int s.rules.maxDepth_pos s.rules.maxDepth_le]; rfl
  | pairing => cases h : s.rules.pairing <;> simp only [toGiven, h] <;> rfl
  | quote =>
    obtain ⟨⟨_, _, _, ho, hc, hb, _, _⟩, _, _⟩ := s
    rw [toGiven, Field.read, quote_text ⟨ho, hc, hb⟩]
    rfl

/-- Settings are accepted again as they are. -/
theorem check_toGiven (s : Settings) : check (fun f => some (s.toGiven f)) = .ok s := by
  have hvalid : invalid (fun f => some (s.toGiven f)) = [] :=
    invalid_eq_nil_iff.2 fun f => Field.problem?_eq_none_iff.2 ⟨_, s.read_toGiven f⟩
  obtain ⟨t, ht, hfields⟩ := check_of_valid hvalid
  have hts : t = s := toGiven_injective fun f =>
    Except.ok.inj ((hfields f).symm.trans (s.read_toGiven f))
  exact hts ▸ ht

section Override

variable (s : Settings) (upper : Field → Option Given) (f : Field)

theorem checked_getD : f.checked (some ((upper f).getD (s.toGiven f))) =
    (upper f).elim (.ok (s.toGiven f)) f.read := by
  cases upper f with
  | none => exact s.read_toGiven f
  | some g => rfl

theorem problem?_getD :
    f.problem? (some ((upper f).getD (s.toGiven f))) = f.problem? (upper f) := by
  unfold Field.problem?
  rw [checked_getD]
  cases upper f <;> rfl

/-- The settings below a layer have no part in its problems. -/
theorem invalid_getD : invalid (fun f => some ((upper f).getD (s.toGiven f))) = invalid upper := by
  unfold invalid
  simp only [problem?_getD]

/-- Texts over no field leave the settings as they are, so an override is always a check. -/
theorem override_eq_check (texts : Field → Option (List Char)) : s.override texts =
    check fun f => some (((texts f).map Given.text).getD (s.toGiven f)) := by
  unfold override
  split
  case isTrue h =>
    have hnone : ∀ f, texts f = none := fun f =>
      Option.isNone_iff_eq_none.1 (List.all_eq_true.1 h f f.mem_all)
    simp only [hnone, Option.map_none, Option.getD_none, check_toGiven]
  case isFalse => rfl

variable {s} {texts : Field → Option (List Char)}

theorem override_of_valid (h : invalid (fun f => (texts f).map .text) = []) :
    ∃ t, s.override texts = .ok t ∧
      ∀ f : Field, ((texts f).map .text).elim (.ok (s.toGiven f)) f.read = .ok (t.toGiven f) := by
  rw [← invalid_getD s] at h
  obtain ⟨t, ht, hfields⟩ := check_of_valid h
  refine ⟨t, (s.override_eq_check texts).trans ht, fun f => ?_⟩
  exact (s.checked_getD (fun f => (texts f).map .text) f).symm.trans (hfields f)

theorem override_of_invalid (h : invalid (fun f => (texts f).map .text) ≠ []) :
    s.override texts = .error (invalid fun f => (texts f).map .text) := by
  rw [← invalid_getD s] at h ⊢
  exact (s.override_eq_check texts).trans (check_of_invalid h)

end Override

end Check

end Settings

end PartScan
