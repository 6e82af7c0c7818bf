import PartScan.Proofs.Json.Numeral

/-! # Reading what the grammar has

The reader finds the value that a text stands for. Each piece of the text moves the machine as one
token does; a value, however it is written, moves it as the value itself.
-/

namespace PartScan.Json

open Number

/-! ## Texts in quotes -/

theorem isHex_of_mem {a : Char} {i : Nat} (h : (a, i) ∈ hexDigits) :
    unit?.isHex a = true ∧ natOfDigitsBase.digitValue a = i := by
  have hall : ∀ p ∈ hexDigits, unit?.isHex p.1 = true ∧ natOfDigitsBase.digitValue p.1 = p.2 := by
    decide
  exact hall _ h

theorem HexUnit.unit? {t r : List Char} {n : Nat} (h : HexUnit t n r) :
    Json.unit? t = some (n, r) := by
  cases h with
  | mk ha hb hc hd =>
    obtain ⟨ha, hi⟩ := isHex_of_mem ha
    obtain ⟨hb, hj⟩ := isHex_of_mem hb
    obtain ⟨hc, hk⟩ := isHex_of_mem hc
    obtain ⟨hd, hl⟩ := isHex_of_mem hd
    simp only [Json.unit?, natOfDigitsBase, List.all_cons, List.all_nil, List.foldl_cons,
      List.foldl_nil, ha, hb, hc, hd, hi, hj, hk, hl, Bool.and_self, if_true]
    congr 2
    omega

theorem shortEscape?_of_mem {e c : Char} (h : (e, c) ∈ shortEscapes) : shortEscape? e = some c := by
  have hall : ∀ p ∈ shortEscapes, shortEscape? p.1 = some p.2 := by decide
  exact hall _ h

theorem unicodeEscape?_unit {n : Nat} {t r : List Char} (h : HexUnit t n r)
    (hn : n < 0xd800 ∨ 0xdfff < n) : unicodeEscape? t = some (Char.ofNat n, r) := by
  have hhigh : ¬ (0xd800 ≤ n ∧ n < 0xdc00) := by omega
  have hlow : ¬ (0xdc00 ≤ n ∧ n < 0xe000) := by omega
  simp only [unicodeEscape?, h.unit?, if_neg hhigh, if_neg hlow]

theorem unicodeEscape?_pair {m n : Nat} {t u r : List Char} (h : HexUnit t n ('\\' :: 'u' :: u))
    (hn : 0xd800 ≤ n ∧ n ≤ 0xdbff) (h' : HexUnit u m r) (hm : 0xdc00 ≤ m ∧ m ≤ 0xdfff) :
    unicodeEscape? t =
      some (Char.ofNat (0x10000 + (n - 0xd800) * 0x400 + (m - 0xdc00)), r) := by
  have hhigh : 0xd800 ≤ n ∧ n < 0xdc00 := by omega
  have hlow : 0xdc00 ≤ m ∧ m < 0xe000 := by omega
  simp only [unicodeEscape?, h.unit?, h'.unit?, if_pos hhigh, if_pos hlow]

theorem stringBody_of_character {c : Char} {t u s r : List Char} (hc : Character t c u)
    (h : stringBody u = some (s, r)) : stringBody t = some (c :: s, r) := by
  have hunicode {v : List Char} (hv : unicodeEscape? v = some (c, u)) :
      stringBody ('\\' :: 'u' :: v) = some (c :: s, r) := by
    rw [stringBody]
    split
    case h_1 hnone => cases hv.symm.trans hnone
    case h_2 hsome =>
      cases hv.symm.trans hsome
      rw [h]
      rfl
  cases hc with
  | plain hlow hquote hback =>
    rw [stringBody, if_neg hback, h]
    · rfl
    · simp [hquote]
    · simp [hback]
    · simp [hback]
  | short he =>
    rw [stringBody, shortEscape?_of_mem he, h]
    · rfl
    · rintro rfl
      simp [shortEscapes] at he
  | unit hu hn => exact hunicode (unicodeEscape?_unit hu hn)
  | pair hu hn hu' hm => exact hunicode (unicodeEscape?_pair hu hn hu' hm)

theorem Body.stringBody {t s r : List Char} (h : Body t s r) :
    Json.stringBody t = some (s, r) := by
  induction h with
  | close => rw [Json.stringBody]
  | cons hc _ ih => exact stringBody_of_character hc ih

/-! ## Tokens -/

/-- The machine in a state with the tokens of a text still to come. -/
def run (t : List Char) (e : Expect) (fs : List Frame) : Option Json :=
  (tokens t).bind fun ts => gather ts e fs

theorem read?_eq_run (t : List Char) : read? t = run t .value [] := by
  unfold read? run
  cases tokens t <;> rfl

variable {t r : List Char} {e : Expect} {fs : List Frame} {tok : Token}

theorem run_of_tokens (h : tokens t = (tokens r).map (tok :: ·)) :
    run t e fs = (stepOrClose tok e fs).bind fun p => run r p.1 p.2 := by
  unfold run
  rw [h]
  cases tokens r with
  | none => cases stepOrClose tok e fs <;> rfl
  | some ts =>
    simp only [Option.map_some, Option.bind_some, gather]
    cases stepOrClose tok e fs <;> rfl

theorem run_blanks {u : List Char} (h : Blanks t u) : run t e fs = run u e fs := by
  induction h with
  | nil => rfl
  | @cons c t u hc _ ih =>
    have hspace : isSpace c = true := by simpa [isSpace, or_assoc] using hc
    have htokens : tokens (c :: t) = tokens t := by rw [tokens, if_pos hspace]
    rw [← ih, run, run, htokens]

theorem tokens_mark {c : Char} (h : mark? c = some tok) :
    tokens (c :: r) = (tokens r).map (tok :: ·) := by
  have hspace : isSpace c = false := by
    unfold mark? at h
    split at h <;> first | rfl | cases h
  have hquote : c ≠ '"' := by
    rintro rfl
    cases h
  rw [tokens, hspace, if_neg (by decide), if_neg hquote, h]

theorem tokens_string {s : List Char} (h : Body t s r) :
    tokens ('"' :: t) = (tokens r).map (.scalar (.string s) :: ·) := by
  rw [tokens, if_neg (by decide), if_pos rfl]
  split
  case h_1 hnone => cases h.stringBody.symm.trans hnone
  case h_2 hsome =>
    cases h.stringBody.symm.trans hsome
    rfl

/-- No character of a word is a blank, a quote or a mark. -/
theorem isPlain_apart {c : Char} (h : isPlain c = true) :
    isSpace c = false ∧ c ≠ '"' ∧ mark? c = none := by
  refine ⟨?_, ?_, ?_⟩
  · apply Bool.eq_false_iff.2
    intro hspace
    have hmem : ((c = ' ' ∨ c = '\n') ∨ c = '\r') ∨ c = '\t' := by
      simpa only [isSpace, Bool.or_eq_true, decide_eq_true_eq] using hspace
    obtain ((rfl | rfl) | rfl) | rfl := hmem <;> exact absurd h (by decide)
  · rintro rfl
    exact absurd h (by decide)
  · unfold mark?
    split <;> first | rfl | exact absurd h (by decide)

theorem tokens_word {v : Json} (hplain : t.all isPlain = true) (hne : t ≠ [])
    (hv : plain? t = some v) (hr : ∀ c ∈ r.head?, isPlain c = false) :
    tokens (t ++ r) = (tokens r).map (.scalar v :: ·) := by
  obtain _ | ⟨c, cs⟩ := t
  · exact absurd rfl hne
  obtain ⟨hc, hcs⟩ := List.forall_mem_cons.1 (List.all_eq_true.1 hplain)
  obtain ⟨hspace, hquote, hmark⟩ := isPlain_apart hc
  rw [List.cons_append, tokens, hspace, if_neg (by decide), if_neg hquote, hmark,
    takeWhile_append_stop hcs hr, dropWhile_append_stop hcs hr]
  simp only [hc, if_true, hv]

/-! ## Values -/

/-- No word goes on into the rest of a text. -/
def Delimited (r : List Char) : Prop := ∀ c ∈ r.head?, isPlain c = false

theorem delimited_cons {c : Char} (h : isPlain c = false) : Delimited (c :: r) := by
  intro d hd
  exact Option.some.inj hd ▸ h

theorem Blanks.delimited (h : Blanks t r) (hr : Delimited r) : Delimited t := by
  cases h with
  | nil => exact hr
  | cons hc _ =>
    have hall : [' ', '\n', '\r', '\t'].all (fun c => !isPlain c) = true := by decide
    exact delimited_cons (Bool.not_eq_true' _ ▸ List.all_eq_true.1 hall _ hc)

inductive TakesValue : Expect → Prop
  | value : TakesValue .value
  | item : TakesValue .itemOrClose

inductive TakesKey : Expect → Prop
  | key : TakesKey .key
  | keyOrClose : TakesKey .keyOrClose

theorem run_mark {c : Char} (h : Blanks t (c :: r)) (hc : mark? c = some tok) :
    run t e fs = (stepOrClose tok e fs).bind fun p => run r p.1 p.2 := by
  rw [run_blanks h]
  exact run_of_tokens (tokens_mark hc)

theorem run_word {v : Json} (hplain : t.all isPlain = true) (hne : t ≠ [])
    (hv : plain? t = some v) (hr : Delimited r) (he : TakesValue e) :
    run (t ++ r) e fs = (give v fs).bind fun p => run r p.1 p.2 := by
  rw [run_of_tokens (tokens_word hplain hne hv hr)]
  cases he <;> rfl

theorem run_string {s : List Char} (h : Body t s r) (he : TakesValue e) :
    run ('"' :: t) e fs = (give (.string s) fs).bind fun p => run r p.1 p.2 := by
  rw [run_of_tokens (tokens_string h)]
  cases he <;> rfl

theorem run_name {k : List Char} {done : List (List Char × Json)} (h : Name t k r)
    (he : TakesKey e) :
    run t e (.object done :: fs) = run r .value (.field done k :: fs) := by
  obtain ⟨hfront, hname, hcolon, hback⟩ := h
  rw [run_blanks hfront, run_of_tokens (tokens_string hname)]
  have hstep : stepOrClose (.scalar (.string k)) e (.object done :: fs) =
      some (.colon k, .object done :: fs) := by cases he <;> rfl
  rw [hstep, Option.bind_some, run_mark hcolon rfl, ← run_blanks hback]
  rfl

theorem run_list (he : TakesValue e) :
    run ('[' :: t) e fs = run t .itemOrClose (.list [] :: fs) := by
  rw [run_mark .nil rfl]
  cases he <;> rfl

theorem run_object (he : TakesValue e) :
    run ('\x7b' :: t) e fs = run t .keyOrClose (.object [] :: fs) := by
  rw [run_mark .nil rfl]
  cases he <;> rfl

/-- The machine goes through a value as through one token. The inside of a list or an object adds
to what is there and closes it. -/
def Form.Passes (t r : List Char) : Form → Prop
  | .value v => Delimited r → ∀ e fs, TakesValue e →
    run t e fs = (give v fs).bind fun p => run r p.1 p.2
  | .items vs => ∀ e fs done, TakesValue e →
    run t e (.list done :: fs) =
      (give (.list (done.reverse ++ vs)) fs).bind fun p => run r p.1 p.2
  | .fields xs => ∀ e fs done, TakesKey e →
    run t e (.object done :: fs) =
      (give (.object (done.reverse ++ xs)) fs).bind fun p => run r p.1 p.2

theorem Spells.passes {x : Form} (h : Spells t x r) : x.Passes t r := by
  induction h with
  | null =>
    intro hr e fs he
    exact run_word (by decide) (by decide) (if_pos rfl) hr he
  | true =>
    intro hr e fs he
    exact run_word (by decide) (by decide) ((if_neg (by decide)).trans (if_pos rfl)) hr he
  | false =>
    intro hr e fs he
    exact run_word (by decide) (by decide)
      ((if_neg (by decide)).trans ((if_neg (by decide)).trans (if_pos rfl))) hr he
  | number h =>
    intro hr e fs he
    have hplain := List.all_eq_true.2 fun c hc => isPlain_of_isNumeric (h.numeric c hc)
    exact run_word hplain h.ne_nil h.plain? hr he
  | string h =>
    intro _ e fs he
    exact run_string h he
  | emptyList h =>
    intro _ e fs he
    rw [run_list he, run_mark h rfl]
    rfl
  | list _ ih =>
    intro _ e fs he
    rw [run_list he, ih _ _ _ .item]
    rfl
  | emptyObject h =>
    intro _ e fs he
    rw [run_object he, run_mark h rfl]
    rfl
  | object _ ih =>
    intro _ e fs he
    rw [run_object he, ih _ _ _ .keyOrClose]
    rfl
  | @lastItem v t u w r hfront _ hback ih =>
    intro e fs done he
    have hw : Delimited w := hback.delimited (delimited_cons (by decide))
    rw [run_blanks hfront, ih hw e _ he, give, Option.bind_some, run_mark hback rfl,
      ← List.reverse_cons]
    rfl
  | @item v vs t u w x r hfront _ hback _ ih ihrest =>
    intro e fs done he
    have hw : Delimited w := hback.delimited (delimited_cons (by decide))
    rw [run_blanks hfront, ih hw e _ he, give, Option.bind_some, run_mark hback rfl]
    exact (ihrest _ _ _ .value).trans (by rw [List.reverse_cons, List.append_assoc]; rfl)
  | @lastField v t k u w r hname _ hback ih =>
    intro e fs done he
    have hw : Delimited w := hback.delimited (delimited_cons (by decide))
    rw [run_name hname he, ih hw _ _ .value, give, Option.bind_some, run_mark hback rfl,
      ← List.reverse_cons]
    rfl
  | @field v xs t k u w x r hname _ hback _ ih ihrest =>
    intro e fs done he
    have hw : Delimited w := hback.delimited (delimited_cons (by decide))
    rw [run_name hname he, ih hw _ _ .value, give, Option.bind_some, run_mark hback rfl]
    exact (ihrest _ _ _ .key).trans (by rw [List.reverse_cons, List.append_assoc]; rfl)

/-- The reader finds what a text stands for. -/
theorem Denotes.read? {v : Json} (h : Denotes t v) : Json.read? t = some v := by
  obtain ⟨hfront, h, hback⟩ := h
  have hend := hback.delimited (by nofun)
  rw [read?_eq_run, run_blanks hfront, h.passes hend _ _ .value, give, Option.bind_some,
    run_blanks hback, run, tokens]
  rfl

/-- A text stands for at most one value. -/
theorem Denotes.unique {v w : Json} (h : Denotes t v) (h' : Denotes t w) : v = w :=
  Option.some.inj (h.read?.symm.trans h'.read?)

end PartScan.Json
