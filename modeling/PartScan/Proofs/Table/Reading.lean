import PartScan.Proofs.Json.Numeral
import PartScan.Proofs.Text.Lines
import PartScan.Proofs.Text.Quoted
import PartScan.Table

/-! # Reading tables

Each part stands on a line of its own, and its columns can be told apart: numbers and kinds hold no
spaces, and a quoted text says itself where it ends. So a table can be read back, and no text of a
part adds a line.
-/

namespace PartScan

open Number Text

/-! ## Columns -/

/-- The text up to the next space, behind the spaces in front of it, and what follows. -/
def column (cs : List Char) : List Char × List Char :=
  let front := cs.dropWhile (· = ' ')
  (front.takeWhile (· ≠ ' '), front.dropWhile (· ≠ ' '))

/-- The integer that a minus sign and digits stand for. -/
def intOfText : List Char → Int
  | '-' :: digits => -(natOfDigits digits : Int)
  | digits => natOfDigits digits

/-- The two numbers of a text such as `3,17)`, which may be followed by anything. -/
def offsets (cs : List Char) : Int × Int :=
  (intOfText (cs.takeWhile (· ≠ ',')),
    intOfText (((cs.dropWhile (· ≠ ',')).drop 1).takeWhile (· ≠ ')')))

/-- The part on a line of a table. -/
def readRow? (line : List Char) : Option Part :=
  let (label, rest) := column (column line).2
  match PartKind.ofLabel? label, unquote? (rest.dropWhile (· = ' ')) with
  | some kind, some (text, rest) =>
    let (start, stop) := offsets (rest.drop 3)
    some ⟨kind, start, stop, text⟩
  | _, _ => none

/-- The parts of a table, whose first print is that of the expression. -/
def readTable? (expression table : List Char) : Option (List Part) :=
  ((splitOn '\n' (table.drop (expression.length + 1))).dropLast).mapM readRow?

/-- The line of a part without its end. -/
def rowLine (i : Nat) (p : Part) : List Char :=
  padLeft 3 (natText i) ++ (' ' :: ' ' :: (padRight 14 p.kind.label ++ (' ' ::
    (padLeft 20 (quoted p.text) ++ (' ' :: ' ' :: '[' :: (intText p.start ++
      ',' :: (intText p.stop ++ [')'])))))))

def rowLines (i : Nat) : List Part → List (List Char)
  | [] => []
  | p :: rest => rowLine i p :: rowLines (i + 1) rest

variable {i : Nat} {d : Char} {spaces t r : List Char}

theorem rowText_eq (i : Nat) (p : Part) : rowText i p = rowLine i p ++ ['\n'] := by
  simp [rowText, rowLine]

theorem rowsText_eq (i : Nat) (ps : List Part) : rowsText i ps = terminated (rowLines i ps) := by
  induction ps generalizing i with
  | nil => rfl
  | cons p ps ih => rw [rowsText, ih, rowText_eq]; rfl

theorem length_rowLines (i : Nat) (ps : List Part) : (rowLines i ps).length = ps.length := by
  induction ps generalizing i with
  | nil => rfl
  | cons p ps ih => rw [rowLines, List.length_cons, ih, List.length_cons]

/-! ## Integers -/

theorem mem_intText {n : Int} {c : Char} (h : c ∈ intText n) : c = '-' ∨ isAsciiDigit c = true := by
  cases n with
  | ofNat n => exact .inr (Json.isAsciiDigit_of_mem_natText h)
  | negSucc n =>
    rcases List.mem_cons.1 h with rfl | h
    · exact .inl rfl
    · exact .inr (Json.isAsciiDigit_of_mem_natText h)

theorem not_mem_intText {c : Char} (hc : c ≠ '-' ∧ isAsciiDigit c = false) (n : Int) :
    c ∉ intText n := fun h => by
  obtain rfl | hdigit := mem_intText h
  · exact hc.1 rfl
  · rw [hc.2] at hdigit
    cases hdigit

theorem intOfText_intText (n : Int) : intOfText (intText n) = n := by
  cases n with
  | ofNat n =>
    have hplain : intOfText (natText n) = natOfDigits (natText n) := by
      unfold intOfText
      split
      · rename_i digits h
        -- no digit is a minus sign
        have hminus := Json.isAsciiDigit_of_mem_natText (h ▸ List.mem_cons_self)
        exact absurd hminus (by decide)
      · rfl
    exact hplain.trans (congrArg Int.ofNat (Json.natOfDigits_natText n))
  | negSucc n =>
    show -(natOfDigits (natText (n + 1)) : Int) = _
    rw [Json.natOfDigits_natText]
    rfl

/-! ## Rows -/

theorem dropWhile_spaces (hs : ∀ c ∈ spaces, c = ' ') (hr : ∀ c ∈ r.head?, c ≠ ' ') :
    (spaces ++ r).dropWhile (· = ' ') = r :=
  Json.dropWhile_append_stop (fun c hc => decide_eq_true (hs c hc))
    fun c hc => decide_eq_false (hr c hc)

theorem takeWhile_ne (ht : d ∉ t) (hr : ∀ c ∈ r.head?, c = d) :
    (t ++ r).takeWhile (· ≠ d) = t :=
  Json.takeWhile_append_stop (fun _ hc => decide_eq_true (ne_of_mem_of_not_mem hc ht))
    fun c hc => decide_eq_false (not_not.2 (hr c hc))

theorem dropWhile_ne (ht : d ∉ t) (hr : ∀ c ∈ r.head?, c = d) :
    (t ++ r).dropWhile (· ≠ d) = r :=
  Json.dropWhile_append_stop (fun _ hc => decide_eq_true (ne_of_mem_of_not_mem hc ht))
    fun c hc => decide_eq_false (not_not.2 (hr c hc))

theorem column_append (hs : ∀ c ∈ spaces, c = ' ') (ht : ' ' ∉ t) (hne : t ≠ [])
    (hr : ∀ c ∈ r.head?, c = ' ') : column (spaces ++ (t ++ r)) = (t, r) := by
  have hfront : (spaces ++ (t ++ r)).dropWhile (· = ' ') = t ++ r := by
    refine dropWhile_spaces hs fun c hc => ?_
    rw [List.head?_append_of_ne_nil _ hne] at hc
    exact ne_of_mem_of_not_mem (List.mem_of_mem_head? hc) ht
  rw [column, hfront, takeWhile_ne ht hr, dropWhile_ne ht hr]

theorem column_number (i : Nat) (r : List Char) :
    column (padLeft 3 (natText i) ++ (' ' :: r)) = (natText i, ' ' :: r) := by
  rw [padLeft, List.append_assoc]
  exact column_append (fun c => List.eq_of_mem_replicate) (not_mem_intText (by decide) i)
    (Json.whole_natText i).ne_nil (by simp)

theorem column_label (kind : PartKind) (r : List Char) :
    column (' ' :: ' ' :: (padRight 14 kind.label ++ (' ' :: r))) =
      (kind.label, List.replicate (14 - kind.label.length) ' ' ++ (' ' :: r)) := by
  have hlabel : ' ' ∉ kind.label ∧ kind.label ≠ [] := by cases kind <;> decide
  have hspaces : ∀ c ∈ [' ', ' '], c = ' ' := by simp
  rw [padRight, List.append_assoc]
  refine column_append hspaces hlabel.1 hlabel.2 fun c hc => ?_
  rw [List.head?_append, List.head?_replicate] at hc
  split at hc <;> simpa using hc.symm

theorem dropWhile_padLeft_quoted (n width : Nat) (s r : List Char) :
    (List.replicate n ' ' ++ (' ' :: (padLeft width (quoted s) ++ r))).dropWhile (· = ' ') =
      quoted s ++ r := by
  have hspaces (n : Nat) : ∀ c ∈ List.replicate n ' ', c = ' ' :=
    fun c => List.eq_of_mem_replicate
  have hquote : delimiter s ≠ ' ' := by
    obtain h | h := delimiter_eq s <;> rw [h] <;> decide
  -- the spaces behind the kind and those in front of the text are one run, and the quote ends it
  have hsplit : List.replicate n ' ' ++ (' ' :: (padLeft width (quoted s) ++ r)) =
      (List.replicate n ' ' ++ ' ' :: List.replicate (width - (quoted s).length) ' ') ++
        (quoted s ++ r) := by
    simp only [padLeft, List.append_assoc, List.cons_append]
  rw [hsplit]
  refine dropWhile_spaces (List.forall_mem_append.2
    ⟨hspaces n, List.forall_mem_cons.2 ⟨rfl, hspaces _⟩⟩) fun c hc => ?_
  obtain rfl : delimiter s = c := Option.some.inj hc
  exact hquote

theorem offsets_text (start stop : Int) (r : List Char) :
    offsets (intText start ++ ',' :: (intText stop ++ ')' :: r)) = (start, stop) := by
  have hcomma : ',' ∉ intText start := not_mem_intText (by decide) start
  have hclose : ')' ∉ intText stop := not_mem_intText (by decide) stop
  rw [offsets, takeWhile_ne hcomma (by simp), dropWhile_ne hcomma (by simp), List.drop_one,
    List.tail_cons, takeWhile_ne hclose (by simp), intOfText_intText, intOfText_intText]

theorem readRow?_rowLine (i : Nat) (p : Part) : readRow? (rowLine i p) = some p := by
  simp only [readRow?, rowLine, column_number, column_label, PartKind.ofLabel?_label,
    dropWhile_padLeft_quoted, unquote?_quoted, List.drop_succ_cons, List.drop_zero, offsets_text]

theorem mapM_readRow?_rowLines (i : Nat) (ps : List Part) :
    (rowLines i ps).mapM readRow? = some ps := by
  induction ps generalizing i with
  | nil => rfl
  | cons p ps ih =>
    rw [rowLines, List.mapM_cons, readRow?_rowLine, ih]
    rfl

/-! ## Lines -/

theorem visible_replicate (n : Nat) : Visible (List.replicate n ' ') := fun c hc => by
  rw [List.eq_of_mem_replicate hc]
  decide

theorem visible_rowLine (i : Nat) (p : Part) : Visible (rowLine i p) := by
  have hspace : isPrintable ' ' = true := by decide
  have hnumber (n : Int) : Visible (intText n) := visible_of_printable (Json.printable_intText n)
  have hlabel : Visible p.kind.label := by cases p.kind <;> decide
  have hoffsets : Visible (intText p.start ++ ',' :: (intText p.stop ++ [')'])) :=
    visible_append (hnumber _) (visible_cons (by decide)
      (visible_append (hnumber _) (visible_cons (by decide) nofun)))
  have htext : Visible (padLeft 20 (quoted p.text)) :=
    visible_append (visible_replicate _) (visible_quoted _)
  refine visible_append (visible_append (visible_replicate _) (hnumber i)) ?_
  refine visible_cons hspace (visible_cons hspace ?_)
  refine visible_append (visible_append hlabel (visible_replicate _)) (visible_cons hspace ?_)
  exact visible_append htext
    (visible_cons hspace (visible_cons hspace (visible_cons (by decide) hoffsets)))

theorem visible_of_mem_rowLines {line : List Char} {ps : List Part} (h : line ∈ rowLines i ps) :
    Visible line := by
  induction ps generalizing i with
  | nil => cases h
  | cons p ps ih =>
    rcases List.mem_cons.1 h with rfl | h
    · exact visible_rowLine i p
    · exact ih h

theorem readTable?_tableText (expression : List Char) (ps : List Part) :
    readTable? expression (tableText expression ps) = some ps := by
  have hlines : ∀ line ∈ rowLines 0 ps, '\n' ∉ line := fun line hline hbreak =>
    absurd (visible_of_mem_rowLines hline '\n' hbreak) (by decide)
  have hrows : (tableText expression ps).drop (expression.length + 1) = rowsText 0 ps := by
    rw [tableText, List.drop_append, List.drop_of_length_le (Nat.le_succ _)]
    simp
  rw [readTable?, hrows, rowsText_eq, splitOn_terminated hlines, List.dropLast_concat,
    mapM_readRow?_rowLines]

/-- The characters at which a line may end. -/
def lineBreaks : List Char :=
  ['\n', '\x0b', '\x0c', '\r', '\x1c', '\x1d', '\x1e', '\x85', '\u2028', '\u2029']

/-- The number of line breaks in a text. -/
def breakCount (t : List Char) : Nat := t.countP (· ∈ lineBreaks)

/-- A test for characters that do not show sees the ends of the rows and nothing else in them. -/
theorem countP_tableText {hidden : Char → Bool} (h : ∀ c, isPrintable c = true → hidden c = false)
    (expression : List Char) (ps : List Part) :
    (tableText expression ps).countP hidden =
      (expression ++ ['\n']).countP hidden + ps.length * ['\n'].countP hidden := by
  have hline (line : List Char) (hline : line ∈ rowLines 0 ps) : line.countP hidden = 0 :=
    List.countP_eq_zero.2 fun c hc => by simp [h c (visible_of_mem_rowLines hline c hc)]
  rw [tableText, ← List.singleton_append, ← List.append_assoc, List.countP_append, rowsText_eq,
    countP_terminated hline, length_rowLines]

/-- A table loses nothing: its parts are read back from it, so tables of different parts differ. It
holds one line break for each part beyond those of its first print, and no other character that
does not show by itself beyond those of the expression. -/
theorem table_faithful (expression : List Char) :
    (∀ ps, readTable? expression (tableText expression ps) = some ps) ∧
      (∀ ps qs, tableText expression ps = tableText expression qs → ps = qs) ∧
      ∀ ps, (tableText expression ps).count '\n' =
          (expression ++ ['\n']).count '\n' + ps.length ∧
        breakCount (tableText expression ps) = breakCount (expression ++ ['\n']) + ps.length ∧
        ∀ c, isPrintable c = false → c ≠ '\n' →
          (tableText expression ps).count c = expression.count c := by
  have hcount (c : Char) (hc : isPrintable c = false) (ps : List Part) :
      (tableText expression ps).count c =
        (expression ++ ['\n']).count c + ps.length * ['\n'].count c := by
    refine countP_tableText (fun d hd => beq_eq_false_iff_ne.2 ?_) expression ps
    rintro rfl
    rw [hc] at hd
    cases hd
  have hhidden : lineBreaks.all (fun c => !isPrintable c) = true := by decide +kernel
  have hbreaks : ∀ c, isPrintable c = true → decide (c ∈ lineBreaks) = false := fun c hc =>
    decide_eq_false fun hmem => by simpa [hc] using List.all_eq_true.1 hhidden c hmem
  refine ⟨readTable?_tableText expression, fun ps qs h => ?_,
    fun ps => ⟨?_, ?_, fun c hc hne => ?_⟩⟩
  · have hread := congrArg (readTable? expression) h
    rw [readTable?_tableText, readTable?_tableText] at hread
    exact Option.some.inj hread
  · rw [hcount _ (by decide) ps]
    exact congrArg _ (Nat.mul_one _)
  · rw [breakCount, countP_tableText hbreaks]
    exact congrArg _ (Nat.mul_one _)
  · rw [hcount c hc ps, List.count_append, List.count_singleton, beq_eq_false_iff_ne.2 hne.symm]
    rfl

theorem table_faithful_quotes :
    let expression := "f(\n".toList
    let p : Part := ⟨.var, -3, 1234, "it's  [0,1)\n\"x\"\\".toList⟩
    let q : Part := ⟨.var, -3, 1234, "it's  [0,1)\u2028\"x\"\\".toList⟩
    let table := tableText expression [p, q]
    readTable? expression table = some [p, q] ∧
      tableText expression [p] ≠ tableText expression [q] ∧
      table.count '\n' = 4 ∧ breakCount table = 4 ∧ table.count '\u2028' = 0 := by
  intro expression p q table
  obtain ⟨hread, hinj, hbreaks⟩ := table_faithful expression
  obtain ⟨hfeeds, hcount, hhidden⟩ := hbreaks [p, q]
  exact ⟨hread [p, q], fun h => absurd (hinj [p] [q] h) (by decide), hfeeds, hcount,
    hhidden '\u2028' (by decide +kernel) (by decide)⟩

end PartScan
