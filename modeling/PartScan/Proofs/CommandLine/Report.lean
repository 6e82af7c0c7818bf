import PartScan.CommandLine.Session
import PartScan.Proofs.Scheduler.Extract

/-! # Reports of several expressions

Where delays let no time pass, what a report shows of an expression does not depend on the
expressions before it, though all of them share one scheduler: a report of two lists is that of the
first and then that of the second. A report of variables shows what a report of all parts shows,
with the variables only.
-/

namespace PartScan.CommandLine

def Output.isLog : Output → Bool
  | .log _ => true
  | _ => false

/-- What a report shows, its log lines aside. -/
def shown (out : List Output) : List Output := out.filter fun o => !o.isLog

/-- The text of a report for the standard output. -/
def printedText (out : List Output) : List Char := out.flatMap Output.printed

/-- The text of a report for the error output, its log lines aside. -/
def errorText (o : Options) (out : List Output) : List Char := (shown out).flatMap (Output.errors o)

/-- The outcome of which an expression is reported: its parts, or the variables among them. -/
def Mode.outcome (mode : Mode) (rules : Rules) (e : List Char) : Outcome :=
  if mode.onlyVariables then variableParts rules e else tokenize rules e

/-- The report of each expression. -/
def reportEach (mode : Mode) (id : Nat → List Char) (s : Scheduler) :
    List (List Char) → List (List Output)
  | [] => []
  | e :: rest => (reportOne mode id s e).2 :: reportEach mode id (reportOne mode id s e).1 rest

section Shown

variable {out : List Output} {rules : Rules} {e : List Char}

theorem shown_append (out out' : List Output) : shown (out ++ out') = shown out ++ shown out' :=
  List.filter_append ..

theorem shown_logs (lines : List LogLine) : shown (lines.map .log) = [] := by
  simp [shown, Output.isLog]

theorem shown_outcomeOutput (json : Bool) (e : List Char) (o : Outcome) :
    shown (outcomeOutput json e (some o)) = outcomeOutput json e (some o) := by
  cases o <;> rfl

theorem any_isComplaint_outcomeOutput (json : Bool) (e : List Char) (o : Outcome) :
    (outcomeOutput json e (some o)).any Output.isComplaint = true ↔ ∃ f, o = .error f := by
  cases o <;> simp [outcomeOutput, Output.isComplaint]

theorem printedText_append (out out' : List Output) :
    printedText (out ++ out') = printedText out ++ printedText out' := List.flatMap_append

theorem printedText_shown (out : List Output) : printedText (shown out) = printedText out := by
  induction out with
  | nil => rfl
  | cons o out ih =>
    cases o with
    | log line => exact ih
    | _ => exact congrArg (_ ++ ·) ih

theorem statusOf_shown (out : List Output) : statusOf (shown out) = statusOf out := by
  have hany : (shown out).any Output.isComplaint = out.any Output.isComplaint := by
    induction out with
    | nil => rfl
    | cons o out ih =>
      cases o with
      | log line => exact ih
      | _ => exact congrArg (_ || ·) ih
  rw [statusOf, statusOf, hany]

theorem statusOf_eq_one : statusOf out = 1 ↔ out.any Output.isComplaint = true := by
  unfold statusOf
  split <;> simp_all

theorem Mode.outcome_eq_error (mode : Mode) {f : Fault} :
    mode.outcome rules e = .error f ↔ tokenize rules e = .error f := by
  rw [Mode.outcome, variableParts]
  cases tokenize rules e <;> cases mode.onlyVariables <;> simp [Except.map]

end Shown

section Calm

variable {settings : Settings} {s : Scheduler} {mode : Mode} {id : Nat → List Char}
  {e : List Char}

/-- Delays let no time pass. -/
structure Instant (settings : Settings) : Prop where
  due : settings.dueTime.isPositive = false
  step : settings.stepDelay.isPositive = false

/-- A scheduler whose sink accepts every event and that has made a run without cancellations. -/
def Calm (settings : Settings) (s : Scheduler) : Prop :=
  ∃ ms, (∀ m ∈ ms, Move.cancels m = false) ∧ s = Scheduler.after settings default ms

theorem calm_initial (settings : Settings) : Calm settings { settings, sink := default } :=
  ⟨[], by simp, rfl⟩

theorem Calm.settings_eq (h : Calm settings s) : s.settings = settings := by
  obtain ⟨ms, -, rfl⟩ := h
  exact Scheduler.settings_after settings default ms

theorem extractLogged_eq (id : Nat → List Char) {t : Scheduler} {o : Outcome}
    (h : s.extract e = (t, some (.result (.ofOutcome o)))) :
    (extractLogged id s e).1 = t ∧ (extractLogged id s e).2.2 = some o := by
  rw [extractLogged, h]
  cases o <;> exact ⟨rfl, rfl⟩

/-- The report of an expression shows its outcome and leaves a calm scheduler. -/
theorem Calm.reportOne (hi : Instant settings) (h : Calm settings s) (mode : Mode)
    (id : Nat → List Char) (e : List Char) :
    Calm settings (reportOne mode id s e).1 ∧
      shown (reportOne mode id s e).2 =
        outcomeOutput mode.json e (some (mode.outcome settings.rules e)) := by
  cases hmode : mode.onlyVariables with
  | false =>
    have hone : CommandLine.reportOne mode id s e =
        (s, (scanLogged settings.rules e).1.map .log ++
          outcomeOutput mode.json e (some (tokenize settings.rules e))) := by
      rw [CommandLine.reportOne, hmode, h.settings_eq]
      rfl
    rw [hone, Mode.outcome, hmode]
    exact ⟨h, by rw [shown_append, shown_logs, shown_outcomeOutput]; rfl⟩
  | true =>
    have hone : CommandLine.reportOne mode id s e =
        ((extractLogged id s e).1, (extractLogged id s e).2.1.map .log ++
          outcomeOutput mode.json e (extractLogged id s e).2.2) := by
      rw [CommandLine.reportOne, hmode]
      rfl
    obtain ⟨ms, hms, rfl⟩ := h
    have haccepts : ∀ before ev, (default : Sink).refuses before ev = none := fun _ _ => rfl
    obtain ⟨more, hmore, hextract⟩ := Scheduler.extract_after hi.due hi.step haccepts hms e
    obtain ⟨hleft, hout⟩ := extractLogged_eq id hextract
    rw [hone, hleft, hout, Mode.outcome, hmode]
    refine ⟨⟨ms ++ more, ?_, rfl⟩, ?_⟩
    · exact fun m hm => (List.mem_append.1 hm).elim (hms m) (hmore m)
    · rw [shown_append, shown_logs, shown_outcomeOutput]
      rfl

/-- What a report shows of each expression, whatever the others are. -/
theorem Calm.reportEach (hi : Instant settings) (h : Calm settings s) (mode : Mode)
    (id : Nat → List Char) (es : List (List Char)) :
    (reportEach mode id s es).map shown =
      es.map fun e => outcomeOutput mode.json e (some (mode.outcome settings.rules e)) := by
  induction es generalizing s with
  | nil => rfl
  | cons e es ih =>
    obtain ⟨hcalm, hshown⟩ := h.reportOne hi mode id e
    rw [CommandLine.reportEach, List.map_cons, List.map_cons, hshown, ih hcalm]

theorem length_reportEach (mode : Mode) (id : Nat → List Char) (s : Scheduler)
    (es : List (List Char)) : (reportEach mode id s es).length = es.length := by
  induction es generalizing s with
  | nil => rfl
  | cons e es ih => rw [reportEach, List.length_cons, List.length_cons, ih]

theorem flatten_reportEach (mode : Mode) (id : Nat → List Char) (s : Scheduler)
    (es : List (List Char)) : (reportEach mode id s es).flatten = report mode id s es := by
  induction es generalizing s with
  | nil => rfl
  | cons e es ih => rw [reportEach, List.flatten_cons, ih, report]

/-- A report shows the outcomes of its expressions, one after the other. -/
theorem shown_report (hi : Instant settings) (mode : Mode) (id : Nat → List Char)
    (es : List (List Char)) :
    shown (report mode id { settings, sink := default } es) =
      es.flatMap fun e => outcomeOutput mode.json e (some (mode.outcome settings.rules e)) := by
  rw [← flatten_reportEach, shown, List.filter_flatten, List.flatMap,
    ← (calm_initial settings).reportEach hi mode id es]
  rfl

/-- A report has the status one if an expression is refused. -/
theorem statusOf_report (hi : Instant settings) (mode : Mode) (id : Nat → List Char)
    (es : List (List Char)) :
    statusOf (report mode id { settings, sink := default } es) = 1 ↔
      ∃ e ∈ es, ∃ f, tokenize settings.rules e = .error f := by
  rw [← statusOf_shown, shown_report hi, statusOf_eq_one, List.any_flatMap, List.any_eq_true]
  simp only [any_isComplaint_outcomeOutput, Mode.outcome_eq_error]

end Calm

section Composition

variable {settings : Settings}

/-- A report of two lists of expressions is that of the first and then that of the second, on either
output, and has the status one if one of them has. An expression that is refused adds its message
to the errors and nothing to the printed text, and what follows it is reported as ever. -/
theorem report_composes (hi : Instant settings) (mode : Mode) (id : Nat → List Char)
    (o : Options) :
    let out := report mode id { settings, sink := default }
    (∀ xs ys, printedText (out (xs ++ ys)) = printedText (out xs) ++ printedText (out ys) ∧
      errorText o (out (xs ++ ys)) = errorText o (out xs) ++ errorText o (out ys) ∧
      (statusOf (out (xs ++ ys)) = 1 ↔ statusOf (out xs) = 1 ∨ statusOf (out ys) = 1)) ∧
    (∀ xs e ys f, tokenize settings.rules e = .error f →
      printedText (out (xs ++ e :: ys)) = printedText (out xs) ++ printedText (out ys) ∧
      errorText o (out (xs ++ e :: ys)) =
        errorText o (out xs) ++ ("error: ".toList ++ f.message ++ ['\n']) ++
          errorText o (out ys)) ∧
    ∀ xs, statusOf (out xs) = 1 ↔ ∃ e ∈ xs, ∃ f, tokenize settings.rules e = .error f := by
  intro out
  have hshown (xs ys : List (List Char)) :
      shown (out (xs ++ ys)) = shown (out xs) ++ shown (out ys) := by
    rw [shown_report hi, shown_report hi, shown_report hi, List.flatMap_append]
  have hprinted (xs ys : List (List Char)) :
      printedText (out (xs ++ ys)) = printedText (out xs) ++ printedText (out ys) := by
    rw [← printedText_shown, hshown, printedText_append, printedText_shown, printedText_shown]
  have herrors (xs ys : List (List Char)) :
      errorText o (out (xs ++ ys)) = errorText o (out xs) ++ errorText o (out ys) := by
    rw [errorText, hshown, List.flatMap_append]
    rfl
  have hstatus (xs : List (List Char)) :
      statusOf (out xs) = 1 ↔ ∃ e ∈ xs, ∃ f, tokenize settings.rules e = .error f :=
    statusOf_report hi mode id xs
  refine ⟨fun xs ys => ⟨hprinted xs ys, herrors xs ys, ?_⟩, ?_, hstatus⟩
  · simp only [hstatus, List.mem_append, or_and_right, exists_or]
  · intro xs e ys f hf
    have hone : shown (out [e]) = [.complaint f.message] := by
      rw [shown_report hi, List.flatMap_singleton, (Mode.outcome_eq_error mode).2 hf]
      rfl
    constructor
    · rw [List.append_cons, hprinted, hprinted, ← printedText_shown (out [e]), hone]
      exact congrArg (· ++ _) (List.append_nil _)
    · have herror : errorText o (out [e]) = "error: ".toList ++ f.message ++ ['\n'] := by
        rw [errorText, hone]
        exact List.append_nil _
      rw [List.append_cons, herrors, herrors, herror]

theorem report_composes_unclosed :
    let out := report ⟨true, false⟩ Number.natText { settings := default, sink := default }
    Instant default ∧
      tokenize default ['f', '(', 'x'] = .error (.unclosed ['f', '(', 'x'] (some 1) none) ∧
      statusOf (out [['a'], ['f', '(', 'x'], ['b', ' ', 'c']]) = 1 ∧
      printedText (out [['a'], ['f', '(', 'x'], ['b', ' ', 'c']]) =
        printedText (out [['a']]) ++ printedText (out [['b', ' ', 'c']]) ∧
      errorText {} (out [['a'], ['f', '(', 'x'], ['b', ' ', 'c']]) =
        "error: No closing parenthesis for '(' at offset 1 in 'f(x'\n".toList := by
  have hi : Instant default := ⟨rfl, rfl⟩
  have hf : tokenize default ['f', '(', 'x'] = .error (.unclosed ['f', '(', 'x'] (some 1) none) := by
    decide +kernel
  obtain ⟨-, hrefused, hstatus⟩ := report_composes hi ⟨true, false⟩ Number.natText {}
  obtain ⟨hprinted, herror⟩ := hrefused [['a']] _ [['b', ' ', 'c']] _ hf
  refine ⟨hi, hf, (hstatus _).2 ⟨_, by simp, _, hf⟩, hprinted, herror.trans ?_⟩
  decide +kernel

end Composition

section Agreement

variable {settings : Settings} {rules : Rules} {json : Bool} {e : List Char}

/-- What the report of an expression shows with all of its parts, and what it shows with its
variables only: the same complaint, or the parts and the variables among them. -/
inductive Agree (rules : Rules) (json : Bool) (e : List Char) : List Output → List Output → Prop
  | refused {f : Fault} (h : tokenize rules e = .error f) :
      Agree rules json e [.complaint f.message] [.complaint f.message]
  | found {ps : List Part} (h : tokenize rules e = .ok ps) :
      Agree rules json e [.text (partsOutput json e ps)]
        [.text (partsOutput json e (ps.filter fun p => p.kind = .var))]

theorem agree_outcomeOutput (rules : Rules) (json : Bool) (e : List Char) :
    Agree rules json e (outcomeOutput json e (some (tokenize rules e)))
      (outcomeOutput json e (some (variableParts rules e))) := by
  cases h : tokenize rules e with
  | error f =>
    rw [variableParts, h]
    exact .refused h
  | ok ps =>
    rw [variableParts, h]
    exact .found h

theorem Agree.errors {a v : List Output} (h : Agree rules json e a v) (o : Options) :
    a.flatMap (Output.errors o) = v.flatMap (Output.errors o) := by
  cases h <;> rfl

/-- What a report shows of the expression at a place. -/
theorem exists_reportEach (hi : Instant settings) (mode : Mode) (id : Nat → List Char)
    {es : List (List Char)} {i : Nat} (he : es[i]? = some e) :
    ∃ out, (reportEach mode id { settings, sink := default } es)[i]? = some out ∧
      shown out = outcomeOutput mode.json e (some (mode.outcome settings.rules e)) := by
  have hmap := congrArg (·[i]?) ((calm_initial settings).reportEach hi mode id es)
  rw [List.getElem?_map, List.getElem?_map, he] at hmap
  exact Option.map_eq_some_iff.1 hmap

/-- A report of variables, which jobs find, refuses the expressions that a report of all parts
refuses, with the same errors and the same status; of every other expression it shows the variables
among the parts that the latter shows. -/
theorem modes_agree (hi : Instant settings) (json : Bool) (id : Nat → List Char) (o : Options)
    (es : List (List Char)) :
    let s : Scheduler := { settings, sink := default }
    let all := reportEach ⟨false, json⟩ id s es
    let vars := reportEach ⟨true, json⟩ id s es
    all.flatten = report ⟨false, json⟩ id s es ∧ vars.flatten = report ⟨true, json⟩ id s es ∧
      all.length = es.length ∧ vars.length = es.length ∧
      (∀ (i : Nat) e, es[i]? = some e → ∃ a v, all[i]? = some a ∧ vars[i]? = some v ∧
        Agree settings.rules json e (shown a) (shown v)) ∧
      errorText o (report ⟨true, json⟩ id s es) = errorText o (report ⟨false, json⟩ id s es) ∧
      statusOf (report ⟨true, json⟩ id s es) = statusOf (report ⟨false, json⟩ id s es) := by
  intro s all vars
  refine ⟨flatten_reportEach _ _ _ _, flatten_reportEach _ _ _ _, length_reportEach _ _ _ _,
    length_reportEach _ _ _ _, ?_, ?_, ?_⟩
  · intro i e he
    obtain ⟨a, ha, hall⟩ := exists_reportEach hi ⟨false, json⟩ id he
    obtain ⟨v, hv, hvars⟩ := exists_reportEach hi ⟨true, json⟩ id he
    refine ⟨a, v, ha, hv, ?_⟩
    rw [hall, hvars]
    exact agree_outcomeOutput settings.rules json e
  · rw [errorText, errorText, shown_report hi, shown_report hi, List.flatMap_assoc,
      List.flatMap_assoc]
    congr 1
    funext e
    exact ((agree_outcomeOutput settings.rules json e).errors o).symm
  · have hany : (report ⟨true, json⟩ id s es).any Output.isComplaint =
        (report ⟨false, json⟩ id s es).any Output.isComplaint := by
      rw [Bool.eq_iff_iff, ← statusOf_eq_one, ← statusOf_eq_one, statusOf_report hi,
        statusOf_report hi]
    rw [statusOf, statusOf, hany]

/-- Both modes refuse the expression in the middle; the number in front of it is shown by one of
them only. -/
theorem modes_agree_unclosed :
    let s : Scheduler := { settings := default, sink := default }
    let es : List (List Char) := [['1', ' ', 'a'], ['f', '(', 'x'], ['b']]
    Instant default ∧
      (∃ a v, (reportEach ⟨false, true⟩ Number.natText s es)[0]? = some a ∧
        (reportEach ⟨true, true⟩ Number.natText s es)[0]? = some v ∧
        shown a = [.text (partsOutput true ['1', ' ', 'a']
          [⟨.number, 0, 1, ['1']⟩, ⟨.var, 2, 3, ['a']⟩])] ∧
        shown v = [.text (partsOutput true ['1', ' ', 'a'] [⟨.var, 2, 3, ['a']⟩])]) ∧
      (∃ a v, (reportEach ⟨false, true⟩ Number.natText s es)[1]? = some a ∧
        (reportEach ⟨true, true⟩ Number.natText s es)[1]? = some v ∧
        Agree (default : Settings).rules true ['f', '(', 'x'] (shown a) (shown v)) ∧
      errorText {} (report ⟨true, true⟩ Number.natText s es) =
        "error: No closing parenthesis for '(' at offset 1 in 'f(x'\n".toList ∧
      statusOf (report ⟨true, true⟩ Number.natText s es) = 1 := by
  have hi : Instant default := ⟨rfl, rfl⟩
  have hparts : tokenize (default : Settings).rules ['1', ' ', 'a'] =
      .ok [⟨.number, 0, 1, ['1']⟩, ⟨.var, 2, 3, ['a']⟩] := by decide +kernel
  obtain ⟨-, -, -, -, hagree, herrors, hstatus⟩ := modes_agree hi true Number.natText {}
    [['1', ' ', 'a'], ['f', '(', 'x'], ['b']]
  obtain ⟨a, v, ha, hv, hfirst⟩ := hagree 0 _ rfl
  refine ⟨hi, ⟨a, v, ha, hv, ?_⟩, hagree 1 _ rfl, herrors.trans ?_, hstatus.trans ?_⟩
  · generalize shown a = all, shown v = vars at hfirst
    cases hfirst with
    | refused h =>
      rw [hparts] at h
      cases h
    | found h =>
      rw [hparts] at h
      cases h
      exact ⟨rfl, rfl⟩
  · decide +kernel
  · decide +kernel

end Agreement

end PartScan.CommandLine
