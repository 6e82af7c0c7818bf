import PartScan.Number.Percent
import PartScan.Rules
import PartScan.Scan.Fault
import PartScan.Total
import PartScan.Word

/-! # Resumable scans

A scan reads an expression from left to right and stops at a suspension point after every step of
every level. The text of each parenthesized group is a level of its own; a group is one step of the
level around it, after the steps of its inside. A suspended scan is the stack of its levels.
-/

namespace PartScan

open Number

/-- One level of a scan: the text between two parentheses, or the whole expression. The offset of
the text's first character is `base`; `index` counts the characters already read or left to a
group, and `step` is where the latest step began. -/
structure Level where
  base : Nat
  text : List Char
  index : Nat := 0
  step : Nat := 0
  word : List Char := []
  parts : List Part := []
  deriving DecidableEq, Repr

namespace Level

def remaining (l : Level) : List Char := l.text.drop l.index

/-- The offset of the next character in the whole expression. -/
def offset (l : Level) : Nat := l.base + l.index

/-- End the word in progress, if there is one, as a value. -/
def endWord (quote : Char) (l : Level) : Level :=
  if l.word = [] then l
  else { l with word := [], parts := l.parts ++ [.ofWord [quote] l.word l.offset] }

/-- End the word in progress, if there is one, as the name in front of a group. -/
def endCall (l : Level) : Level :=
  if l.word = [] then l
  else { l with word := [], parts := l.parts ++ [.ofCall l.word l.offset] }

def read (c : Char) (l : Level) : Level :=
  { l with word := l.word ++ [c], step := l.index, index := l.index + 1 }

/-- Read a character that belongs to no word. -/
def skip (quote : Char) (l : Level) : Level :=
  { l.endWord quote with step := l.index, index := l.index + 1 }

/-- The text of the group whose partner stands `k` characters after its parenthesis. -/
def group (l : Level) (k : Nat) : Level :=
  { base := l.offset + 1, text := (l.remaining.drop 1).take (k - 1) }

/-- Leave a group to a level of its own and go on behind it. -/
def passGroup (l : Level) (k : Nat) : Level :=
  { l.endCall with step := l.index, index := l.index + k + 1 }

/-- Take over the parts of the group that has ended. -/
def takeParts (l : Level) (ps : List Part) : Level := { l with parts := l.parts ++ ps }

/-- The steps that a level can still take, with one for its end. -/
def size (l : Level) : Nat := l.remaining.length + 1

@[simp] theorem size_endWord (q : Char) (l : Level) : (l.endWord q).size = l.size := by
  unfold endWord; split <;> rfl

@[simp] theorem size_takeParts (l : Level) (ps : List Part) : (l.takeParts ps).size = l.size := rfl

end Level

/-- What a scan reports while it runs. -/
inductive Notice where
  | started
  | progress (percent : Decimal)
  | ended (count : Nat)
  deriving DecidableEq, Repr

/-- Where the steps up to the next suspension point lead. -/
inductive Advance where
  | suspended (inner : Level) (outer : List Level)
  | finished (parts : List Part)
  | failed (fault : Fault)
  deriving DecidableEq, Repr

/-- Take the steps up to the next suspension point. Opening parentheses are entered one after the
other without a pause; then one character is read, or the innermost level ends. -/
def advance (rules : Rules) (expression : List Char) (inner : Level) (outer : List Level) :
    Advance :=
  match _h : inner.remaining with
  | [] =>
    let parts := (inner.endWord rules.quote).parts
    match outer with
    | [] => .finished parts
    | level :: rest => .suspended (level.takeParts parts) rest
  | c :: _ =>
    if c = '(' then
      match rules.pairing.closing inner.remaining with
      | none => .failed (.unclosed expression (some inner.offset) none)
      | some k =>
        if outer.length + 1 > rules.maxDepth then
          .failed (.tooDeep expression inner.offset rules.maxDepth)
        else advance rules expression (inner.group k) (inner.passGroup k :: outer)
    else if isWordChar rules.quote c then .suspended (inner.read c) outer
    else .suspended (inner.skip rules.quote) outer
termination_by inner.remaining.length
decreasing_by
  simp only [Level.group, Level.remaining] at _h ⊢
  simp only [_h, List.drop_zero, List.length_take, List.length_drop, List.length_cons]
  omega

/-- A scan of an expression: not begun, or suspended after a step. -/
inductive Scan where
  | ready (rules : Rules) (expression : List Char)
  | suspended (rules : Rules) (expression : List Char) (inner : Level) (outer : List Level)
  deriving DecidableEq, Repr

abbrev Outcome := Except Fault (List Part)

/-- Where a resumption leads. -/
inductive Next where
  | suspended (scan : Scan)
  | finished (outcome : Outcome)

namespace Scan

/-- Carry the result of some steps over to the scan; a success reports the last percentage. -/
def settle (rules : Rules) (expression : List Char) : Advance → List Notice × Next
  | .suspended inner outer => ([], .suspended (.suspended rules expression inner outer))
  | .failed fault => ([], .finished (.error fault))
  | .finished parts =>
    ([.progress (percentOf expression.length expression.length), .ended parts.length],
      .finished (.ok parts))

/-- Resume a scan until its next suspension point or its end, with its reports on the way. Only
steps of the whole expression's level are reported, each after the pause that follows it. -/
def resume : Scan → List Notice × Next
  | .ready rules expression =>
    if expression = [] then
      ([.started, .progress (percentOf 0 0)], .finished (.ok []))
    else
      let (notices, next) := settle rules expression
        (advance rules expression { base := 0, text := expression } [])
      (.started :: .progress (percentOf 0 expression.length) :: notices, next)
  | .suspended rules expression inner outer =>
    let step := if outer = [] then [.progress (percentOf inner.step expression.length)] else []
    let (notices, next) := settle rules expression (advance rules expression inner outer)
    (step ++ notices, next)

/-- A bound on the resumptions that a scan still needs. -/
def size : Scan → Nat
  | .ready _ expression => expression.length + 2
  | .suspended _ _ inner outer => inner.size + total Level.size outer

end Scan

end PartScan
