import PartScan.Proofs.Scan.Stack

/-! # Scans with every access checked

A step reads a character by its index and builds words with a word buffer. Taken literally, it
could miss the end of a text, read beyond it or build from an empty buffer. No step of a scan does.
-/

namespace PartScan

/-- Why a step cannot be taken. -/
inductive StepError where
  | fault (f : Fault)
  | outOfRange
  | build (e : BuildError)
  deriving DecidableEq, Repr

namespace Level

/-- The word in progress as a buffer of single characters. -/
def buffer (q : Char) (l : Level) : WordBuffer := ⟨[q], l.word.map ([·])⟩

/-- The next character. Only an index equal to the length of the text is its end. -/
def next? (l : Level) : Except StepError (Option Char) :=
  if l.index = l.text.length then .ok none
  else
    match l.text[l.index]? with
    | some c => .ok (some c)
    | none => .error .outOfRange

/-- End the word in progress with what the buffer has built. -/
def endBuilt (l : Level) : Except BuildError Part × WordBuffer → Except StepError Level
  | (.ok p, b) => .ok { l with word := b.text, parts := l.parts ++ [p] }
  | (.error err, _) => .error (.build err)

def endWord? (q : Char) (l : Level) : Except StepError Level :=
  if (l.buffer q).hasValue then l.endBuilt ((l.buffer q).build l.offset) else .ok l

def endCall? (q : Char) (l : Level) : Except StepError Level :=
  if (l.buffer q).hasValue then l.endBuilt ((l.buffer q).buildCall l.offset) else .ok l

end Level

/-- Take the steps up to the next suspension point with every access checked. -/
def advance? (rules : Rules) (expression : List Char) (inner : Level) (outer : List Level) :
    Except StepError Advance :=
  match inner.next? with
  | .error err => .error err
  | .ok none =>
    (inner.endWord? rules.quote).map fun l =>
      match outer with
      | [] => .finished l.parts
      | m :: rest => .suspended (m.takeParts l.parts) rest
  | .ok (some c) =>
    if c = '(' then
      match _h : rules.pairing.closing inner.remaining with
      | none => .error (.fault (.unclosed expression (some inner.offset) none))
      | some k =>
        if outer.length + 1 > rules.maxDepth then
          .error (.fault (.tooDeep expression inner.offset rules.maxDepth))
        else
          match inner.endCall? rules.quote with
          | .error err => .error err
          | .ok l =>
            advance? rules expression (inner.group k)
              ({ l with step := inner.index, index := inner.index + k + 1 } :: outer)
    else if isWordChar rules.quote c then .ok (.suspended (inner.read c) outer)
    else
      (inner.endWord? rules.quote).map fun l =>
        .suspended { l with step := inner.index, index := inner.index + 1 } outer
termination_by inner.remaining.length
decreasing_by
  have := Pairing.closing_lt _h
  simp only [Level.group, Level.remaining] at this ⊢
  simp only [List.drop_zero, List.length_take, List.length_drop] at this ⊢
  omega

/-- The steps as a checked result: only a fault is an error. -/
def Advance.checked : Advance → Except StepError Advance
  | .failed f => .error (.fault f)
  | a => .ok a

variable {rules : Rules} {e : List Char} {l : Level} {outer : List Level}

namespace Level

theorem hasValue_buffer (q : Char) (l : Level) : (l.buffer q).hasValue = !l.word.isEmpty := by
  simp [buffer, WordBuffer.hasValue]

theorem text_buffer (q : Char) (l : Level) : (l.buffer q).text = l.word := by
  simp [buffer, WordBuffer.text, ← List.flatMap_def]

theorem endWord?_eq (q : Char) (l : Level) : l.endWord? q = .ok (l.endWord q) := by
  rw [endWord?, hasValue_buffer]
  cases hw : l.word with
  | nil => simp [endWord, hw]
  | cons c cs =>
    rw [WordBuffer.build, hasValue_buffer, text_buffer, hw]
    simp [endWord, hw, WordBuffer.classify?, endBuilt, WordBuffer.clear, WordBuffer.text, buffer,
      Except.map]

theorem endCall?_eq (q : Char) (l : Level) : l.endCall? q = .ok l.endCall := by
  rw [endCall?, hasValue_buffer]
  cases hw : l.word with
  | nil => simp [endCall, hw]
  | cons c cs =>
    rw [WordBuffer.buildCall, hasValue_buffer, text_buffer, hw]
    simp [endCall, hw, endBuilt, WordBuffer.clear, WordBuffer.text]

theorem next?_eq (hi : l.index ≤ l.text.length) : l.next? = .ok l.remaining.head? := by
  rw [next?, remaining, List.head?_drop]
  split
  · rename_i h
    rw [h, List.getElem?_length]
  · rw [List.getElem?_eq_getElem (by omega)]

end Level

/-- In a stack of slices no check fails. -/
theorem Stacked.advance?_eq (h : Stacked e l outer) :
    advance? rules e l outer = (advance rules e l outer).checked := by
  have hnext {l : Level} {outer : List Level} (h : Stacked e l outer) {cs : List Char}
      (hr : l.remaining = cs) : l.next? = .ok cs.head? := by
    rw [Level.next?_eq h.index_le, hr]
  fun_induction advance rules e l outer with
  | case1 l hr =>
    rw [advance?, hnext h hr, List.head?_nil, Level.endWord?_eq]
    rfl
  | case2 l hr parts m outer =>
    rw [advance?, hnext h hr, List.head?_nil, Level.endWord?_eq]
    rfl
  | case3 l outer rest hk hr =>
    rw [advance?, hnext h hr, List.head?_cons]
    dsimp only
    rw [if_pos rfl]
    split
    · rfl
    · simp_all
  | case4 l outer rest k hk hd hr =>
    rw [advance?, hnext h hr, List.head?_cons]
    dsimp only
    rw [if_pos rfl]
    split
    · simp_all
    · rw [if_pos hd]
      rfl
  | case5 l outer rest k hk hd hr ih =>
    rw [advance?, hnext h hr, List.head?_cons]
    dsimp only
    rw [if_pos rfl]
    split
    · simp_all
    · rename_i k' hk'
      obtain rfl : k = k' := by simpa [hk] using hk'
      rw [if_neg hd, Level.endCall?_eq]
      exact ih (h.enter hr hk)
  | case6 l outer c rest hr hc hw =>
    rw [advance?, hnext h hr, List.head?_cons]
    dsimp only
    rw [if_neg hc, if_pos hw]
    rfl
  | case7 l outer c rest hr hc hw =>
    rw [advance?, hnext h hr, List.head?_cons]
    dsimp only
    rw [if_neg hc, if_neg hw, Level.endWord?_eq]
    rfl

end PartScan
