import Mathlib.Data.List.DropRight
import Mathlib.Data.List.Induction
import PartScan.Word

/-! # What a word buffer keeps

A word buffer may be asked anything in any order, with any texts and offsets, and some of what is
asked fails. At every moment the texts of the parts that were built and the text in the buffer are,
one behind the other, all that was appended.
-/

namespace PartScan.WordBuffer

/-- What a word buffer can be asked. -/
inductive Call where
  | append (piece : List Char)
  | hasValue
  | classify (word : List Char)
  | build (stop : Int)
  | buildCall (offset : Int)
  | describe

inductive Reply where
  | done
  | flag (b : Bool)
  | kind (r : Except BuildError PartKind)
  | part (r : Except BuildError Part)
  | text (s : List Char)

namespace Call

def pieces : Call → List (List Char)
  | .append piece => [piece]
  | _ => []

/-- Where the part ends that is asked for, if one is. -/
def offset? : Call → Option Int
  | .build stop => some stop
  | .buildCall offset => some offset
  | _ => none

/-- Whether the buffer is only looked at. -/
def looks : Call → Bool
  | .hasValue | .classify _ | .describe => true
  | _ => false

end Call

namespace Reply

def parts : Reply → List Part
  | .part (.ok p) => [p]
  | _ => []

/-- Whether no part could be built because nothing was accumulated. -/
def isRefusal : Reply → Bool
  | .part (.error (.nothingAccumulated _)) => true
  | _ => false

end Reply

/-- The answer to a call, and what the call leaves of the buffer. -/
def call (b : WordBuffer) : Call → Reply × WordBuffer
  | .append piece => (.done, b.append piece)
  | .hasValue => (.flag b.hasValue, b)
  | .classify word => (.kind (b.classify? word), b)
  | .build stop => (.part (b.build stop).1, (b.build stop).2)
  | .buildCall offset => (.part (b.buildCall offset).1, (b.buildCall offset).2)
  | .describe => (.text b.describe, b)

def after (b : WordBuffer) (calls : List Call) : WordBuffer :=
  calls.foldl (fun b c => (b.call c).2) b

/-- The calls with their answers. -/
def log (b : WordBuffer) : List Call → List (Call × Reply)
  | [] => []
  | c :: calls => (c, (b.call c).1) :: log (b.call c).2 calls

/-- Whether a part was asked for where something was accumulated, even if it had no text that could
be classified. -/
def drains (x : Call × Reply) : Bool := x.1.offset?.isSome && !x.2.isRefusal

/-- The calls since the buffer was last drained, with their answers. -/
def sinceDrained (xs : List (Call × Reply)) : List (Call × Reply) := xs.rtakeWhile (!drains ·)

def built (xs : List (Call × Reply)) : List Part := xs.flatMap fun x => x.2.parts

variable {b b' : WordBuffer} {c : Call} {r : Reply} {calls : List Call} {x : Call × Reply}

/-! ## One call -/

/-- What a call answers and leaves. -/
inductive Answers (b : WordBuffer) : Call → Reply → WordBuffer → Prop
  | appended (piece : List Char) : Answers b (.append piece) .done (b.append piece)
  | looked {c : Call} {r : Reply} (hc : c.looks = true) (hparts : r.parts = []) : Answers b c r b
  | refused {c : Call} {offset : Int} (call : Bool) (hc : c.offset? = some offset)
      (h : b.hasValue = false) : Answers b c (.part (.error (.nothingAccumulated call))) b
  | failed {c : Call} {offset : Int} (hc : c.offset? = some offset) (h : b.hasValue = true)
      (htext : b.text = []) : Answers b c (.part (.error .emptyText)) b.clear
  | built {c : Call} {offset : Int} (kind : PartKind) (hc : c.offset? = some offset)
      (h : b.hasValue = true) :
      Answers b c (.part (.ok ⟨kind, offset - b.text.length, offset, b.text⟩)) b.clear

theorem answers_build (b : WordBuffer) (stop : Int) :
    Answers b (.build stop) (.part (b.build stop).1) (b.build stop).2 := by
  rw [build]
  split
  · rename_i h
    cases htext : b.text with
    | nil => exact .failed rfl h htext
    | cons d w =>
      have hbuilt : Answers b (.build stop) _ _ := .built (.ofWord b.quote b.text) rfl h
      rw [htext] at hbuilt
      exact hbuilt
  · rename_i h
    exact .refused false rfl (Bool.eq_false_iff.2 h)

theorem answers_buildCall (b : WordBuffer) (offset : Int) :
    Answers b (.buildCall offset) (.part (b.buildCall offset).1) (b.buildCall offset).2 := by
  rw [buildCall]
  split
  · rename_i h
    exact .built .function rfl h
  · rename_i h
    exact .refused true rfl (Bool.eq_false_iff.2 h)

theorem answers (b : WordBuffer) (c : Call) : Answers b c (b.call c).1 (b.call c).2 := by
  cases c with
  | append piece => exact .appended piece
  | build stop => exact answers_build b stop
  | buildCall offset => exact answers_buildCall b offset
  | hasValue | classify | describe => exact .looked rfl rfl

theorem hasValue_eq_true_iff : b.hasValue = true ↔ b.pieces ≠ [] := by
  rw [hasValue, Bool.not_eq_true', List.isEmpty_eq_false_iff]

theorem Call.pieces_of_looks (h : c.looks = true) : c.pieces = [] := by
  cases c <;> first | rfl | cases h

theorem Call.pieces_of_offset? {offset : Int} (h : c.offset? = some offset) : c.pieces = [] := by
  cases c <;> first | rfl | cases h

theorem Call.offset?_of_looks (h : c.looks = true) : c.offset? = none := by
  cases c <;> first | rfl | cases h

namespace Answers

/-- A call drops no text: what is built is the text that leaves the buffer. -/
theorem text_eq (h : Answers b c r b') :
    r.parts.flatMap Part.text ++ b'.text = b.text ++ c.pieces.flatten := by
  cases h with
  | appended piece => exact List.flatten_append
  | looked hc hparts => rw [hparts, Call.pieces_of_looks hc, List.flatten_nil, List.append_nil]; rfl
  | refused _ hc => rw [Call.pieces_of_offset? hc, List.flatten_nil, List.append_nil]; rfl
  | failed hc _ htext => rw [Call.pieces_of_offset? hc, htext]; rfl
  | built _ hc =>
    rw [Call.pieces_of_offset? hc, Reply.parts, List.flatMap_singleton]
    rfl

theorem pieces_eq (h : Answers b c r b') :
    b'.pieces = if drains (c, r) then [] else b.pieces ++ c.pieces := by
  cases h with
  | appended piece => rfl
  | looked hc => simp [drains, Call.offset?_of_looks hc, Call.pieces_of_looks hc]
  | refused _ hc => simp [drains, Reply.isRefusal, Call.pieces_of_offset? hc]
  | failed hc | built _ hc => simp [drains, Reply.isRefusal, hc, clear]

/-- The part that is built ends where it was asked to and is as long as its text. -/
theorem part {p : Part} (h : Answers b c (.part (.ok p)) b') :
    c.offset? = some p.stop ∧ p.stop - p.start = p.text.length := by
  cases h with
  | looked _ hparts => cases hparts
  | built _ hc => exact ⟨hc, Int.sub_sub_self _ _⟩

/-- Asking for a part is refused where nothing was accumulated, and then nothing changes. -/
theorem refusal (h : Answers b c r b') {offset : Int} (hc : c.offset? = some offset) :
    (r.isRefusal = true ↔ b.hasValue = false) ∧ (r.isRefusal = true → b' = b) := by
  cases h with
  | appended => cases hc
  | looked h =>
    rw [Call.offset?_of_looks h] at hc
    cases hc
  | refused _ _ hvalue => exact ⟨iff_of_true rfl hvalue, fun _ => rfl⟩
  | failed _ hvalue | built _ _ hvalue => simp [Reply.isRefusal, hvalue]

theorem unchanged (h : Answers b c r b') (hc : c.looks = true) : b' = b := by
  cases h with
  | appended => cases hc
  | looked | refused => rfl
  | failed h | built _ h => exact absurd h (by rw [Call.offset?_of_looks hc]; nofun)

end Answers

/-! ## All calls -/

theorem after_concat (b : WordBuffer) (calls : List Call) (c : Call) :
    b.after (calls ++ [c]) = ((b.after calls).call c).2 := List.foldl_concat ..

theorem log_concat (b : WordBuffer) (calls : List Call) (c : Call) :
    b.log (calls ++ [c]) = b.log calls ++ [(c, ((b.after calls).call c).1)] := by
  induction calls generalizing b with
  | nil => rfl
  | cons d calls ih => exact congrArg _ (ih _)

theorem answers_of_mem_log (h : x ∈ b.log calls) : ∃ b₁ b₂, Answers b₁ x.1 x.2 b₂ := by
  induction calls generalizing b with
  | nil => cases h
  | cons c calls ih =>
    rcases List.mem_cons.1 h with rfl | h
    · exact ⟨_, _, answers b c⟩
    · exact ih h

theorem text_after (b : WordBuffer) (calls : List Call) :
    (built (b.log calls)).flatMap Part.text ++ (b.after calls).text =
      b.text ++ (calls.flatMap Call.pieces).flatten := by
  induction calls generalizing b with
  | nil => exact (List.append_nil _).symm
  | cons c calls ih =>
    have hstep := (answers b c).text_eq
    calc (built (b.log (c :: calls))).flatMap Part.text ++ (b.after (c :: calls)).text
      _ = (b.call c).1.parts.flatMap Part.text ++
          ((built ((b.call c).2.log calls)).flatMap Part.text ++
            ((b.call c).2.after calls).text) := by
        rw [← List.append_assoc, ← List.flatMap_append]
        rfl
      _ = b.text ++ c.pieces.flatten ++ (calls.flatMap Call.pieces).flatten := by
        rw [ih, ← List.append_assoc, hstep]
      _ = b.text ++ ((c :: calls).flatMap Call.pieces).flatten := by
        rw [List.append_assoc, ← List.flatten_append]
        rfl

/-- The buffer holds what was appended since it was last drained. -/
theorem pieces_after (quote : List Char) (calls : List Call) :
    (after { quote } calls).pieces =
      (sinceDrained (log { quote } calls)).flatMap fun x => x.1.pieces := by
  induction calls using List.reverseRecOn with
  | nil => rfl
  | append_singleton calls c ih =>
    rw [after_concat, log_concat, sinceDrained, (answers _ c).pieces_eq]
    split
    · rename_i h
      rw [List.rtakeWhile_concat_neg _ _ _ (by simp [h])]
      rfl
    · rename_i h
      rw [List.rtakeWhile_concat_pos _ _ _ (by simp [h]), List.flatMap_append, ih]
      simp [sinceDrained]

/-- There is a value exactly if something was appended since the buffer was last drained. -/
theorem hasValue_after_iff (quote : List Char) (calls : List Call) :
    (after { quote } calls).hasValue = true ↔
      ∃ piece r, (.append piece, r) ∈ sinceDrained (log { quote } calls) := by
  rw [hasValue_eq_true_iff, pieces_after, Ne, List.flatMap_eq_nil_iff, not_forall]
  simp only [Classical.not_imp]
  constructor
  · rintro ⟨⟨c, r⟩, hmem, hpieces⟩
    cases c with
    | append piece => exact ⟨piece, r, hmem⟩
    | hasValue | classify | build | buildCall | describe => exact absurd rfl hpieces
  · rintro ⟨piece, r, hmem⟩
    exact ⟨_, hmem, List.cons_ne_nil _ _⟩

/-- Whatever was called, the parts that were built and the buffer hold all text that was appended,
in its order. A part ends at the offset that was passed and is as long as its text. There is a value
exactly if something was appended since the buffer was last drained; without one no part can be
built and nothing changes, and neither does it where the buffer is only looked at. -/
theorem buffer_conserves (quote : List Char) (calls : List Call) :
    (built (log { quote } calls)).flatMap Part.text ++ (after { quote } calls).text =
        (calls.flatMap Call.pieces).flatten ∧
      (∀ (c : Call) (p : Part), (c, .part (.ok p)) ∈ log { quote } calls →
        c.offset? = some p.stop ∧ p.stop - p.start = p.text.length) ∧
      ((after { quote } calls).hasValue = true ↔
        ∃ piece r, (.append piece, r) ∈ sinceDrained (log { quote } calls)) ∧
      (∀ c : Call, c.offset?.isSome = true →
        (((after { quote } calls).call c).1.isRefusal = true ↔
          (after { quote } calls).hasValue = false) ∧
        (((after { quote } calls).call c).1.isRefusal = true →
          after { quote } (calls ++ [c]) = after { quote } calls)) ∧
      (∀ c : Call, c.looks = true → after { quote } (calls ++ [c]) = after { quote } calls) := by
  refine ⟨text_after _ calls, fun c p h => ?_, hasValue_after_iff quote calls, fun c hc => ?_,
    fun c hc => ?_⟩
  · obtain ⟨b₁, b₂, hanswers⟩ := answers_of_mem_log h
    exact hanswers.part
  · obtain ⟨offset, hoffset⟩ := Option.isSome_iff_exists.1 hc
    rw [after_concat]
    exact (answers _ c).refusal hoffset
  · rw [after_concat]
    exact (answers _ c).unchanged hc

theorem buffer_conserves_failed :
    log { quote := ['"'] } [.append [], .build 3, .append ['f'], .buildCall 8] =
        [(.append [], .done), (.build 3, .part (.error .emptyText)), (.append ['f'], .done),
          (.buildCall 8, .part (.ok ⟨.function, 7, 8, ['f']⟩))] ∧
      (Call.buildCall 8).offset? = some 8 ∧ (8 : Int) - 7 = (['f'] : List Char).length ∧
      after { quote := ['"'] } ([.append [], .build 3, .append ['f'], .buildCall 8] ++ [.build 9]) =
        { quote := ['"'] } := by
  have hlog : log { quote := ['"'] } [.append [], .build 3, .append ['f'], .buildCall 8] =
      [(.append [], .done), (.build 3, .part (.error .emptyText)), (.append ['f'], .done),
        (.buildCall 8, .part (.ok ⟨.function, 7, 8, ['f']⟩))] := rfl
  obtain ⟨-, hparts, -, hbuilds, -⟩ :=
    buffer_conserves ['"'] [.append [], .build 3, .append ['f'], .buildCall 8]
  obtain ⟨hoffset, hlength⟩ := hparts (.buildCall 8) ⟨.function, 7, 8, ['f']⟩ (by simp [hlog])
  exact ⟨hlog, hoffset, hlength, (hbuilds (.build 9) rfl).2 rfl⟩

end PartScan.WordBuffer
