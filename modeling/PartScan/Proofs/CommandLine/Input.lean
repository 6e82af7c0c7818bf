import PartScan.CommandLine.Session
import PartScan.Proofs.Text.Lines

/-! # Expressions on lines

The standard input is read as the segments between its line feeds. Blank segments are left out and
all others are kept as they are, so expressions that stand on lines are reported like those that are
given as arguments.
-/

namespace PartScan.CommandLine

open Text

/-- Something else than blanks stands in the segment. -/
def holdsText (s : List Char) : Bool := s.any fun c => !isBlank c

variable {segments : List (List Char)}

theorem inputLines_eq (input : List Char) :
    inputLines input = (splitOn '\n' input).filter holdsText := by
  refine List.filter_congr fun s _ => ?_
  rw [holdsText, List.not_all_eq_any_not]

theorem inputLines_joined (h : Segments segments) :
    inputLines (joined segments) = segments.filter holdsText := by
  rw [inputLines_eq, splitOn_joined h]

/-- A line feed at the end of the text changes nothing. -/
theorem inputLines_joined_concat (h : Segments segments) :
    inputLines (joined segments ++ ['\n']) = segments.filter holdsText := by
  rw [inputLines_eq, splitOn_joined_concat h, List.filter_append]
  exact List.append_nil _

/-- The input is read as the segments between its line feeds that are not blank, whether or not a
line feed ends it, and every text consists of such segments. Expressions on lines of their own are
therefore reported like the same expressions as arguments, whatever the input is then. -/
theorem input_read_by_lines :
    (∀ input, ∃ segments, Segments segments ∧ joined segments = input) ∧
    (∀ segments, Segments segments →
      readExpressions [] (joined segments) = segments.filter holdsText ∧
      readExpressions [] (joined segments ++ ['\n']) = segments.filter holdsText) ∧
    ∀ xs : List (List Char), xs ≠ [] → (∀ x ∈ xs, '\n' ∉ x ∧ holdsText x = true) →
      ∀ input, input = terminated xs ∨ input = joined xs →
        readExpressions [] input = xs ∧
        (∀ mode id s other, report mode id s (readExpressions [] input) =
          report mode id s (readExpressions xs other)) ∧
        ∀ (id : Nat → List Char) (o : Options) (w : Surroundings),
          perform id { o with expressions := [] } { w with input := input } =
            perform id { o with expressions := xs } w := by
  have hread (segments : List (List Char)) (h : Segments segments) :
      readExpressions [] (joined segments) = segments.filter holdsText ∧
        readExpressions [] (joined segments ++ ['\n']) = segments.filter holdsText :=
    ⟨inputLines_joined h, inputLines_joined_concat h⟩
  refine ⟨fun input => ⟨_, segments_splitOn input, joined_splitOn input⟩, hread,
    fun xs hne hxs input hinput => ?_⟩
  have hall : xs.filter holdsText = xs := List.filter_eq_self.2 fun x hx => (hxs x hx).2
  have hlines : readExpressions [] input = xs := by
    obtain ⟨hjoined, hconcat⟩ := hread xs ⟨hne, fun x hx => (hxs x hx).1⟩
    obtain rfl | rfl := hinput
    · rw [terminated_eq hne, hconcat, hall]
    · rw [hjoined, hall]
  have harguments (other : List Char) : readExpressions xs other = xs := if_neg hne
  refine ⟨hlines, fun mode id s other => by rw [hlines, harguments], fun id o w => ?_⟩
  simp only [perform, hlines, harguments]
  rfl

theorem input_read_by_lines_blanks :
    let xs : List (List Char) := [[' ', 'a', '\x0c'], ['b', '\u2028', 'c']]
    (∀ x ∈ xs, '\n' ∉ x ∧ holdsText x = true) ∧
      readExpressions [] [' ', 'a', '\x0c', '\n', 'b', '\u2028', 'c', '\n'] = xs ∧
      readExpressions [] [' ', 'a', '\x0c', '\n', '\t', '\n', 'b', '\u2028', 'c'] = xs ∧
      ∀ w : Surroundings, perform Number.natText {} { w with input := terminated xs } =
        perform Number.natText { expressions := xs } w := by
  intro xs
  obtain ⟨-, hread, hlines⟩ := input_read_by_lines
  have hxs : ∀ x ∈ xs, '\n' ∉ x ∧ holdsText x = true := by decide
  obtain ⟨hexpressions, -, hperform⟩ := hlines xs (by decide) hxs _ (.inl rfl)
  refine ⟨hxs, hexpressions, ?_, fun w => hperform _ {} w⟩
  exact (hread [[' ', 'a', '\x0c'], ['\t'], ['b', '\u2028', 'c']]
    ⟨by decide, by decide⟩).1.trans (by decide)

end PartScan.CommandLine
