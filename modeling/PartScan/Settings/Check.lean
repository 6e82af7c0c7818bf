import PartScan.Settings.Given

/-! # Checked settings

Settings are checked field by field. All problems are reported, one for each refused field, in the
order of the fields; a field that is not given has its default.
-/

namespace PartScan

namespace Settings

/-- The value of a field, its default where none is given. -/
def orDefault {α : Type} (default : α) (read : Given → Except Problem α) (g : Option Given) :
    Except Problem α :=
  g.elim (.ok default) read

def problem? {α : Type} (field : Field) : Except Problem α → List (Field × Problem)
  | .ok _ => []
  | .error p => [(field, p)]

def check (given : Field → Option Given) : Except (List (Field × Problem)) Settings :=
  let stepDelay := orDefault default Given.delay (given .stepDelay)
  let dueTime := orDefault default Given.delay (given .dueTime)
  let depth := orDefault ⟨64, by decide, by decide⟩ Given.depth (given .maxDepth)
  let pairing := orDefault .nested Given.pairing (given .pairing)
  let quote := orDefault ⟨'"', by decide⟩ Given.quote (given .quote)
  match stepDelay, dueTime, depth, pairing, quote with
  | .ok stepDelay, .ok dueTime, .ok ⟨maxDepth, hpos, hle⟩, .ok pairing,
    .ok ⟨quote, ho, hc, hb⟩ =>
    .ok { rules := ⟨quote, pairing, maxDepth, ho, hc, hb, hpos, hle⟩, stepDelay, dueTime }
  | _, _, _, _, _ =>
    .error (problem? .stepDelay stepDelay ++ problem? .dueTime dueTime ++
      problem? .maxDepth depth ++ problem? .pairing pairing ++ problem? .quote quote)

/-- The value that gives a field of checked settings again. -/
def toGiven (s : Settings) : Field → Given
  | .stepDelay => .float s.stepDelay.seconds
  | .dueTime => .float s.dueTime.seconds
  | .maxDepth => .int s.rules.maxDepth
  | .pairing => .text s.rules.pairing.label
  | .quote => .text [s.rules.quote]

/-- Put texts over some fields of checked settings and check the whole again. -/
def override (s : Settings) (texts : Field → Option (List Char)) :
    Except (List (Field × Problem)) Settings :=
  if Field.all.all fun f => (texts f).isNone then .ok s
  else check fun f => some (((texts f).map .text).getD (s.toGiven f))

end Settings

end PartScan
