import PartScan.Json.Payload
import PartScan.Proofs.Json.Reading
import PartScan.Proofs.Json.Writing

/-! # Parts as data values

The text of a list of parts stands for the list of their objects and for nothing else. By itself it
is on one line, whatever the parts hold.
-/

namespace PartScan

open Json

/-- The object of a part: its kind by name, its offsets and its text. -/
def Part.toJson (p : Part) : Json :=
  .object [("type".toList, .string p.kind.label), ("start".toList, .int p.start),
    ("end".toList, .int p.stop), ("text".toList, .string p.text)]

/-- The part that an object holds, whatever the order of its fields. -/
def Part.ofJson? (v : Json) : Option Part :=
  match v.field? "type".toList, v.field? "start".toList, v.field? "end".toList,
    v.field? "text".toList with
  | some (.string label), some (.int start), some (.int stop), some (.string text) =>
    (PartKind.ofLabel? label).map fun kind => ⟨kind, start, stop, text⟩
  | _, _, _, _ => none

theorem Part.ofJson?_toJson (p : Part) : ofJson? p.toJson = some p := by
  show (PartKind.ofLabel? p.kind.label).map _ = _
  rw [PartKind.ofLabel?_label]
  rfl

theorem Part.toJson_injective : Function.Injective Part.toJson := by
  intro p q h
  have hread := congrArg ofJson? h
  rw [ofJson?_toJson, ofJson?_toJson] at hread
  exact Option.some.inj hread

namespace Payload

variable (l : Layout) (ascii : Bool) (depth : Nat)

theorem fieldOrder_unsorted {α : Type} (fields : List (List Char × α)) :
    ({ ascii } : Layout).fieldOrder fields = fields := rfl

theorem writes_partText (p : Part) : Writes (partText { ascii } depth p) p.toJson := by
  rw [partText, fieldOrder_unsorted]
  refine writes_object ascii depth (.cons ⟨rfl, ?_⟩ (.cons ⟨rfl, ?_⟩ (.cons ⟨rfl, ?_⟩
    (.cons ⟨rfl, ?_⟩ .nil))))
  · exact writes_string ascii _
  · exact writes_int _
  · exact writes_int _
  · exact writes_string ascii _

theorem renderItems_parts (ps : List Part) :
    renderItems l depth (ps.map .part) = .ok (ps.map (partText l depth)) := by
  induction ps with
  | nil => rfl
  | cons p ps ih =>
    rw [List.map_cons, renderItems, ih, render]
    rfl

theorem render_list_parts (ps : List Part) : render l depth (.list (ps.map .part)) =
    .ok (l.arrayText depth (ps.map (partText l (depth + 1)))) := by
  rw [render, renderItems_parts]
  rfl

theorem denotes_parts (ps : List Part) :
    Denotes (({ ascii } : Layout).arrayText 0 (ps.map (partText { ascii } 1)))
      (.list (ps.map Part.toJson)) := by
  have hparts : List.Forall₂ Writes (ps.map (partText { ascii } 1)) (ps.map Part.toJson) := by
    induction ps with
    | nil => exact .nil
    | cons p ps ih => exact .cons (writes_partText ascii 1 p) ih
  have hlist := writes_array ascii 0 hparts []
  rw [List.append_nil] at hlist
  exact .mk .nil hlist .nil

theorem printable_partText (p : Part) : Printable (partText {} depth p) := by
  rw [partText, fieldOrder_unsorted]
  apply printable_objectText
  simp only [partFields, List.forall_mem_cons]
  exact ⟨printable_stringText _, printable_intText _, printable_intText _,
    printable_stringText _, nofun⟩

theorem printable_partsText (ps : List Part) : Printable (partsText ps) := by
  apply printable_arrayText
  intro t ht
  obtain ⟨p, _, rfl⟩ := List.mem_map.1 ht
  exact printable_partText 1 p

/-- Parts are written as a text that stands for the list of their objects and for nothing else, so
different parts have different texts. Where nothing else is asked for, the text is on one line. -/
theorem render_parts (ps : List Part) :
    ∃ text, render { ascii } 0 (.list (ps.map .part)) = .ok text ∧
      Denotes text (.list (ps.map Part.toJson)) ∧
      (∀ v, Denotes text v → v = .list (ps.map Part.toJson)) ∧
      read? text = some (.list (ps.map Part.toJson)) ∧
      (∀ qs ascii', render { ascii := ascii' } 0 (.list (qs.map .part)) = .ok text → qs = ps) ∧
      (ascii = true → text = partsText ps ∧ Printable text) := by
  have hdenotes := denotes_parts ascii ps
  refine ⟨_, render_list_parts _ 0 ps, hdenotes, fun v hv => hv.unique hdenotes, hdenotes.read?,
    ?_, ?_⟩
  · intro qs ascii' hqs
    rw [render_list_parts] at hqs
    have hsame := denotes_parts ascii' qs
    rw [Except.ok.inj hqs] at hsame
    exact Part.toJson_injective.list_map (Json.list.inj (hsame.unique hdenotes))
  · rintro rfl
    exact ⟨rfl, printable_partsText ps⟩

example : partsText [⟨.string, 0, 4, ['"', '\n', 'é', '𝄞']⟩] =
    ("[\x7b\"type\": \"StringLiteral\", \"start\": 0, \"end\": 4, " ++
      "\"text\": \"\\\"\\n\\u00e9\\ud834\\udd1e\"\x7d]").toList := by
  decide +kernel

end Payload

end PartScan
