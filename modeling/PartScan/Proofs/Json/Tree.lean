import PartScan.Json.Payload

/-! # Payloads in payloads

A payload is a tree. What holds of a payload whenever it holds of all payloads in it holds of every
payload, and a set or a signalling decimal occurs in a payload that is none if and only if it occurs
in one of those.
-/

namespace PartScan.Payload

open Number

/-- The payloads in a payload. Those in a set are never looked at. -/
def children : Payload → List Payload
  | .list items => items
  | .object fields => fields.map Prod.snd
  | .event (.progress _ d) => [.decimal d]
  | .event (.completed _ vs) => vs.map .part
  | _ => []

/-- A payload occurs somewhere in the tree of another. -/
inductive Occurs : Payload → Payload → Prop
  | self (v : Payload) : Occurs v v
  | child {u v w : Payload} (hw : w ∈ v.children) (h : Occurs u w) : Occurs u v

def HasSet (v : Payload) : Prop := ∃ items, Occurs (.set items) v

def HasSignal (v : Payload) : Prop := ∃ negative n, Occurs (.decimal (.nan negative true n)) v

variable {u v w : Payload} {items : List Payload} {fields : List (List Char × Payload)}

theorem sizeOf_lt_of_mem_children (h : w ∈ v.children) : sizeOf w < sizeOf v := by
  cases v with
  | list items =>
    have hw : sizeOf w < sizeOf items := List.sizeOf_lt_of_mem h
    rw [list.sizeOf_spec]
    omega
  | object fields =>
    obtain ⟨⟨k, w⟩, hf, rfl⟩ := List.mem_map.1 h
    have hw : sizeOf (k, w) < sizeOf fields := List.sizeOf_lt_of_mem hf
    rw [Prod.mk.sizeOf_spec] at hw
    show sizeOf w < sizeOf (object fields)
    rw [object.sizeOf_spec]
    omega
  | event e =>
    cases e with
    | progress e d =>
      obtain rfl := List.mem_singleton.1 h
      rw [decimal.sizeOf_spec, event.sizeOf_spec, Event.progress.sizeOf_spec]
      omega
    | completed e vs =>
      obtain ⟨p, hp, rfl⟩ := List.mem_map.1 h
      have hp : sizeOf p < sizeOf vs := List.sizeOf_lt_of_mem hp
      rw [part.sizeOf_spec, event.sizeOf_spec, Event.completed.sizeOf_spec]
      omega
  | null | bool | int | float | string | part | kind | decimal | set => cases h

/-- Whatever holds of a payload if it holds of all that is in it, holds of every payload. -/
@[elab_as_elim]
theorem childInduction {P : Payload → Prop} (step : ∀ v, (∀ w ∈ v.children, P w) → P v)
    (v : Payload) : P v :=
  step v fun w _ => childInduction step w
termination_by v
decreasing_by exact sizeOf_lt_of_mem_children ‹_›

theorem occurs_iff : Occurs u v ↔ u = v ∨ ∃ w ∈ v.children, Occurs u w := by
  constructor
  · intro h
    cases h with
    | self => exact .inl rfl
    | child hw h => exact .inr ⟨_, hw, h⟩
  · rintro (rfl | ⟨w, hw, h⟩)
    · exact .self u
    · exact .child hw h

theorem HasSet.of_child (hw : w ∈ v.children) : HasSet w → HasSet v
  | ⟨items, h⟩ => ⟨items, .child hw h⟩

theorem HasSignal.of_child (hw : w ∈ v.children) : HasSignal w → HasSignal v
  | ⟨negative, n, h⟩ => ⟨negative, n, .child hw h⟩

theorem hasSet_iff (h : ∀ items, v ≠ .set items) : HasSet v ↔ ∃ w ∈ v.children, HasSet w := by
  constructor
  · rintro ⟨items, hitems⟩
    rcases occurs_iff.1 hitems with rfl | ⟨w, hw, hoccurs⟩
    · exact absurd rfl (h items)
    · exact ⟨w, hw, items, hoccurs⟩
  · rintro ⟨w, hw, hset⟩
    exact hset.of_child hw

theorem not_hasSignal (h : ∀ negative n, v ≠ .decimal (.nan negative true n))
    (hchildren : ∀ w ∈ v.children, ¬ HasSignal w) : ¬ HasSignal v := by
  rintro ⟨negative, n, hoccurs⟩
  rcases occurs_iff.1 hoccurs with heq | ⟨w, hw, hoccurs⟩
  · exact h negative n heq.symm
  · exact hchildren w hw ⟨negative, n, hoccurs⟩

theorem hasSet_list_iff : HasSet (.list items) ↔ ∃ v ∈ items, HasSet v :=
  hasSet_iff (by simp)

theorem hasSet_object_iff : HasSet (.object fields) ↔ ∃ f ∈ fields, HasSet f.2 := by
  rw [hasSet_iff (by simp)]
  constructor
  · rintro ⟨w, hw, hset⟩
    obtain ⟨f, hf, rfl⟩ := List.mem_map.1 hw
    exact ⟨f, hf, hset⟩
  · rintro ⟨f, hf, hset⟩
    exact ⟨f.2, List.mem_map_of_mem hf, hset⟩

theorem not_hasSet (h : ∀ items, v ≠ .set items) (hchildren : v.children = []) : ¬ HasSet v := by
  rw [hasSet_iff h, hchildren]
  rintro ⟨w, hw, -⟩
  cases hw

theorem not_hasSet_event (e : Event) : ¬ HasSet (.event e) := by
  rw [hasSet_iff (by simp)]
  rintro ⟨w, hw, hset⟩
  cases e with
  | progress e d =>
    obtain rfl := List.mem_singleton.1 hw
    exact not_hasSet (by simp) rfl hset
  | completed e vs =>
    obtain ⟨p, -, rfl⟩ := List.mem_map.1 hw
    exact not_hasSet (by simp) rfl hset

end PartScan.Payload
