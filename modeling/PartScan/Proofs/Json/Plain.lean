import Mathlib.Data.List.Forall2
import PartScan.Json.StandIn
import PartScan.Proofs.Json.Parts
import PartScan.Proofs.Json.Tree

/-! # Payloads as plain data values

A payload without sets is written as the plain data value in which its parts, kinds, decimals and
events are replaced. A part is written alike whether it goes by its own object or as a record among
the fields of an event. Where undefined numbers may be written, a set is the one thing that cannot.
-/

namespace PartScan.Payload

open Json Number

/-- The nearest double, unless the decimal signals. -/
def plainDecimal? : Decimal → Option Json
  | .nan _ true _ => none
  | d => some (.float (.ofDecimal d))

mutual

/-- The data value in which every part is replaced by its object, every kind by its name, every
decimal by its double and every event by the object of its fields. -/
def plain? : Payload → Option Json
  | .null => some .null
  | .bool b => some (.bool b)
  | .int i => some (.int i)
  | .float x => some (.float x)
  | .string s => some (.string s)
  | .list items => (plainItems? items).map .list
  | .object fields => (plainFields? fields).map .object
  | .part p => some p.toJson
  | .kind k => some (.string k.label)
  | .decimal d => plainDecimal? d
  | .event (.progress e d) => (plainDecimal? d).map fun x =>
    .object [("expression".toList, .string e), ("percent".toList, x)]
  | .event (.completed e vs) =>
    some (.object [("expression".toList, .string e),
      ("variables".toList, .list (vs.map Part.toJson))])
  | .set _ => none

def plainItems? : List Payload → Option (List Json)
  | [] => some []
  | v :: rest => do
    let w ← plain? v
    let ws ← plainItems? rest
    some (w :: ws)

def plainFields? : List (List Char × Payload) → Option (List (List Char × Json))
  | [] => some []
  | (k, v) :: rest => do
    let w ← plain? v
    let ws ← plainFields? rest
    some ((k, w) :: ws)

end

variable {α β : Type} {l : Layout} {depth : Nat} {v : Payload} {items : List Payload}
  {fields : List (List Char × Payload)}

/-! ## Texts of fields -/

theorem fieldOrder_map (l : Layout) (g : α → β) (fields : List (List Char × α)) :
    l.fieldOrder (fields.map fun f => (f.1, g f.2)) =
      (l.fieldOrder fields).map fun f => (f.1, g f.2) := by
  unfold Layout.fieldOrder
  split
  · rw [List.map_mergeSort]
    intros
    rfl
  · rfl

theorem mem_fieldOrder (l : Layout) (fields : List (List Char × α)) (f : List Char × α) :
    f ∈ l.fieldOrder fields ↔ f ∈ fields := by
  unfold Layout.fieldOrder
  split
  · exact (List.mergeSort_perm _ _).mem_iff
  · rfl

/-- Fields that are all written are collected in their order. -/
theorem collect_ok (l : Layout) (fields : List (List Char × List Char)) :
    l.collect (fields.map fun f => (f.1, .ok f.2)) = .ok (l.fieldOrder fields) := by
  rw [Layout.collect, fieldOrder_map, List.mapM_map]
  exact List.mapM_pure.trans (congrArg pure (List.map_id' _))

/-! ## Stand-ins -/

theorem render_objectOfPart (l : Layout) (depth : Nat) (p : Part) :
    render l depth (objectOfPart p) = .ok (partText l depth p) :=
  congrArg (Except.map (l.objectText depth)) (collect_ok l (partFields l p))

/-- A record of a part is written as its own object is. -/
theorem render_recordOfPart (l : Layout) (depth : Nat) (p : Part) :
    render l depth (recordOfPart p) = .ok (partText l depth p) :=
  congrArg (Except.map (l.objectText depth)) (collect_ok l (partFields l p))

/-- Whatever parts are written by, lists of them are written alike. -/
theorem render_list_of_part {f : Part → Payload}
    (h : ∀ p, render l (depth + 1) (f p) = .ok (partText l (depth + 1) p)) (ps : List Part) :
    render l depth (.list (ps.map f)) =
      .ok (l.arrayText depth (ps.map (partText l (depth + 1)))) := by
  have hitems : renderItems l (depth + 1) (ps.map f) = .ok (ps.map (partText l (depth + 1))) := by
    induction ps with
    | nil => rfl
    | cons p ps ih =>
      rw [List.map_cons, renderItems, ih, h]
      rfl
  rw [render, hitems]
  rfl

/-- An event is written as the object of its fields, whatever its parts are written by. -/
theorem render_completed {f : Part → Payload}
    (h : ∀ p, render l (depth + 2) (f p) = .ok (partText l (depth + 2) p)) (e : List Char)
    (ps : List Part) : render l depth (.event (.completed e ps)) =
      render l depth (.object [("expression".toList, .string e),
        ("variables".toList, .list (ps.map f))]) := by
  show _ = (l.collect [("expression".toList, .ok (stringText l.ascii e)),
    ("variables".toList, render l (depth + 1) (.list (ps.map f)))]).map _
  rw [render_list_of_part h]
  rfl

/-- A payload that is not written as it is has the text of its stand-in. -/
theorem render_standIn (h : v.isPlain = false) :
    render l depth v = v.standIn.bind (render l depth) := by
  cases v with
  | part p => exact (render_objectOfPart l depth p).symm
  | kind k => rfl
  | decimal d =>
    cases d with
    | nan negative signalling n => cases signalling <;> rfl
    | finite | infinity => rfl
  | event e =>
    cases e with
    | progress e d => rfl
    | completed e vs => exact render_completed (render_recordOfPart l _) e vs
  | set items => rfl
  | null | bool | int | float | string | list | object => cases h

/-! ## Plain data values -/

/-- A data value that a payload is written as. -/
structure WrittenAs (v : Payload) (w : Json) : Prop where
  plain : plain? v = some w
  text : ∀ l depth, render l depth v = Json.render l depth w

theorem writtenAs_list {ws : List Json} (h : List.Forall₂ WrittenAs items ws) :
    WrittenAs (.list items) (.list ws) := by
  constructor
  · have hplain : plainItems? items = some ws := by
      induction h with
      | nil => rfl
      | cons hv _ ih =>
        rw [plainItems?, hv.plain, ih]
        rfl
    rw [plain?, hplain]
    rfl
  · intro l depth
    have htext : renderItems l (depth + 1) items = Json.renderItems l (depth + 1) ws := by
      induction h with
      | nil => rfl
      | cons hv _ ih => rw [renderItems, Json.renderItems, hv.text, ih]
    rw [render, Json.render, htext]

theorem writtenAs_object {xs : List (List Char × Json)}
    (h : List.Forall₂ (fun f x => f.1 = x.1 ∧ WrittenAs f.2 x.2) fields xs) :
    WrittenAs (.object fields) (.object xs) := by
  constructor
  · have hplain : plainFields? fields = some xs := by
      induction h with
      | nil => rfl
      | cons hf _ ih =>
        rw [plainFields?, hf.2.plain, ih, hf.1]
        rfl
    rw [plain?, hplain]
    rfl
  · intro l depth
    have htext : renderFields l (depth + 1) fields = Json.renderFields l (depth + 1) xs := by
      induction h with
      | nil => rfl
      | cons hf _ ih => rw [renderFields, Json.renderFields, hf.2.text, ih, hf.1]
    rw [render, Json.render, htext]

theorem writtenAs_part (p : Part) : WrittenAs (.part p) p.toJson where
  plain := rfl
  text l depth := (render_objectOfPart l depth p).symm

theorem writtenAs_completed (e : List Char) (vs : List Part) :
    WrittenAs (.event (.completed e vs)) (.object [("expression".toList, .string e),
      ("variables".toList, .list (vs.map Part.toJson))]) where
  plain := rfl
  text l depth := by
    have hparts : WrittenAs (.list (vs.map .part)) (.list (vs.map Part.toJson)) :=
      writtenAs_list (List.forall₂_map_left_iff.2 (List.forall₂_map_right_iff.2
        (List.forall₂_same.2 fun p _ => writtenAs_part p)))
    show _ = (l.collect [("expression".toList, .ok (stringText l.ascii e)),
      ("variables".toList, Json.render l (depth + 1) (.list (vs.map Part.toJson)))]).map _
    rw [← hparts.text, render_list_parts]
    rfl

theorem writtenAs_progress {d : Decimal} {x : Json} (e : List Char)
    (h : WrittenAs (.decimal d) x) :
    WrittenAs (.event (.progress e d))
      (.object [("expression".toList, .string e), ("percent".toList, x)]) where
  plain := congrArg (Option.map _) h.plain
  text l depth := by
    show (l.collect [("expression".toList, .ok (stringText l.ascii e)),
      ("percent".toList, render l (depth + 1) (.decimal d))]).map _ = _
    rw [h.text]
    rfl

theorem exists_writtenAs_decimal {d : Decimal} (h : ¬ HasSignal (.decimal d)) :
    ∃ w, WrittenAs (.decimal d) w := by
  cases d with
  | nan negative signalling n =>
    cases signalling with
    | true => exact absurd ⟨negative, n, .self _⟩ h
    | false => exact ⟨_, rfl, fun _ _ => rfl⟩
  | finite | infinity => exact ⟨_, rfl, fun _ _ => rfl⟩

theorem exists_forall₂ {R : α → β → Prop} {as : List α} (h : ∀ a ∈ as, ∃ b, R a b) :
    ∃ bs, List.Forall₂ R as bs := by
  induction as with
  | nil => exact ⟨[], .nil⟩
  | cons a as ih =>
    obtain ⟨⟨b, hb⟩, hrest⟩ := List.forall_mem_cons.1 h
    obtain ⟨bs, hbs⟩ := ih hrest
    exact ⟨b :: bs, .cons hb hbs⟩

/-- Without sets and signalling decimals, a payload is written as a plain data value. -/
theorem exists_writtenAs (v : Payload) (hset : ¬ HasSet v) (hsignal : ¬ HasSignal v) :
    ∃ w, WrittenAs v w := by
  induction v using childInduction with
  | step v ih =>
    replace ih (w : Payload) (hw : w ∈ v.children) : ∃ x, WrittenAs w x :=
      ih w hw (mt (.of_child hw) hset) (mt (.of_child hw) hsignal)
    cases v with
    | list items =>
      obtain ⟨ws, hws⟩ := exists_forall₂ ih
      exact ⟨_, writtenAs_list hws⟩
    | object fields =>
      have hfields : ∀ f ∈ fields, ∃ x : List Char × Json, f.1 = x.1 ∧ WrittenAs f.2 x.2 := by
        intro f hf
        obtain ⟨x, hx⟩ := ih f.2 (List.mem_map_of_mem hf)
        exact ⟨(f.1, x), rfl, hx⟩
      obtain ⟨xs, hxs⟩ := exists_forall₂ hfields
      exact ⟨_, writtenAs_object hxs⟩
    | part p => exact ⟨_, writtenAs_part p⟩
    | decimal d => exact exists_writtenAs_decimal hsignal
    | event e =>
      cases e with
      | progress e d =>
        obtain ⟨x, hx⟩ := ih (.decimal d) (List.mem_singleton_self _)
        exact ⟨_, writtenAs_progress e hx⟩
      | completed e vs => exact ⟨_, writtenAs_completed e vs⟩
    | set items => exact absurd ⟨items, .self _⟩ hset
    | null | bool | int | float | string | kind => exact ⟨_, rfl, fun _ _ => rfl⟩

/-! ## Sets -/

/-- There is a text, or a set stood in the way. -/
def Settled (P : Prop) (r : Except EncodeError α) : Prop :=
  (P ∧ r = .error .notSerializable) ∨ (¬ P ∧ ∃ t, r = .ok t)

namespace Settled

variable {P Q : Prop} {r : Except EncodeError α}

theorem congr (h : Settled P r) (hiff : P ↔ Q) : Settled Q r := by
  rwa [← propext hiff]

theorem map (h : Settled P r) (g : α → β) : Settled P (r.map g) := by
  rcases h with ⟨hP, rfl⟩ | ⟨hP, t, rfl⟩
  · exact .inl ⟨hP, rfl⟩
  · exact .inr ⟨hP, g t, rfl⟩

theorem of_ok {t : α} (hP : ¬ P) (h : r = .ok t) : Settled P r := .inr ⟨hP, t, h⟩

/-- The first item in the way stops the others. -/
theorem mapM {P : α → Prop} {f : α → Except EncodeError β} {as : List α}
    (h : ∀ a ∈ as, Settled (P a) (f a)) : Settled (∃ a ∈ as, P a) (as.mapM f) := by
  induction as with
  | nil => exact .of_ok (by simp) rfl
  | cons a as ih =>
    obtain ⟨ha, hrest⟩ := List.forall_mem_cons.1 h
    rw [List.mapM_cons]
    rcases ha with ⟨hP, hf⟩ | ⟨hP, t, hf⟩
    · refine .inl ⟨⟨a, List.mem_cons_self, hP⟩, ?_⟩
      rw [hf]
      rfl
    · have hiff : (∃ b ∈ as, P b) ↔ ∃ b ∈ a :: as, P b := by simp [hP]
      refine Settled.congr ?_ hiff
      rw [hf]
      exact (ih hrest).map (t :: ·)

end Settled

theorem renderItems_eq (l : Layout) (depth : Nat) (items : List Payload) :
    renderItems l depth items = items.mapM (render l depth) := by
  induction items with
  | nil => rfl
  | cons v items ih =>
    rw [renderItems, ih, List.mapM_cons]
    rfl

theorem renderFields_eq (l : Layout) (depth : Nat) (fields : List (List Char × Payload)) :
    renderFields l depth fields = fields.map fun f => (f.1, render l depth f.2) := by
  induction fields with
  | nil => rfl
  | cons f fields ih =>
    rw [renderFields, ih]
    rfl

theorem settled_list (h : ∀ v ∈ items, Settled (HasSet v) (render l (depth + 1) v)) :
    Settled (HasSet (.list items)) (render l depth (.list items)) := by
  rw [render, renderItems_eq, hasSet_list_iff]
  exact (Settled.mapM h).map _

theorem settled_object (h : ∀ f ∈ fields, Settled (HasSet f.2) (render l (depth + 1) f.2)) :
    Settled (HasSet (.object fields)) (render l depth (.object fields)) := by
  have hset : (∃ f ∈ l.fieldOrder fields, HasSet f.2) ↔ HasSet (.object fields) := by
    simp only [mem_fieldOrder, hasSet_object_iff]
  rw [render, renderFields_eq, Layout.collect, fieldOrder_map, List.mapM_map]
  refine Settled.congr (Settled.map (Settled.mapM fun f hf => ?_) _) hset
  exact (h f ((mem_fieldOrder l fields f).1 hf)).map _

theorem exists_floatText (hl : l.allowUndefined = true) (x : Binary64) :
    ∃ t, floatText l x = .ok t := by
  cases x <;> simp [floatText, hl]

theorem exists_decimalText (hl : l.allowUndefined = true) {d : Decimal}
    (h : ¬ HasSignal (.decimal d)) : ∃ t, decimalText l d = .ok t := by
  cases d with
  | nan negative signalling n =>
    cases signalling with
    | true => exact absurd ⟨negative, n, .self _⟩ h
    | false => exact exists_floatText hl (.ofDecimal (.nan negative false n))
  | finite negative c e => exact exists_floatText hl (.ofDecimal (.finite negative c e))
  | infinity negative => exact exists_floatText hl (.ofDecimal (.infinity negative))

theorem exists_eventText (hl : l.allowUndefined = true) {e : Event}
    (h : ¬ HasSignal (.event e)) : ∃ t, render l depth (.event e) = .ok t := by
  cases e with
  | progress e d =>
    obtain ⟨t, ht⟩ := exists_decimalText hl (mt (.of_child (List.mem_singleton_self _)) h)
    rw [render, eventFields, ht]
    exact ⟨_, congrArg (Except.map _) (collect_ok l
      [("expression".toList, stringText l.ascii e), ("percent".toList, t)])⟩
  | completed e vs =>
    exact ⟨_, congrArg (Except.map (l.objectText depth)) (collect_ok l
      [("expression".toList, stringText l.ascii e), ("variables".toList, _)])⟩

/-- Where undefined numbers may be written, nothing but a set stands in the way of a text. -/
theorem settled_render (hl : l.allowUndefined = true) (v : Payload) (hsignal : ¬ HasSignal v)
    (depth : Nat) : Settled (HasSet v) (render l depth v) := by
  induction v using childInduction generalizing depth with
  | step v ih =>
    replace ih (w : Payload) (hw : w ∈ v.children) (depth : Nat) :
        Settled (HasSet w) (render l depth w) := ih w hw (mt (.of_child hw) hsignal) depth
    cases v with
    | list items => exact settled_list fun w hw => ih w hw _
    | object fields => exact settled_object fun f hf => ih f.2 (List.mem_map_of_mem hf) _
    | set items => exact .inl ⟨⟨items, .self _⟩, rfl⟩
    | event e => exact .inr ⟨not_hasSet_event e, exists_eventText hl hsignal⟩
    | decimal d => exact .inr ⟨not_hasSet (by simp) rfl, exists_decimalText hl hsignal⟩
    | float x => exact .inr ⟨not_hasSet (by simp) rfl, exists_floatText hl x⟩
    | null | bool | int | string | part | kind =>
      exact .inr ⟨not_hasSet (by simp) rfl, _, rfl⟩

/-- Unless a decimal in it signals, a payload without sets has the text of the plain data value in
which its parts, kinds, decimals and events are replaced, under any layout. A part has one text,
by its own object or by a record of it, and so has an event with parts. Where undefined numbers may
be written, a payload has no text if and only if a set occurs in it. -/
theorem render_factors (v : Payload) (hsignal : ¬ HasSignal v) :
    (¬ HasSet v → ∃ w, plain? v = some w ∧ ∀ l depth, render l depth v = Json.render l depth w) ∧
      (∀ u l depth, u.isPlain = false → render l depth u = u.standIn.bind (render l depth)) ∧
      (∀ l depth p, render l depth (.part p) = render l depth (objectOfPart p) ∧
        render l depth (.part p) = render l depth (recordOfPart p)) ∧
      (∀ l depth e ps, render l depth (.event (.completed e ps)) =
        render l depth (.object [("expression".toList, .string e),
          ("variables".toList, .list (ps.map objectOfPart))])) ∧
      (∀ l depth, l.allowUndefined = true →
        (render l depth v = .error .notSerializable ↔ HasSet v) ∧
        (¬ HasSet v ↔ ∃ t, render l depth v = .ok t)) := by
  refine ⟨fun hset => ?_, fun u l depth => render_standIn, fun l depth p => ⟨?_, ?_⟩,
    fun l depth e ps => render_completed (render_objectOfPart l _) e ps, fun l depth hl => ?_⟩
  · obtain ⟨w, hw⟩ := exists_writtenAs v hset hsignal
    exact ⟨w, hw.plain, hw.text⟩
  · exact (render_objectOfPart l depth p).symm
  · exact (render_recordOfPart l depth p).symm
  · rcases settled_render hl v hsignal depth with ⟨hset, htext⟩ | ⟨hset, t, htext⟩
    · simp [htext, hset]
    · simp [htext, hset]

theorem render_factors_mixed :
    ¬ HasSignal (.list [.part ⟨.var, 0, 1, ['x']⟩, .kind .number]) ∧
      ¬ HasSet (.list [.part ⟨.var, 0, 1, ['x']⟩, .kind .number]) ∧
      (∃ w, plain? (.list [.part ⟨.var, 0, 1, ['x']⟩, .kind .number]) = some w ∧
        render {} 0 (.list [.part ⟨.var, 0, 1, ['x']⟩, .kind .number]) = Json.render {} 0 w) ∧
      isPlain (.kind .number) = false ∧
      render {} 0 (.kind .number) = (standIn (.kind .number)).bind (render {} 0) ∧
      ¬ HasSignal (.list [.kind .number, .set []]) ∧
      render {} 0 (.list [.kind .number, .set []]) = .error .notSerializable := by
  have hquiet (v : Payload) (h : ∀ negative n, v ≠ .decimal (.nan negative true n))
      (hnil : v.children = []) : ¬ HasSignal v := not_hasSignal h (by simp [hnil])
  have hkind := hquiet (.kind .number) (by simp) rfl
  have hparts : ¬ HasSignal (.list [.part ⟨.var, 0, 1, ['x']⟩, .kind .number]) := by
    refine not_hasSignal (by simp) (List.forall_mem_cons.2 ⟨hquiet _ (by simp) rfl, ?_⟩)
    exact List.forall_mem_singleton.2 hkind
  have hsets : ¬ HasSignal (.list [.kind .number, .set []]) := by
    refine not_hasSignal (by simp) (List.forall_mem_cons.2 ⟨hkind, ?_⟩)
    exact List.forall_mem_singleton.2 (hquiet _ (by simp) rfl)
  have hnone : ¬ HasSet (.list [.part ⟨.var, 0, 1, ['x']⟩, .kind .number]) := by
    rw [hasSet_list_iff]
    rintro ⟨v, hv, hset⟩
    rcases List.mem_cons.1 hv with rfl | hv
    · exact not_hasSet (by simp) rfl hset
    · exact not_hasSet (by simp) rfl (List.mem_singleton.1 hv ▸ hset)
  have hset : HasSet (.list [.kind .number, .set []]) :=
    hasSet_list_iff.2 ⟨.set [], by simp, [], .self _⟩
  obtain ⟨w, hplain, htext⟩ := (render_factors _ hparts).1 hnone
  exact ⟨hparts, hnone, ⟨w, hplain, htext {} 0⟩, rfl, (render_factors _ hparts).2.1 _ {} 0 rfl,
    hsets, ((render_factors _ hsets).2.2.2.2 {} 0 rfl).1.2 hset⟩

end PartScan.Payload
