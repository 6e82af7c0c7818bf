import PartScan.Proofs.Scan.Suspension
import PartScan.Proofs.Scheduler.History

/-! # Lone extractions

An extraction that runs alone gives the sink the progress of each resumption of its scan and, with
the last one, its completion. The resumptions of a job are those of a lone extraction, after one
that only defers it, up to the end or to a cancellation in place of one of them.
-/

namespace PartScan

open Number

theorem heard_append (e : List Char) (ns ns' : List Notice) :
    heard e (ns ++ ns') = heard e ns ++ heard e ns' := List.filterMap_append

namespace Scan

variable {s t : Scan} {ns : List Notice}

theorem heard_settle {rules : Rules} {e : List Char} {a : Advance} {ps : List Part}
    (h : (settle rules e a).2 = .finished (.ok ps)) :
    heard e (settle rules e a).1 = [.progress e (percentOf e.length e.length)] := by
  cases a with
  | suspended l outer => simp [settle] at h
  | failed f => simp [settle] at h
  | finished ps' => rfl

/-- The resumption that ends a scan with its parts reports the whole as its last percentage. -/
theorem heard_of_finished {ps : List Part} (h : s.resume = (ns, .finished (.ok ps))) :
    ∃ before, heard s.expression ns =
      before ++ [.progress s.expression (percentOf s.expression.length s.expression.length)] := by
  cases s with
  | ready rules e =>
    rw [resume] at h
    split at h
    · rename_i he
      cases h
      subst he
      exact ⟨[], rfl⟩
    · simp only [Prod.mk.injEq] at h
      obtain ⟨rfl, h⟩ := h
      exact ⟨_, (heard_append e [.started, .progress (percentOf 0 e.length)] _).trans
        (congrArg _ (heard_settle h))⟩
  | suspended rules e l outer =>
    simp only [resume, Prod.mk.injEq] at h
    obtain ⟨rfl, h⟩ := h
    exact ⟨_, (heard_append e _ _).trans (congrArg _ (heard_settle h))⟩

theorem heard_last {ps : List Part} (h : s.run.2 = .ok ps) :
    ∃ nss ns before, s.run.1 = nss ++ [ns] ∧ heard s.expression ns =
      before ++ [.progress s.expression (percentOf s.expression.length s.expression.length)] := by
  fun_induction run s with
  | case1 s ns o hr =>
    cases h
    obtain ⟨before, hbefore⟩ := heard_of_finished hr
    exact ⟨[], ns, before, rfl, hbefore⟩
  | case2 s ns t hr rest o ho ih =>
    rw [ho] at ih
    obtain ⟨nss, last, before, hnss, hlast⟩ := ih h
    rw [expression_of_suspended hr] at hlast
    exact ⟨ns :: nss, last, before, congrArg (ns :: ·) hnss, hlast⟩

end Scan

theorem exists_of_variableParts_ok {rules : Rules} {e : List Char} {vs : List Part}
    (h : variableParts rules e = .ok vs) :
    ∃ ps, tokenize rules e = .ok ps ∧ ps.filter Part.isVariable = vs := by
  cases ho : tokenize rules e with
  | error f =>
    rw [variableParts, ho] at h
    cases h
  | ok ps =>
    rw [variableParts, ho] at h
    cases h
    exact ⟨ps, rfl, rfl⟩

theorem tokenize_of_variableParts_error {rules : Rules} {e : List Char} {f : Fault}
    (h : variableParts rules e = .error f) : tokenize rules e = .error f := by
  cases ho : tokenize rules e with
  | error f' =>
    rw [variableParts, ho] at h
    cases h
    rfl
  | ok ps =>
    rw [variableParts, ho] at h
    cases h

/-- The completion that an extraction reports at its end. -/
def completion (e : List Char) : Outcome → List Event
  | .ok ps => [.completed e (ps.filter Part.isVariable)]
  | .error _ => []

/-- The events of resumptions with the given reports; the last one ends the extraction. -/
def eventLists (e : List Char) (o : Outcome) : List (List Notice) → List (List Event)
  | [] => []
  | [ns] => [heard e ns ++ completion e o]
  | ns :: ns' :: nss => heard e ns :: eventLists e o (ns' :: nss)

/-- The events of an extraction that runs alone, with one list for each of its resumptions. -/
def loneEvents (rules : Rules) (e : List Char) : List (List Event) :=
  eventLists e (Scan.ready rules e).run.2 (Scan.ready rules e).run.1

theorem eventLists_append (e : List Char) (o : Outcome) (nss : List (List Notice))
    {rest : List (List Notice)} (h : rest ≠ []) :
    eventLists e o (nss ++ rest) = nss.map (heard e) ++ eventLists e o rest := by
  induction nss with
  | nil => rfl
  | cons ns nss ih =>
    obtain ⟨ns', nss', hcons⟩ := List.exists_cons_of_ne_nil (List.append_ne_nil_of_right_ne_nil nss h)
    rw [List.cons_append, hcons, eventLists, ← hcons, ih]
    rfl

theorem eventLists_ne_nil (e : List Char) (o : Outcome) {nss : List (List Notice)}
    (h : nss ≠ []) : eventLists e o nss ≠ [] := by
  cases nss with
  | nil => exact absurd rfl h
  | cons ns nss => cases nss <;> simp [eventLists]

section Leads

variable {rules : Rules} {e : List Char} {nss : List (List Notice)} {s t : Scan}
  {ns : List Notice}

/-- The scan of the expression comes to the scan `s` after the given reports. -/
def Leads (rules : Rules) (e : List Char) (nss : List (List Notice)) (s : Scan) : Prop :=
  (Scan.ready rules e).run = (nss ++ s.run.1, s.run.2)

theorem Leads.suspended (h : Leads rules e nss s) (hr : s.resume = (ns, .suspended t)) :
    Leads rules e (nss ++ [ns]) t := by
  rw [Leads, h, Scan.run_of_suspended hr]
  simp

theorem Leads.loneEvents_eq (h : Leads rules e nss s) :
    loneEvents rules e = nss.map (heard e) ++ eventLists e s.run.2 s.run.1 := by
  rw [loneEvents, h]
  exact eventLists_append e s.run.2 nss s.run_ne_nil

theorem Leads.finished {o : Outcome} (h : Leads rules e nss s)
    (hr : s.resume = (ns, .finished o)) :
    loneEvents rules e = nss.map (heard e) ++ [heard e ns ++ completion e o] ∧
      tokenize rules e = o := by
  have hrun := Scan.run_of_finished hr
  constructor
  · rw [h.loneEvents_eq, hrun]
    rfl
  · rw [tokenize, h, hrun]

end Leads

/-- The resumptions of a job on an expression, with their events, at each of its stages. -/
inductive JobRun (rules : Rules) (e : List Char) : Stage → List (List Event) → Prop
  | created : JobRun rules e .created []
  | deferred : JobRun rules e .deferred [[]]
  | scanning {s : Scan} {nss : List (List Notice)} (h : Leads rules e nss s) :
      JobRun rules e (.scanning s) ([] :: nss.map (heard e))
  | found {vs : List Part} (h : variableParts rules e = .ok vs) :
      JobRun rules e (.finished (.found vs)) ([] :: loneEvents rules e)
  | fault {f : Fault} (h : variableParts rules e = .error f) :
      JobRun rules e (.finished (.fault f)) ([] :: loneEvents rules e)
  | cancelled {rs : List (List Event)} (h : rs <+: [] :: loneEvents rules e)
      (hl : rs.length < ([] :: loneEvents rules e).length) :
      JobRun rules e (.finished .cancelled) (rs ++ [[]])

namespace JobRun

variable {rules : Rules} {e : List Char} {rs : List (List Event)}

/-- Before its end a job has had some, but not all, of its resumptions. -/
theorem unfinished {stage : Stage} (h : JobRun rules e stage rs)
    (hs : ∀ r, stage ≠ .finished r) :
    rs <+: [] :: loneEvents rules e ∧ rs.length < ([] :: loneEvents rules e).length := by
  have hnil : loneEvents rules e ≠ [] := eventLists_ne_nil _ _ (Scan.run_ne_nil _)
  cases h with
  | created => exact ⟨List.nil_prefix, Nat.succ_pos _⟩
  | deferred => exact ⟨⟨loneEvents rules e, rfl⟩, Nat.succ_lt_succ (List.length_pos_of_ne_nil hnil)⟩
  | @scanning s nss hl =>
    have hpos := List.length_pos_of_ne_nil (eventLists_ne_nil e s.run.2 s.run_ne_nil)
    rw [hl.loneEvents_eq]
    refine ⟨⟨_, rfl⟩, ?_⟩
    simp only [List.length_cons, List.length_append]
    omega
  | found => exact absurd rfl (hs _)
  | fault => exact absurd rfl (hs _)
  | cancelled => exact absurd rfl (hs _)

theorem of_scan? {j : Job} {s : Scan} (h : JobRun rules j.expression j.stage rs)
    (hs : j.scan? rules = some s) :
    ∃ nss, rs = [] :: nss.map (heard j.expression) ∧ Leads rules j.expression nss s := by
  unfold Job.scan? at hs
  split at hs
  · rename_i hst
    cases hs
    rw [hst] at h
    cases h
    exact ⟨[], rfl, rfl⟩
  · rename_i hst
    cases hs
    rw [hst] at h
    cases h with
    | scanning hl => exact ⟨_, rfl, hl⟩
  · cases hs

/-- A step of a job is its next resumption, for a sink that accepts every event. -/
theorem resumed {set : Settings} {sink : Sink} {i : Nat} {j j' : Job} {es : List Entry}
    (hsink : ∀ before ev, sink.refuses before ev = none)
    (h : JobRun set.rules j.expression j.stage rs)
    (hr : Scheduler.Resumed set sink i j es j') :
    JobRun set.rules j'.expression j'.stage (rs ++ [es.filterMap Entry.event?]) := by
  rw [hr.expression]
  cases hr with
  | ends h' hs =>
    rw [hs]
    cases h' with
    | dropped hst =>
      obtain ⟨hpre, hlt⟩ := h.unfinished (by simp [hst])
      exact .cancelled hpre hlt
    | cancelled hsc =>
      obtain ⟨hpre, hlt⟩ := h.unfinished fun r hst => by simp [Job.scan?, hst] at hsc
      exact .cancelled hpre hlt
    | fault hsc _ hres =>
      obtain ⟨nss, rfl, hl⟩ := h.of_scan? hsc
      obtain ⟨hlone, htok⟩ := hl.finished hres
      rw [List.filterMap_append, Scheduler.filterMap_event?_entry, List.cons_append]
      exact hlone ▸ .fault (by rw [variableParts, htok]; rfl)
    | found hsc _ hres hv =>
      obtain ⟨nss, rfl, hl⟩ := h.of_scan? hsc
      obtain ⟨hlone, htok⟩ := hl.finished hres
      rw [List.filterMap_append, Scheduler.filterMap_event?_entry, List.cons_append, hv]
      exact hlone ▸ .found (by rw [variableParts, htok]; rfl)
    | refused _ _ _ hw => simp [hsink] at hw
    | refusedFound _ _ _ _ hw => simp [hsink] at hw
  | goes h' hs =>
    rw [hs]
    cases h' with
    | deferred hst =>
      rw [hst] at h
      cases h
      exact .deferred
    | scanning hsc _ hres =>
      obtain ⟨nss, rfl, hl⟩ := h.of_scan? hsc
      rw [Scheduler.filterMap_event?_entry, List.cons_append, ← List.map_singleton,
        ← List.map_append]
      exact .scanning (hl.suspended hres)

end JobRun

end PartScan
