import PartScan.Proofs.Number.Percent
import PartScan.Proofs.Scheduler.Cancellation
import PartScan.Proofs.Scheduler.Isolation

/-! # Completions

The completion of a job is the last of its events, directly behind the last percentage of its scan,
and only a job that ends with its variables has one.
-/

namespace PartScan

open Number

def Event.isCompletion : Event → Bool
  | .progress _ _ => false
  | .completed _ _ => true

section Lone

variable {rules : Rules} {e : List Char} {vs : List Part} {rs : List (List Event)}

theorem isCompletion_heard {ns : List Notice} {ev : Event} (h : ev ∈ heard e ns) :
    ev.isCompletion = false := by
  obtain ⟨n, -, hn⟩ := List.mem_filterMap.1 h
  cases n <;> cases hn
  rfl

theorem isCompletion_flatten_heard {nss : List (List Notice)} {ev : Event}
    (h : ev ∈ (nss.map (heard e)).flatten) : ev.isCompletion = false := by
  obtain ⟨evs, hevs, hev⟩ := List.mem_flatten.1 h
  obtain ⟨ns, -, rfl⟩ := List.mem_map.1 hevs
  exact isCompletion_heard hev

/-- A lone extraction that succeeds ends with its last percentage and its completion. -/
theorem loneEvents_of_ok (h : variableParts rules e = .ok vs) :
    ∃ (nss : List (List Notice)) (before : List Event), (∀ ev ∈ before, ev.isCompletion = false) ∧
      loneEvents rules e = nss.map (heard e) ++
        [before ++ [.progress e (percentOf e.length e.length), .completed e vs]] := by
  obtain ⟨ps, ho, rfl⟩ := exists_of_variableParts_ok h
  obtain ⟨nss, ns, before, hrun, hlast⟩ := Scan.heard_last ho
  refine ⟨nss, before, ?_, ?_⟩
  · rintro ev hev
    exact isCompletion_heard (hlast ▸ List.mem_append_left _ hev)
  · have hout : (Scan.ready rules e).run.2 = .ok ps := ho
    have hheard : heard e ns = before ++ [.progress e (percentOf e.length e.length)] := hlast
    rw [loneEvents, hout, hrun, eventLists_append e _ nss (List.cons_ne_nil ns []), eventLists,
      hheard, completion, List.append_assoc]
    rfl

theorem countP_loneEvents (h : variableParts rules e = .ok vs) :
    (loneEvents rules e).flatten.countP Event.isCompletion = 1 := by
  obtain ⟨nss, before, hbefore, hlone⟩ := loneEvents_of_ok h
  have hfront : (nss.map (heard e)).flatten.countP Event.isCompletion = 0 :=
    List.countP_eq_zero.2 fun ev hev => by simp [isCompletion_flatten_heard hev]
  have hzero : before.countP Event.isCompletion = 0 :=
    List.countP_eq_zero.2 fun ev hev => by simp [hbefore ev hev]
  rw [hlone, List.flatten_append, List.flatten_singleton, List.countP_append, List.countP_append,
    hfront, hzero]
  rfl

theorem getLastD_loneEvents (h : variableParts rules e = .ok vs) :
    ∃ before, ([] :: loneEvents rules e).getLastD [] =
      before ++ [.progress e (percentOf e.length e.length), .completed e vs] := by
  obtain ⟨nss, before, -, hlone⟩ := loneEvents_of_ok h
  refine ⟨before, ?_⟩
  rw [hlone, ← List.cons_append, List.getLastD_concat]

theorem eventLists_dropLast (e : List Char) (o : Outcome) (nss : List (List Notice)) :
    (eventLists e o nss).dropLast = nss.dropLast.map (heard e) := by
  induction nss with
  | nil => rfl
  | cons ns nss ih =>
    cases nss with
    | nil => rfl
    | cons ns' nss' =>
      rw [eventLists, List.dropLast_cons_of_ne_nil (eventLists_ne_nil e o (List.cons_ne_nil _ _)),
        ih]
      rfl

theorem eventLists_error (e : List Char) (f : Fault) (nss : List (List Notice)) :
    eventLists e (.error f) nss = nss.map (heard e) := by
  induction nss with
  | nil => rfl
  | cons ns nss ih =>
    cases nss with
    | nil => exact congrArg (· :: []) (List.append_nil _)
    | cons ns' nss' =>
      rw [eventLists, ih]
      rfl

theorem prefix_dropLast {α : Type} {l m : List α} (h : l <+: m) (hl : l.length < m.length) :
    l <+: m.dropLast := by
  obtain ⟨t, rfl⟩ := h
  have ht : t ≠ [] := by
    rintro rfl
    simp at hl
  rw [List.dropLast_append_of_ne_nil ht]
  exact List.prefix_append l _

/-- Only the last resumption of an extraction can complete it. -/
theorem isCompletion_of_proper (h : rs <+: [] :: loneEvents rules e)
    (hl : rs.length < ([] :: loneEvents rules e).length) {ev : Event} (hev : ev ∈ rs.flatten) :
    ev.isCompletion = false := by
  have hnil : loneEvents rules e ≠ [] := eventLists_ne_nil _ _ (Scan.run_ne_nil _)
  have hpre := prefix_dropLast h hl
  rw [List.dropLast_cons_of_ne_nil hnil, loneEvents, eventLists_dropLast] at hpre
  obtain ⟨evs, hevs, hmem⟩ := List.mem_flatten.1 hev
  rcases List.mem_cons.1 (hpre.subset hevs) with rfl | hevs
  · cases hmem
  · obtain ⟨ns, -, rfl⟩ := List.mem_map.1 hevs
    exact isCompletion_heard hmem

/-- A job that does not end with its variables never completes. -/
theorem JobRun.isCompletion_eq_false {stage : Stage} (h : JobRun rules e stage rs)
    (hs : ∀ vs, stage ≠ .finished (.found vs)) {ev : Event} (hev : ev ∈ rs.flatten) :
    ev.isCompletion = false := by
  cases h with
  | created => cases hev
  | deferred => cases hev
  | scanning hl =>
    rw [List.flatten_cons, List.nil_append] at hev
    exact isCompletion_flatten_heard hev
  | found => exact absurd rfl (hs _)
  | @fault f hf =>
    have hout : (Scan.ready rules e).run.2 = .error f := tokenize_of_variableParts_error hf
    rw [List.flatten_cons, List.nil_append, loneEvents, hout, eventLists_error] at hev
    exact isCompletion_flatten_heard hev
  | cancelled hpre hl =>
    rw [List.flatten_append, List.flatten_singleton, List.append_nil] at hev
    exact isCompletion_of_proper hpre hl hev

end Lone

namespace Scheduler

variable {s : Scheduler} {i : Nat} {j : Job} {rs : List (List Event)}

/-- How the job `j` with the number `i` completes: at most once, exactly if it ends with the
variables among the parts of its expression, with these, directly behind its last percentage and as
its last event. No event of it is refused. -/
structure Completes (s : Scheduler) (i : Nat) (j : Job) : Prop where
  at_most_once : (s.eventsOf i).countP Event.isCompletion ≤ 1
  iff_found : (∃ ev ∈ s.eventsOf i, ev.isCompletion = true) ↔
    ∃ vs, j.result? = some (.found vs)
  found : ∀ vs, j.result? = some (.found vs) →
    (∃ ps, tokenize s.settings.rules j.expression = .ok ps ∧
      vs = ps.filter fun p => p.kind = .var) ∧
      ∃ before after, (∀ d ∈ after, d.1 ≠ i) ∧ s.deliveries = before ++
        (i, .progress j.expression (percentOf j.expression.length j.expression.length)) ::
        (i, .completed j.expression vs) :: after
  not_refused : ∀ w, j.result? ≠ some (.refused w)

/-- Whatever follows `s'`, the job with the number `i` gives the sink no more events than in `s` and
can end only cancelled. -/
def Silenced (s s' : Scheduler) (i : Nat) : Prop :=
  ∀ ms, (s'.moves ms).eventsOf i = s.eventsOf i ∧
    ∀ j r, (s'.moves ms).jobs[i]? = some j → j.result? = some r → r = .cancelled

/-- What becomes of a job that is to be cancelled: only one that has ended is not, and then nothing
changes; any other is silenced. -/
structure Cancels (s : Scheduler) (i : Nat) (j : Job) : Prop where
  refused_iff : (s.cancel i).2 = some false ↔ j.isFinished = true
  refused : (s.cancel i).2 = some false → (s.cancel i).1 = s
  granted : (s.cancel i).2 = some true → Silenced s (s.cancel i).1 i
  all : i ∈ s.active → j.isFinished = false → Silenced s s.cancelAll.1 i

theorem stage_of_result? {r : JobResult} (h : j.result? = some r) : j.stage = .finished r := by
  unfold Job.result? at h
  split at h
  · rename_i hst
    cases h
    exact hst
  · cases h

theorem Traced.completes_found {vs : List Part} (h : Traced s i rs) (hj : s.jobs[i]? = some j)
    (hres : j.result? = some (.found vs)) : Completes s i j := by
  have hrun := h.present j hj
  rw [stage_of_result? hres] at hrun
  cases hrun with
  | found hvs =>
    have hcount : (s.eventsOf i).countP Event.isCompletion = 1 := by
      rw [h.events, List.flatten_cons, List.nil_append]
      exact countP_loneEvents hvs
    refine ⟨Nat.le_of_eq hcount, ?_, ?_, ?_⟩
    · refine iff_of_true (List.countP_pos_iff.1 ?_) ⟨vs, hres⟩
      rw [hcount]
      exact Nat.one_pos
    · intro vs' hres'
      rw [hres] at hres'
      cases hres'
      obtain ⟨front, after, hafter, htogether⟩ := h.together
      obtain ⟨before, hlast⟩ := getLastD_loneEvents hvs
      obtain ⟨ps, hps, rfl⟩ := exists_of_variableParts_ok hvs
      refine ⟨⟨ps, hps, rfl⟩, front ++ before.map (Prod.mk i), after, hafter, ?_⟩
      rw [htogether, hlast, List.map_append]
      simp
    · intro w hw
      rw [hres] at hw
      cases hw

theorem Traced.completes (h : Traced s i rs) (hj : s.jobs[i]? = some j) : Completes s i j := by
  by_cases hfound : ∃ vs, j.result? = some (.found vs)
  · obtain ⟨vs, hres⟩ := hfound
    exact h.completes_found hj hres
  · have hrun := h.present j hj
    have hnone : ∀ ev ∈ s.eventsOf i, ev.isCompletion = false := by
      intro ev hev
      rw [h.events] at hev
      refine hrun.isCompletion_eq_false (fun vs hst => hfound ⟨vs, ?_⟩) hev
      rw [Job.result?, hst]
    constructor
    · rw [List.countP_eq_zero.2 fun ev hev => by simp [hnone ev hev]]
      exact Nat.zero_le 1
    · refine iff_of_false ?_ hfound
      rintro ⟨ev, hev, hc⟩
      rw [hnone ev hev] at hc
      cases hc
    · intro vs hres
      exact absurd ⟨vs, hres⟩ hfound
    · intro w hw
      rw [stage_of_result? hw] at hrun
      cases hrun

theorem Completes.variableParts_eq {vs : List Part} (h : Completes s i j)
    (hr : j.result? = some (.found vs)) :
    variableParts s.settings.rules j.expression = .ok vs := by
  obtain ⟨⟨ps, hps, rfl⟩, -⟩ := h.found vs hr
  rw [variableParts, hps]
  rfl

theorem Completes.mem {vs : List Part} (h : Completes s i j)
    (hr : j.result? = some (.found vs)) : (i, .completed j.expression vs) ∈ s.deliveries := by
  obtain ⟨-, before, after, -, hd⟩ := h.found vs hr
  rw [hd]
  simp

theorem Completes.not_mem (h : Completes s i j) (hr : j.result? = none) (e : List Char)
    (vs : List Part) : (i, .completed e vs) ∉ s.deliveries := by
  intro hmem
  have hevent : Event.completed e vs ∈ s.eventsOf i :=
    List.mem_map.2 ⟨_, List.mem_filter.2 ⟨hmem, by simp⟩, rfl⟩
  obtain ⟨vs', hfound⟩ := h.iff_found.1 ⟨_, hevent, rfl⟩
  rw [hr] at hfound
  cases hfound

/-- A job that is not cancelled finds the variables of its expression, if it has some. -/
theorem Traced.result?_of_ok {vs : List Part}
    (h : Traced s i rs) (hj : s.jobs[i]? = some j) (hs : j.result? ≠ some .cancelled)
    (hv : variableParts s.settings.rules j.expression = .ok vs) (hr : j.result? ≠ none) :
    j.result? = some (.found vs) := by
  obtain ⟨r, hr⟩ := Option.ne_none_iff_exists'.1 hr
  have hrun := h.present j hj
  rw [stage_of_result? hr] at hrun
  cases hrun with
  | found hv' =>
    rw [hv] at hv'
    cases hv'
    exact hr
  | fault hf =>
    rw [hv] at hf
    cases hf
  | cancelled => exact absurd hr hs

theorem Quiet.silenced {s' : Scheduler} (hp : ∀ k, s.Placed k) (h : Quiet s s')
    (hd : s'.Doomed i) : Silenced s s' i := by
  intro ms
  obtain ⟨hdoomed, hevents⟩ := hd.moves (fun k => h.placed k (hp k)) ms
  refine ⟨?_, fun j r hj hr => hdoomed.result hj hr⟩
  rw [hevents, eventsOf, eventsOf, deliveries, deliveries, h.journal]

theorem cancels (hp : ∀ k, s.Placed k) (hj : s.jobs[i]? = some j) : Cancels s i j := by
  have hgranted := cancel_granted hj
  constructor
  · rw [hgranted]
    simp
  · intro hfalse
    apply cancel_finished hj
    simpa [hgranted] using hfalse
  · intro htrue
    have hf : j.isFinished = false := by simpa [hgranted] using htrue
    exact (Quiet.cancel s i).silenced hp (doomed_cancel hj hf)
  · intro hi hf
    exact (Quiet.cancelAll s).silenced hp (doomed_cancelAll hj hf hi)

/-- In every run of a scheduler whose sink accepts every event, a job completes once and only if it
ends with its variables, and a cancellation that it is granted is final. The last percentage is 100
for every expression whose length has no more digits than a computed decimal keeps. -/
theorem completion_discipline (settings : Settings) {sink : Sink}
    (hsink : ∀ before ev, sink.refuses before ev = none) (ms : List Move) {i : Nat} {j : Job}
    (hj : (after settings sink ms).jobs[i]? = some j) :
    Completes (after settings sink ms) i j ∧ Cancels (after settings sink ms) i j ∧
      (j.expression.length < pow10 precision →
        (percentOf j.expression.length j.expression.length).value? = some 100) := by
  have hp := placed_after settings sink ms
  have htraced := traced_after settings hsink ms i
  exact ⟨htraced.completes hj, cancels hp hj, value?_percentOf_self⟩

/-- One of two jobs for the same expression is cancelled. The other one completes with the variable
and without the function and the number in front of it. -/
theorem completion_discipline_same :
    let e : List Char := ['f', '(', '1', ' ', 'a', ')']
    let parts : List Part :=
      [⟨.function, 0, 1, ['f']⟩, ⟨.number, 2, 3, ['1']⟩, ⟨.var, 4, 5, ['a']⟩]
    let s := after default default ([.start e, .start e, .turn, .turn, .turn, .cancel 0] ++
      List.replicate 20 .turn)
    (∀ before ev, (default : Sink).refuses before ev = none) ∧
      (s.jobs.map Job.result? =
        [some .cancelled, some (.found [⟨.var, 4, 5, ['a']⟩])]) ∧
      (s.eventsOf 1).countP Event.isCompletion ≤ 1 ∧
      (∃ ev ∈ s.eventsOf 1, ev.isCompletion = true) ∧
      (tokenize s.settings.rules e = .ok parts ∧
        [⟨.var, 4, 5, ['a']⟩] = parts.filter fun p => p.kind = .var) ∧
      (1, .completed e [⟨.var, 4, 5, ['a']⟩]) ∈ s.deliveries ∧
      (s.cancel 1).1 = s ∧ (percentOf 6 6).value? = some 100 := by
  intro e parts s
  have haccepts : ∀ before ev, (default : Sink).refuses before ev = none := fun _ _ => rfl
  let j : Job := { expression := e, stage := .finished (.found [⟨.var, 4, 5, ['a']⟩]),
                   callbacks := [] }
  obtain ⟨hdone, hcancels, hlast⟩ := completion_discipline default haccepts
    ([.start e, .start e, .turn, .turn, .turn, .cancel 0] ++ List.replicate 20 .turn)
    (i := 1) (j := j) (by decide +kernel)
  obtain ⟨⟨ps, hps, hvars⟩, -⟩ := hdone.found _ rfl
  have hparts : tokenize s.settings.rules e = .ok parts := by decide +kernel
  obtain rfl : parts = ps := Except.ok.inj (hparts.symm.trans hps)
  exact ⟨haccepts, by decide +kernel, hdone.at_most_once, hdone.iff_found.2 ⟨_, rfl⟩,
    ⟨hparts, hvars⟩, hdone.mem rfl, hcancels.refused (hcancels.refused_iff.2 rfl),
    hlast (by decide +kernel)⟩

end Scheduler

end PartScan
