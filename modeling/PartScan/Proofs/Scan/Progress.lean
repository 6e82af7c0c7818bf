import PartScan.Proofs.Number.Increase
import PartScan.Proofs.Scan.Suspension

/-! # Progress of scans

The steps that a scan reports begin at ever larger indexes of the expression, and its end is
reported after all of them, so the percentages increase. A scan that is cancelled has reported what
its resumptions up to then report.
-/

namespace PartScan

open Number

variable {rules : Rules} {e : List Char} {l l' m : Level} {outer outer' : List Level}

/-- The level of the whole expression. -/
def bottom : Level → List Level → Level
  | l, [] => l
  | _, m :: outer => bottom m outer

/-- The index at which the step begins that is reported next: inside a group, the step has begun. -/
def nextStep (l : Level) : List Level → Nat
  | [] => l.index
  | m :: outer => (bottom m outer).step

/-- Every level has gone beyond the place where its latest step began. -/
def Advanced (l : Level) (outer : List Level) : Prop :=
  (0 < l.index → l.step < l.index) ∧ ∀ m ∈ outer, m.step < m.index

theorem Advanced.kept (rules : Rules) : Kept rules Advanced where
  read h _ _ _ := ⟨fun _ => Nat.lt_succ_self _, h.2⟩
  skip h _ _ _ := ⟨fun _ => Nat.lt_succ_self _, h.2⟩
  enter {l outer _ k} h _ _ _ := by
    refine ⟨fun hpos => absurd hpos (Nat.lt_irrefl 0), ?_⟩
    rintro m (_ | ⟨_, hm⟩)
    · simp only [Level.passGroup]
      omega
    · exact h.2 m hm
  leave h _ := by
    obtain ⟨hm, houter⟩ := List.forall_mem_cons.1 h.2
    exact ⟨fun _ => hm, houter⟩

theorem nextStep_congr (h : outer ≠ []) (l l' : Level) : nextStep l outer = nextStep l' outer := by
  cases outer with
  | nil => exact absurd rfl h
  | cons m outer => rfl

theorem Advanced.start (e : List Char) : Advanced { base := 0, text := e } [] :=
  ⟨fun h => absurd h (Nat.lt_irrefl 0), fun m hm => by cases hm⟩

/-- The next report is that of the step ahead, or that step is still to be reported. -/
theorem advance_nextStep (h : Advanced l outer)
    (ha : advance rules e l outer = .suspended l' outer') :
    (outer' = [] → l'.step = nextStep l outer ∧ l'.step < l'.index) ∧
      (outer' ≠ [] → nextStep l' outer' = nextStep l outer) := by
  fun_induction advance rules e l outer with
  | case1 => cases ha
  | case2 l hr parts m outer =>
    cases ha
    constructor
    · rintro rfl
      exact ⟨rfl, h.2 m List.mem_cons_self⟩
    · intro hne
      rw [nextStep_congr hne _ m]
      cases outer' with
      | nil => exact absurd rfl hne
      | cons m' outer' => rfl
  | case3 => cases ha
  | case4 => cases ha
  | case5 l outer rest k hk hd hr ih =>
    have hstep : nextStep (l.group k) (l.passGroup k :: outer) = nextStep l outer := by
      cases outer <;> rfl
    rw [← hstep]
    exact ih ((Advanced.kept rules).enter h hr hk (by omega)) ha
  | case6 l outer c rest hr hc hw =>
    cases ha
    constructor
    · rintro rfl
      exact ⟨rfl, Nat.lt_succ_self _⟩
    · intro hne
      exact nextStep_congr hne _ _
  | case7 l outer c rest hr hc hw =>
    cases ha
    constructor
    · rintro rfl
      exact ⟨rfl, Nat.lt_succ_self _⟩
    · intro hne
      exact nextStep_congr hne _ _

/-- Only the level of the whole expression can end the scan. -/
theorem advance_finished {ps : List Part} (ha : advance rules e l outer = .finished ps) :
    outer = [] ∧ l.remaining = [] := by
  fun_induction advance rules e l outer with
  | case1 l hr => exact ⟨rfl, hr⟩
  | case5 l outer rest k hk hd hr ih => exact absurd (ih ha).1 (List.cons_ne_nil _ _)
  | _ => cases ha

/-- The indexes increase, and the first of them is `a`. -/
def Rises (a : Nat) (steps : List Nat) : Prop :=
  steps.Pairwise (· < ·) ∧ ∀ i, steps.head? = some i → i = a

theorem Rises.cons {a b : Nat} {steps : List Nat} (h : Rises b steps) (hab : a < b) :
    Rises a (a :: steps) := by
  refine ⟨List.pairwise_cons.2 ⟨fun i hi => ?_, h.1⟩, fun i hi => (Option.some.inj hi).symm⟩
  cases steps with
  | nil => cases hi
  | cons j steps =>
    obtain rfl := h.2 j rfl
    rcases List.mem_cons.1 hi with rfl | hi
    · exact hab
    · exact Nat.lt_trans hab ((List.pairwise_cons.1 h.1).1 i hi)

/-- The index that a successful end reports. -/
def Outcome.mark (e : List Char) : Outcome → List Nat
  | .ok _ => [e.length]
  | .error _ => []

namespace Scan

/-- The index at which the step began that the next resumption reports, if it reports one. -/
def step? : Scan → Option Nat
  | .suspended _ _ inner [] => some inner.step
  | _ => none

/-- The indexes that are reported increase, up to the end of the expression. -/
theorem At.rises {s : Scan} (h : At rules e s l outer) (hl : Stacked e l outer)
    (hadv : Advanced l outer) :
    Rises (nextStep l outer) (s.suspensions.filterMap step? ++ Outcome.mark e s.run.2) := by
  induction l, outer using advance_induction (r := rules) (e := e) generalizing s with
  | @suspended l outer l' outer' ha ih =>
    have hl' := (Stacked.kept rules e).advance_meets (e := e) hl
    have hadv' := (Advanced.kept rules).advance_meets (e := e) hadv
    rw [ha] at hl' hadv'
    obtain ⟨hreport, hwait⟩ := advance_nextStep hadv ha
    have ih := ih (.suspended _ _) hl' hadv'
    obtain ⟨hrun, hsus⟩ := h.of_suspended ha
    rw [hrun, hsus]
    cases outer' with
    | nil =>
      obtain ⟨hstep, hlt⟩ := hreport rfl
      rw [← hstep]
      exact ih.cons hlt
    | cons m outer' =>
      rw [← hwait (List.cons_ne_nil _ _)]
      exact ih
  | finished ha =>
    obtain ⟨rfl, hr⟩ := advance_finished ha
    obtain ⟨hrun, hsus⟩ := h.of_finished ha
    have hend := hl.offset_end hr
    rw [Level.offset, hl.base_eq_zero, Nat.zero_add] at hend
    rw [hrun, hsus]
    exact ⟨List.pairwise_singleton _ _, fun i hi => (Option.some.inj hi).symm.trans hend.symm⟩
  | failed ha =>
    obtain ⟨hrun, hsus⟩ := h.of_failed ha
    rw [hrun, hsus]
    exact ⟨.nil, fun i hi => by cases hi⟩

/-- A step that is reported began inside the expression. -/
theorem At.step?_lt {s t : Scan} (h : At rules e s l outer) (hl : Stacked e l outer)
    (hadv : Advanced l outer) (ht : t ∈ s.suspensions) {i : Nat} (hi : t.step? = some i) :
    i < e.length := by
  obtain ⟨n, -, -, hmap⟩ := h.map_offset hl
  have hpos : 0 < t.offset := by
    have hmem := List.mem_map_of_mem (f := offset) ht
    rw [hmap] at hmem
    obtain ⟨c, -, hc⟩ := List.mem_map.1 hmem
    omega
  obtain ⟨l, outer, rfl, hl'⟩ := h.mem_suspensions (Stacked.kept rules e) hl ht
  obtain ⟨_, _, heq, hadv'⟩ := h.mem_suspensions (Advanced.kept rules) hadv ht
  cases heq
  cases outer with
  | cons m outer => cases hi
  | nil =>
    cases hi
    cases hl' with
    | whole hb htext hle =>
      have hlt := hadv'.1 (by simpa [offset, Level.offset, hb] using hpos)
      rw [← htext]
      exact Nat.lt_of_lt_of_le hlt hle

end Scan

/-- The percentage that a report gives, if it gives one. -/
def Notice.percent? : Notice → Option Decimal
  | .progress p => some p
  | _ => none

/-- The percentages that resumptions report. -/
def percents (nss : List (List Notice)) : List Decimal := nss.flatten.filterMap Notice.percent?

theorem flatten_modifyLast {α : Type} (xs : List α) {nss : List (List α)} (h : nss ≠ []) :
    (nss.modifyLast (· ++ xs)).flatten = nss.flatten ++ xs := by
  rw [← List.dropLast_concat_getLast h, List.modifyLast_concat]
  simp

theorem length_modifyLast {α : Type} (f : α → α) (xs : List α) :
    (xs.modifyLast f).length = xs.length := by
  rcases List.eq_nil_or_concat xs with rfl | ⟨ys, y, rfl⟩
  · rfl
  · rw [List.concat_eq_append, List.modifyLast_concat, List.length_append, List.length_append]
    rfl

theorem take_modifyLast {α : Type} (f : α → α) {xs : List α} {k : Nat} (h : k < xs.length) :
    (xs.modifyLast f).take k = xs.take k := by
  have hne : xs ≠ [] := List.ne_nil_of_length_pos (Nat.zero_lt_of_lt h)
  have hk : k ≤ xs.dropLast.length := by
    rw [List.length_dropLast]
    omega
  rw [← List.dropLast_concat_getLast hne, List.modifyLast_concat,
    List.take_append_of_le_length hk, List.take_append_of_le_length hk]

namespace Scan

theorem filterMap_percent?_report (e : List Char) (o : Outcome) :
    (Outcome.report e o).filterMap Notice.percent? =
      (Outcome.mark e o).map fun i : Nat => percentOf i e.length := by
  cases o <;> rfl

theorem percents_report {ts : List Scan}
    (h : ∀ t ∈ ts, ∃ l outer, t = .suspended rules e l outer) :
    percents (ts.map report) = (ts.filterMap step?).map fun i : Nat => percentOf i e.length := by
  induction ts with
  | nil => rfl
  | cons t ts ih =>
    obtain ⟨l, outer, rfl⟩ := h t List.mem_cons_self
    have ih := ih fun t ht => h t (List.mem_cons_of_mem _ ht)
    rw [List.map_cons, percents, List.flatten_cons, List.filterMap_append]
    cases outer with
    | nil => exact congrArg (percentOf l.step e.length :: ·) ih
    | cons m outer => exact ih

/-- Where the steps began that the scan of an expression reports. -/
def steps (rules : Rules) (e : List Char) : List Nat :=
  (ready rules e).suspensions.filterMap step?

theorem rises_steps (rules : Rules) (he : e ≠ []) :
    Rises 0 (steps rules e ++ Outcome.mark e (ready rules e).run.2) :=
  (At.ready he).rises (.start e) (Advanced.start e)

theorem lt_of_mem_steps (he : e ≠ []) {i : Nat} (hi : i ∈ steps rules e) : i < e.length := by
  obtain ⟨t, ht, hstep⟩ := List.mem_filterMap.1 hi
  exact (At.ready he).step?_lt (.start e) (Advanced.start e) ht hstep

/-- What the resumptions of a scan report without its outcome. -/
def reports (s : Scan) : List (List Notice) := s.report :: s.suspensions.map report

theorem run_ready (rules : Rules) (he : e ≠ []) : (ready rules e).run.1 =
    (ready rules e).reports.modifyLast (· ++ Outcome.report e (ready rules e).run.2) :=
  (At.ready he).run_eq

theorem percents_reports (rules : Rules) (he : e ≠ []) : percents (ready rules e).reports =
    .ofNat 0 :: (steps rules e).map fun i : Nat => percentOf i e.length := by
  have hsus : ∀ t ∈ (ready rules e).suspensions, ∃ l outer, t = .suspended rules e l outer := by
    intro t ht
    obtain ⟨l, outer, rfl, -⟩ := (At.ready he).mem_suspensions (Stacked.kept rules e) (.start e) ht
    exact ⟨l, outer, rfl⟩
  have hreport := percents_report hsus
  have hzero := percentOf_zero (List.length_pos_of_ne_nil he)
  rw [percents] at hreport ⊢
  rw [reports, List.flatten_cons, List.filterMap_append, hreport]
  exact congrArg (fun p => p :: _) hzero

theorem percents_run (he : e ≠ []) : percents (ready rules e).run.1 =
    .ofNat 0 :: (steps rules e ++ Outcome.mark e (ready rules e).run.2).map
      fun i : Nat => percentOf i e.length := by
  have hreports := percents_reports rules he
  have hne : (ready rules e).reports ≠ [] := List.cons_ne_nil _ _
  rw [run_ready rules he]
  rw [percents] at hreports ⊢
  rw [flatten_modifyLast _ hne, List.filterMap_append, filterMap_percent?_report, List.map_append,
    ← List.cons_append, ← hreports]

/-- Cancelling a scan in place of a resumption keeps the earlier ones; after its end it is too
late. -/
theorem runCancelled_eq (s : Scan) (k : Nat) : s.runCancelled k =
    if k < s.run.1.length then (s.run.1.take k ++ [[]], .cancelled)
    else (s.run.1, .ended s.run.2) := by
  induction k generalizing s with
  | zero =>
    rw [if_pos (List.length_pos_of_ne_nil s.run_ne_nil)]
    rfl
  | succ k ih =>
    rw [runCancelled]
    split
    · rename_i ns o hr
      rw [run_of_finished hr, if_neg (by simp)]
    · rename_i ns t hr
      rw [run_of_suspended hr, ih t]
      simp only [List.length_cons, Nat.add_lt_add_iff_right, List.take_succ_cons]
      split <;> rfl

end Scan

/-- Percentages as a scan reports them: first 0, and then, from 0 again, ever larger ones. -/
def Climbs : List Decimal → Prop
  | [] => True
  | p :: ps => p = .ofNat 0 ∧ (∀ q, ps.head? = some q → q = .ofNat 0) ∧ ps.Pairwise Decimal.Below

theorem Climbs.initial {ps qs : List Decimal} (h : Climbs qs) (hp : ps <+: qs) : Climbs ps := by
  cases ps with
  | nil => trivial
  | cons p ps =>
    obtain ⟨rest, rfl⟩ := hp
    obtain ⟨hp, hhead, hps⟩ := h
    refine ⟨hp, fun q hq => hhead q ?_, hps.sublist (List.sublist_append_left ps rest)⟩
    change (ps ++ rest).head? = some q
    rw [List.head?_append, hq]
    rfl

theorem climbs_percentOf {n : Nat} (h : n < pow10 precision) (hn : 0 < n) {is : List Nat}
    (hrises : Rises 0 is) (hle : ∀ i ∈ is, i ≤ n) :
    Climbs (.ofNat 0 :: is.map fun i : Nat => percentOf i n) := by
  refine ⟨rfl, fun q hq => ?_, ?_⟩
  · rw [List.head?_map] at hq
    obtain ⟨i, hi, rfl⟩ := Option.map_eq_some_iff.1 hq
    rw [hrises.2 i hi]
    exact percentOf_zero hn
  · rw [List.pairwise_map]
    exact hrises.1.imp_of_mem fun _ hj hij => percentOf_below h hij (hle _ hj)

theorem percentOf_below_hundred {i n : Nat} (h : n < pow10 precision) (hi : i < n) :
    (percentOf i n).Below (.ofNat 100) := by
  obtain ⟨x, y, hx, hy, hlt⟩ := percentOf_below h hi (Nat.le_refl n)
  rw [value?_percentOf_self h] at hy
  exact ⟨x, y, hx, hy, hlt⟩

/-- The whole is reported at the end of a scan that succeeds, and nowhere else. -/
def Outcome.Tops : Outcome → List Decimal → Prop
  | .ok _, ps => ∃ before last, ps = before ++ [last] ∧ last.value? = some 100 ∧
      ∀ p ∈ before, p.Below (.ofNat 100)
  | .error _, ps => ∀ p ∈ ps, p.Below (.ofNat 100)

namespace Scan

theorem below_hundred (hl : e.length < pow10 precision) (he : e ≠ []) {p : Decimal}
    (hp : p ∈ percents (ready rules e).reports) : p.Below (.ofNat 100) := by
  rw [percents_reports rules he] at hp
  rcases List.mem_cons.1 hp with rfl | hp
  · rw [← percentOf_zero (List.length_pos_of_ne_nil he)]
    exact percentOf_below_hundred hl (List.length_pos_of_ne_nil he)
  · obtain ⟨i, hi, rfl⟩ := List.mem_map.1 hp
    exact percentOf_below_hundred hl (lt_of_mem_steps he hi)

theorem climbs_run (hl : e.length < pow10 precision) (he : e ≠ []) :
    Climbs (percents (ready rules e).run.1) := by
  rw [percents_run he]
  refine climbs_percentOf hl (List.length_pos_of_ne_nil he) (rises_steps rules he) fun i hi => ?_
  rcases List.mem_append.1 hi with hi | hi
  · exact Nat.le_of_lt (lt_of_mem_steps he hi)
  · revert hi
    cases (ready rules e).run.2 with
    | ok ps => exact fun hi => Nat.le_of_eq (List.mem_singleton.1 hi)
    | error f => exact fun hi => by cases hi

theorem tops_run (hl : e.length < pow10 precision) (he : e ≠ []) :
    (ready rules e).run.2.Tops (percents (ready rules e).run.1) := by
  have hbelow (p : Decimal) (hp : p ∈ percents (ready rules e).reports) : p.Below (.ofNat 100) :=
    below_hundred hl he hp
  rw [percents_reports rules he] at hbelow
  rw [percents_run he]
  cases (ready rules e).run.2 with
  | ok ps =>
    refine ⟨_, percentOf e.length e.length, ?_, value?_percentOf_self hl, hbelow⟩
    rw [List.map_append, List.cons_append]
    rfl
  | error f =>
    rw [Outcome.mark, List.append_nil]
    exact hbelow

theorem percents_run_nil (rules : Rules) : percents (ready rules []).run.1 = [.ofNat 100] := by
  have hr : (ready rules []).resume = ([.started, .progress (.ofNat 100)], .finished (.ok [])) :=
    rfl
  rw [run_of_finished hr]
  rfl

theorem take_run (he : e ≠ []) {k : Nat} (hk : k < (ready rules e).run.1.length) :
    (ready rules e).run.1.take k = (ready rules e).reports.take k := by
  have hrun := run_ready rules he
  have hlen : k < (ready rules e).reports.length := by
    rwa [hrun, length_modifyLast] at hk
  rw [hrun]
  exact take_modifyLast _ hlen

theorem percents_prefix {nss nss' : List (List Notice)} (h : nss <+: nss') :
    percents nss <+: percents nss' := h.flatten.filterMap _

theorem ended_notMem_reports (s : Scan) (count : Nat) : ∀ ns ∈ s.reports, .ended count ∉ ns := by
  have hreport (s : Scan) : .ended count ∉ s.report := by
    cases s with
    | ready => simp [report]
    | suspended rules e l outer => cases outer <;> simp [report]
  intro ns hns
  rcases List.mem_cons.1 hns with rfl | hns
  · exact hreport s
  · obtain ⟨t, -, rfl⟩ := List.mem_map.1 hns
    exact hreport t

end Scan

/-- However a scan goes, its percentages start at 0 and climb from 0 again; only the end of a scan
that succeeds reports the whole, once. A scan that is cancelled in place of a resumption has
reported what its earlier resumptions report, nothing of its end among it, and has no outcome;
after its end it is too late to cancel it. The empty expression is reported as done at once. -/
theorem progress_contract (rules : Rules) {e : List Char} (hl : e.length < pow10 precision) :
    percents (Scan.ready rules []).run.1 = [.ofNat 100] ∧
      (e ≠ [] → Climbs (percents (Scan.ready rules e).run.1) ∧
        (Scan.ready rules e).run.2.Tops (percents (Scan.ready rules e).run.1) ∧
        ∀ k, (k < (Scan.ready rules e).run.1.length →
            (Scan.ready rules e).runCancelled k =
              ((Scan.ready rules e).run.1.take k ++ [[]], .cancelled) ∧
            Climbs (percents ((Scan.ready rules e).runCancelled k).1) ∧
            (∀ p ∈ percents ((Scan.ready rules e).runCancelled k).1, p.Below (.ofNat 100)) ∧
            ∀ ns ∈ ((Scan.ready rules e).runCancelled k).1, ∀ count, .ended count ∉ ns) ∧
          ((Scan.ready rules e).run.1.length ≤ k →
            (Scan.ready rules e).runCancelled k =
              ((Scan.ready rules e).run.1, .ended (Scan.ready rules e).run.2))) := by
  refine ⟨Scan.percents_run_nil rules, fun he =>
    ⟨Scan.climbs_run hl he, Scan.tops_run hl he, fun k => ⟨fun hk => ?_, fun hk => ?_⟩⟩⟩
  · have hcancelled := (Scan.ready rules e).runCancelled_eq k
    rw [if_pos hk] at hcancelled
    have hsame : percents ((Scan.ready rules e).run.1.take k ++ [[]]) =
        percents ((Scan.ready rules e).run.1.take k) := by
      simp [percents]
    rw [hcancelled]
    refine ⟨rfl, ?_, ?_, ?_⟩
    · rw [hsame]
      exact (Scan.climbs_run hl he).initial (Scan.percents_prefix (List.take_prefix k _))
    · rw [hsame, Scan.take_run he hk]
      intro p hp
      exact Scan.below_hundred hl he
        ((Scan.percents_prefix (List.take_prefix k _)).subset hp)
    · rw [Scan.take_run he hk]
      intro ns hns count
      rcases List.mem_append.1 hns with hns | hns
      · exact (Scan.ready rules e).ended_notMem_reports count ns (List.mem_of_mem_take hns)
      · rw [List.mem_singleton.1 hns]
        exact List.not_mem_nil
  · rw [Scan.runCancelled_eq, if_neg (Nat.not_lt.2 hk)]

theorem progress_contract_call :
    percents (Scan.ready default ['f', '(', 'x', ')']).run.1 =
        [.ofNat 0, .ofNat 0, .ofNat 25, .ofNat 100] ∧
      Climbs [.ofNat 0, .ofNat 0, .ofNat 25, .ofNat 100] ∧
      2 < (Scan.ready default ['f', '(', 'x', ')']).run.1.length ∧
      (Scan.ready default ['f', '(', 'x', ')']).runCancelled 2 =
        ((Scan.ready default ['f', '(', 'x', ')']).run.1.take 2 ++ [[]], .cancelled) := by
  have hl : ['f', '(', 'x', ')'].length < pow10 precision := by decide
  have hk : 2 < (Scan.ready default ['f', '(', 'x', ')']).run.1.length := by decide +kernel
  have hrun : percents (Scan.ready default ['f', '(', 'x', ')']).run.1 =
      [.ofNat 0, .ofNat 0, .ofNat 25, .ofNat 100] := by decide +kernel
  obtain ⟨hclimbs, -, hcancelled⟩ := (progress_contract default hl).2 (List.cons_ne_nil _ _)
  exact ⟨hrun, hrun ▸ hclimbs, hk, ((hcancelled 2).1 hk).1⟩

end PartScan
