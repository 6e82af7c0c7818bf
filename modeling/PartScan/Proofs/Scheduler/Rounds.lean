import PartScan.Proofs.Scheduler.Lineup
import PartScan.Proofs.Scheduler.Membership

/-! # Rounds of jobs

Jobs that are started before any of them has a step have their steps round by round, in each round
in the order of their starts, where delays let no time pass and nothing is cancelled. A job that
needs no more steps than one started after it ends before it.
-/

namespace PartScan

/-- The jobs that the given moves start, each with all resumptions of its solo trace. -/
def soloLine (rules : Rules) (starts : List Move) : List (Nat × List (List Event)) :=
  (starts.flatMap Move.started).mapIdx fun i e => (i, trace rules e)

section SoloLine

variable {rules : Rules} {starts : List Move} {i : Nat} {e : List Char}

theorem getElem?_soloLine (h : (starts.flatMap Move.started)[i]? = some e) :
    (soloLine rules starts)[i]? = some (i, trace rules e) := by
  rw [soloLine, List.getElem?_mapIdx, h]
  rfl

theorem exists_of_getElem?_soloLine {item : Nat × List (List Event)}
    (h : (soloLine rules starts)[i]? = some item) :
    ∃ e, (starts.flatMap Move.started)[i]? = some e ∧ (i, trace rules e) = item := by
  rw [soloLine, List.getElem?_mapIdx] at h
  exact Option.map_eq_some_iff.1 h

theorem numbered_soloLine (rules : Rules) (starts : List Move) :
    Numbered (soloLine rules starts) := by
  intro n item h
  obtain ⟨e, -, rfl⟩ := exists_of_getElem?_soloLine h
  rfl

theorem soloLine_ne_nil (rules : Rules) (starts : List Move) :
    ∀ item ∈ soloLine rules starts, item.2 ≠ [] := by
  intro item h
  obtain ⟨i, hi⟩ := List.mem_iff_getElem?.1 h
  obtain ⟨e, -, rfl⟩ := exists_of_getElem?_soloLine hi
  exact List.cons_ne_nil _ _

end SoloLine

namespace Scheduler

variable {s s' : Scheduler} {i k : Nat} {m : Move} {ms : List Move}

/-- The jobs in line are in the middle of a round, and the sink was given what was said so far. -/
def InRound (s : Scheduler) (line : List (Nat × List (List Event))) : Prop :=
  ∃ r had yet, Midway line s.deliveries s.lineup r had yet

theorem Rotates.inRound {line : List (Nat × List (List Event))} (h : Rotates s m)
    (hround : InRound s line) : InRound (s.move m) line := by
  obtain ⟨r, had, yet, hmid⟩ := hround
  cases h with
  | rests hl hd => exact ⟨r, had, yet, by rwa [hl, hd]⟩
  | turns hl hl' hd =>
    rw [hl] at hmid
    obtain ⟨r, had, turns, yet, hdrop, hmid⟩ := hmid.head
    exact ⟨r, _, yet, by rw [hl', hd]; exact hmid.turn hdrop⟩

/-- Nothing but the starts of its jobs has happened to a scheduler. -/
structure Fresh (s : Scheduler) : Prop where
  deliveries : s.deliveries = []
  line : s.line = List.range s.jobs.length
  created : ∀ j ∈ s.jobs, j.stage = .created

theorem Fresh.move (hf : Fresh s) (h : Shift s m) (hr : ∀ i, s.resumes i m = false) :
    Fresh (s.move m) := by
  cases h with
  | @starts e he =>
    subst he
    refine ⟨?_, ?_, ?_⟩
    · show (s.journal ++ [Entry.scheduled s.jobs.length e]).filterMap Entry.delivery? = []
      rw [List.filterMap_append]
      exact (List.append_nil _).trans hf.deliveries
    · show (s.queue ++ [Handle.step s.jobs.length]).filterMap Handle.step? =
        List.range (s.jobs ++ [({ expression := e } : Job)]).length
      rw [List.filterMap_append, List.length_append, List.length_singleton, List.range_succ,
        ← hf.line]
      rfl
    · intro j hj
      have hj' : j ∈ s.jobs ++ [({ expression := e } : Job)] := hj
      rcases List.mem_append.1 hj' with hj | hj
      · exact hf.created j hj
      · rw [List.mem_singleton.1 hj]
  | rests _ hl hj hd =>
    have hlength := congrArg List.length hj
    rw [List.length_map, List.length_map] at hlength
    refine ⟨hd.trans hf.deliveries, by rw [hl, hf.line, hlength], ?_⟩
    intro j' hj'
    obtain ⟨j, hmem, hbare⟩ := List.mem_map.1 (hj ▸ List.mem_map_of_mem hj')
    exact (congrArg Job.stage hbare).symm.trans (hf.created j hmem)
  | @steps i j j' es line hr' =>
    rw [hr i] at hr'
    cases hr'

theorem Fresh.moves (hf : Fresh s) (h : Awake s) (hms : ∀ m ∈ ms, m.cancels = false)
    (hr : ∀ i, resumptions i s ms = []) : Fresh (s.moves ms) := by
  induction ms generalizing s with
  | nil => exact hf
  | cons m ms ih =>
    obtain ⟨hm, hms⟩ := List.forall_mem_cons.1 hms
    have hresumes (i : Nat) : s.resumes i m = false ∧ resumptions i (s.move m) ms = [] := by
      have hi := List.append_eq_nil_iff.1 (hr i)
      refine ⟨Bool.eq_false_iff.2 fun htrue => ?_, hi.2⟩
      rw [if_pos htrue] at hi
      exact List.cons_ne_nil _ _ hi.1
    exact ih (hf.move (h.shift hm) fun i => (hresumes i).1) (h.move hm) hms fun i => (hresumes i).2

theorem Fresh.lineup_eq (hf : Fresh s) :
    s.lineup = (s.jobs.map Job.expression).mapIdx fun i e => (i, trace s.settings.rules e) := by
  apply List.ext_getElem?
  intro i
  rw [lineup, hf.line, List.getElem?_map, List.getElem?_mapIdx, List.getElem?_map]
  cases hj : s.jobs[i]? with
  | none =>
    rw [List.getElem?_eq_none (by simpa using hj)]
    rfl
  | some j =>
    obtain ⟨hlt, rfl⟩ := List.getElem?_eq_some_iff.1 hj
    rw [List.getElem?_range hlt, Option.map_some, restOf_eq hj, Job.rest,
      hf.created _ (List.getElem_mem hlt)]
    rfl

section Batch

variable {settings : Settings} {sink : Sink} {starts rest : List Move}
  {e e' : List Char}

/-- A run that first starts jobs and then lets them run: no job has a step among the starts, nothing
is started after them, no job is cancelled, no event is refused, and delays let no time pass. -/
structure Batch (settings : Settings) (sink : Sink) (starts rest : List Move) : Prop where
  due : settings.dueTime.isPositive = false
  step : settings.stepDelay.isPositive = false
  accepts : ∀ before ev, sink.refuses before ev = none
  fresh : ∀ i, resumptions i (initial settings sink) starts = []
  started : ∀ m ∈ rest, m.started = []
  spared : ∀ m ∈ starts ++ rest, m.cancels = false

namespace Batch

theorem awake (h : Batch settings sink starts rest) :
    Awake (after settings sink (starts ++ rest)) :=
  (awake_initial h.due h.step h.accepts).moves h.spared

theorem shorter {before : List Move} (h : Batch settings sink starts rest)
    (hpre : before <+: rest) : Batch settings sink starts before := by
  refine ⟨h.due, h.step, h.accepts, h.fresh, fun m hm => h.started m (hpre.subset hm), ?_⟩
  intro m hm
  refine h.spared m ?_
  exact (List.mem_append.1 hm).elim (List.mem_append_left _) fun hm =>
    List.mem_append_right _ (hpre.subset hm)

theorem rotates {m : Move} (h : Batch settings sink starts (rest ++ [m])) :
    Rotates (after settings sink (starts ++ rest)) m := by
  have hbatch := h.shorter (List.prefix_append rest [m])
  exact hbatch.awake.rotates (h.spared m (by simp)) (h.started m (by simp))

theorem lineup_starts (h : Batch settings sink starts rest) :
    (after settings sink starts).deliveries = [] ∧ (after settings sink starts).lineup =
      soloLine settings.rules starts := by
  have hawake := awake_initial h.due h.step h.accepts
  have hinitial : Fresh (initial settings sink) := ⟨rfl, rfl, by simp [initial]⟩
  have hfresh : Fresh (after settings sink starts) :=
    hinitial.moves hawake (fun m hm => h.spared m (List.mem_append_left _ hm)) h.fresh
  refine ⟨hfresh.deliveries, ?_⟩
  rw [hfresh.lineup_eq, expressions_after, settings_after, soloLine]

theorem inRound (h : Batch settings sink starts rest) :
    InRound (after settings sink (starts ++ rest)) (soloLine settings.rules starts) := by
  induction rest using List.reverseRecOn with
  | nil =>
    obtain ⟨hnil, hline⟩ := h.lineup_starts
    rw [List.append_nil]
    exact ⟨0, [], _, by rw [hnil, hline]; exact .begins (soloLine_ne_nil _ _)⟩
  | append_singleton rest m ih =>
    rw [← List.append_assoc, after_concat]
    exact h.rotates.inRound (ih (h.shorter (List.prefix_append _ _)))

theorem deliveries_of_finished (h : Batch settings sink starts rest)
    (hall : ∀ j ∈ (after settings sink (starts ++ rest)).jobs, j.isFinished = true) :
    (after settings sink (starts ++ rest)).deliveries =
      rounds (soloLine settings.rules starts) := by
  have hline : (after settings sink (starts ++ rest)).line = [] := by
    apply List.eq_nil_iff_forall_not_mem.2
    intro i hi
    obtain ⟨j, hj, hf⟩ := h.awake.job hi
    rw [hall j (List.mem_of_getElem? hj)] at hf
    cases hf
  obtain ⟨r, had, yet, hmid⟩ := h.inRound
  exact hmid.ended (by rw [lineup, hline, List.map_nil])

/-- A batch is run to its end by the scheduler itself. -/
theorem drain (h : Batch settings sink starts rest) :
    ∃ more, (after settings sink (starts ++ rest)).drain =
        after settings sink (starts ++ (rest ++ more)) ∧
      Batch settings sink starts (rest ++ more) ∧
        ∀ j ∈ (after settings sink (starts ++ (rest ++ more))).jobs, j.isFinished = true := by
  obtain ⟨more, hown, hmore⟩ := exists_moves_runUntil (fun s => s.active.isEmpty)
    (after settings sink (starts ++ rest))
  have hdrain : (after settings sink (starts ++ rest)).drain =
      after settings sink (starts ++ (rest ++ more)) := by
    rw [← List.append_assoc]
    exact hmore.symm.trans (moves_append _ _ _).symm
  have hbatch : Batch settings sink starts (rest ++ more) := by
    refine ⟨h.due, h.step, h.accepts, h.fresh, ?_, ?_⟩
    · intro m hm
      rcases List.mem_append.1 hm with hm | hm
      · exact h.started m hm
      · exact Move.started_of_isOwn (hown m hm)
    · intro m hm
      rw [← List.append_assoc] at hm
      rcases List.mem_append.1 hm with hm | hm
      · exact h.spared m hm
      · exact Move.cancels_of_isOwn (hown m hm)
  refine ⟨more, hdrain, hbatch, ?_⟩
  intro j hmem
  by_contra hgoes
  obtain ⟨i, hlt, hget⟩ := List.getElem_of_mem hmem
  have hj := (List.getElem?_eq_getElem hlt).trans (congrArg some hget)
  have hf : j.isFinished = false := Bool.eq_false_iff.2 hgoes
  rcases runUntil_stops (fun s => s.active.isEmpty) (after settings sink (starts ++ rest))
    with hstop | hstop
  · have hact := ((tracked_after settings sink _).of_unfinished hj hf).1
    rw [← hdrain] at hact
    rw [Scheduler.drain, List.isEmpty_iff.1 hstop] at hact
    cases hact
  · have hline := hbatch.awake.mem_line hj hf
    rw [← hdrain, line, Scheduler.drain, queue_of_turn?_eq_none hstop] at hline
    cases hline

/-- A start makes a job that stays with its number. -/
theorem exists_job (hi : (starts.flatMap Move.started)[i]? = some e) (settings : Settings)
    (sink : Sink) (more : List Move) :
    ∃ j, (after settings sink (starts ++ more)).jobs[i]? = some j ∧ j.expression = e := by
  have hexpressions := congrArg (·[i]?) (expressions_after settings sink (starts ++ more))
  have hlt := (List.getElem?_eq_some_iff.1 hi).1
  rw [List.getElem?_map, List.flatMap_append, List.getElem?_append_left hlt, hi] at hexpressions
  exact Option.map_eq_some_iff.1 hexpressions

theorem mem_line_iff (h : Batch settings sink starts rest)
    (hi : (starts.flatMap Move.started)[i]? = some e) :
    i ∈ (after settings sink (starts ++ rest)).line ↔
      (after settings sink (starts ++ rest)).outcome i = none := by
  obtain ⟨j, hj, -⟩ := exists_job hi settings sink rest
  exact h.awake.mem_line_iff (List.getElem?_eq_some_iff.1 hj).1

/-- A job ends at a moment at which a later one that needs no fewer resumptions has not ended. -/
theorem ends_before (h : Batch settings sink starts rest) (hik : i < k)
    (hi : (starts.flatMap Move.started)[i]? = some e)
    (hk : (starts.flatMap Move.started)[k]? = some e')
    (hle : (trace settings.rules e).length ≤ (trace settings.rules e').length)
    (hend : (after settings sink (starts ++ rest)).outcome k ≠ none) :
    ∃ before, before <+: rest ∧ (after settings sink (starts ++ before)).outcome i ≠ none ∧
      (after settings sink (starts ++ before)).outcome k = none := by
  induction rest using List.reverseRecOn with
  | nil =>
    have hmem : k ∈ (after settings sink starts).line := by
      rw [← map_fst_lineup, h.lineup_starts.2]
      exact List.mem_map.2 ⟨_, List.mem_of_getElem? (getElem?_soloLine hk), rfl⟩
    rw [ne_eq, ← h.mem_line_iff hk, List.append_nil] at hend
    exact absurd hmem hend
  | append_singleton rest m ih =>
    have hbatch := h.shorter (List.prefix_append rest [m])
    by_cases hk' : (after settings sink (starts ++ rest)).outcome k = none
    · -- the last move ends the later job, so the other one has ended before
      refine ⟨rest, List.prefix_append _ _, ?_, hk'⟩
      obtain ⟨r, had, yet, hmid⟩ := h.inRound
      have hgone := hmid.gone (numbered_soloLine _ _) hik (getElem?_soloLine hi)
        (getElem?_soloLine hk) hle
      rw [map_fst_lineup] at hgone
      have hk₁ := hend ∘ (h.mem_line_iff hk).1
      have hi₁ := hgone hk₁
      rw [← List.append_assoc, after_concat] at hk₁ hi₁
      intro hi'
      rw [← hbatch.mem_line_iff hi] at hi'
      rw [← hbatch.mem_line_iff hk] at hk'
      exact Nat.ne_of_lt hik (h.rotates.leaves hi' hk' hi₁ hk₁)
    · obtain ⟨before, hpre, hbefore⟩ := ih hbatch hk'
      exact ⟨before, hpre.trans (List.prefix_append _ _), hbefore⟩

theorem completed {vs : List Part} (h : Batch settings sink starts rest)
    (hi : (starts.flatMap Move.started)[i]? = some e)
    (hfound : (after settings sink (starts ++ rest)).outcome i = some (.found vs)) :
    variableParts settings.rules e = .ok vs ∧
      (i, .completed e vs) ∈ (after settings sink (starts ++ rest)).deliveries := by
  obtain ⟨j, hj, rfl⟩ := exists_job hi settings sink rest
  rw [outcome, hj, Option.bind_some] at hfound
  have hcompletes := (traced_after settings h.accepts (starts ++ rest) i).completes hj
  have hparts := hcompletes.variableParts_eq hfound
  rw [settings_after] at hparts
  exact ⟨hparts, hcompletes.mem hfound⟩

theorem not_completed (h : Batch settings sink starts rest)
    (hi : (starts.flatMap Move.started)[i]? = some e)
    (hgoes : (after settings sink (starts ++ rest)).outcome i = none) (vs : List Part) :
    (i, .completed e vs) ∉ (after settings sink (starts ++ rest)).deliveries := by
  obtain ⟨j, hj, -⟩ := exists_job hi settings sink rest
  rw [outcome, hj, Option.bind_some] at hgoes
  exact ((traced_after settings h.accepts (starts ++ rest) i).completes hj).not_mem hgoes e vs

theorem outcome_of_ok {vs : List Part} (h : Batch settings sink starts rest)
    (hi : (starts.flatMap Move.started)[i]? = some e)
    (hparts : variableParts settings.rules e = .ok vs)
    (hend : (after settings sink (starts ++ rest)).outcome i ≠ none) :
    (after settings sink (starts ++ rest)).outcome i = some (.found vs) := by
  obtain ⟨j, hj, rfl⟩ := exists_job hi settings sink rest
  rw [outcome, hj, Option.bind_some] at hend ⊢
  refine (traced_after settings h.accepts (starts ++ rest) i).result?_of_ok hj
    (h.awake.spared i j hj).2 ?_ hend
  rw [settings_after, hparts]

/-- Of two jobs on the same expression, the one started first completes first. -/
theorem completes_before {vs : List Part} (h : Batch settings sink starts rest) (hik : i < k)
    (hi : (starts.flatMap Move.started)[i]? = some e)
    (hk : (starts.flatMap Move.started)[k]? = some e)
    (hfound : (after settings sink (starts ++ rest)).outcome k = some (.found vs)) :
    (after settings sink (starts ++ rest)).outcome i = some (.found vs) ∧
      [(i, Event.completed e vs), (k, .completed e vs)].Sublist
        (after settings sink (starts ++ rest)).deliveries := by
  obtain ⟨hparts, hsecond⟩ := h.completed hk hfound
  obtain ⟨before, ⟨more, rfl⟩, hend, hgoes⟩ :=
    h.ends_before hik hi hk (Nat.le_refl _) (by simp [hfound])
  have hbatch := h.shorter (List.prefix_append before more)
  have hfirst := hbatch.outcome_of_ok hi hparts hend
  have hmore : after settings sink (starts ++ (before ++ more)) =
      (after settings sink (starts ++ before)).moves more := by
    rw [← List.append_assoc]
    exact moves_append _ _ _
  have hp := placed_after settings sink (starts ++ before)
  obtain ⟨ds, hds⟩ := deliveries_prefix_moves hp more
  rw [hmore, ← hds] at hsecond
  rw [hmore, ← hds]
  refine ⟨outcome_moves hp hfirst more, ?_⟩
  refine (List.singleton_sublist.2 (hbatch.completed hi hfirst).2).append
    (List.singleton_sublist.2 ?_)
  exact (List.mem_append.1 hsecond).resolve_left (hbatch.not_completed hk hgoes vs)

/-- The resumptions that a job has had and those that it has left are its solo trace. -/
theorem append_restOf (h : Batch settings sink starts rest)
    (hi : (starts.flatMap Move.started)[i]? = some e) :
    resumptions i (initial settings sink) (starts ++ rest) ++
      (after settings sink (starts ++ rest)).restOf i = trace settings.rules e := by
  obtain ⟨j, hj, rfl⟩ := exists_job hi settings sink rest
  have htraced := traced_after settings h.accepts (starts ++ rest) i
  have happend := htraced.append_rest hj (h.awake.spared i j hj)
  rwa [← restOf_eq hj, settings_after] at happend

theorem resumptions_of_ended (h : Batch settings sink starts rest)
    (hi : (starts.flatMap Move.started)[i]? = some e)
    (hend : (after settings sink (starts ++ rest)).outcome i ≠ none) :
    resumptions i (initial settings sink) (starts ++ rest) = trace settings.rules e := by
  obtain ⟨j, hj, -⟩ := exists_job hi settings sink rest
  have hf : j.isFinished = true := by
    rw [ne_eq, outcome_eq_none hj] at hend
    simpa using hend
  rw [← h.append_restOf hi, restOf_eq hj, Job.rest_eq_nil.2 hf, List.append_nil]

/-- A job has its next resumption when the sink has been given the earlier rounds and, of the
present one, the events of the jobs that were started before. -/
theorem deliveries_of_resumes (h : Batch settings sink starts rest)
    (hr : (after settings sink (starts ++ rest)).resumes k .turn = true) :
    (after settings sink (starts ++ rest)).deliveries =
      firstRounds (soloLine settings.rules starts)
          (resumptions k (initial settings sink) (starts ++ rest)).length ++
        round ((soloLine settings.rules starts).take k)
          (resumptions k (initial settings sink) (starts ++ rest)).length := by
  have hq : (after settings sink (starts ++ rest)).queue.head? = some (.step k) := by
    simpa [resumes] using hr
  have hline : (after settings sink (starts ++ rest)).line =
      k :: (after settings sink (starts ++ rest)).popped.line := line_popped hq
  obtain ⟨said, rest', hrest⟩ : ∃ said rest',
      (after settings sink (starts ++ rest)).restOf k = said :: rest' := by
    refine List.exists_cons_of_ne_nil (h.awake.rest_ne_nil (k, _) ?_)
    rw [lineup, hline]
    exact List.mem_cons_self
  obtain ⟨r, had, yet, hmid⟩ := h.inRound
  rw [lineup, hline, List.map_cons, hrest] at hmid
  obtain ⟨r, had, turns, yet, hdrop, hmid⟩ := hmid.head
  have hget : (soloLine settings.rules starts)[had.length]? = some (k, turns) := by
    rw [hmid.split, List.getElem?_append_right (Nat.le_refl _), Nat.sub_self]
    rfl
  obtain rfl : k = had.length := numbered_soloLine _ _ _ _ hget
  obtain ⟨e, he, heq⟩ := exists_of_getElem?_soloLine hget
  obtain rfl : trace settings.rules e = turns := congrArg Prod.snd heq
  have hhad : (soloLine settings.rules starts).take had.length = had := by
    rw [hmid.split, List.take_left]
  have hr : r = (resumptions had.length (initial settings sink) (starts ++ rest)).length := by
    have hleft := congrArg List.length hdrop
    have hall := congrArg List.length (h.append_restOf he)
    rw [List.length_drop, List.length_cons] at hleft
    rw [hrest, List.length_append, List.length_cons] at hall
    omega
  rw [hhad, ← hr, hmid.given]

end Batch

/-- How the jobs of a batch interleave. Each has the resumptions of its solo trace, and the one with
the number `r` when the sink has been given the first `r` rounds of the solo traces and, of the next
one, the events of the jobs started before. So the sink is given round after round, and all of them
once the jobs have ended, to which the scheduler brings them by itself. A job that needs no more
resumptions than a later one ends before it, and jobs on one expression complete in the order of
their starts. -/
structure RoundRobin (settings : Settings) (sink : Sink) (starts rest : List Move) : Prop where
  resumed : ∀ i e, (starts.flatMap Move.started)[i]? = some e →
    resumptions i (initial settings sink) (starts ++ rest) <+: trace settings.rules e ∧
      ((after settings sink (starts ++ rest)).outcome i ≠ none →
        resumptions i (initial settings sink) (starts ++ rest) = trace settings.rules e)
  at_resumption : ∀ k, (after settings sink (starts ++ rest)).resumes k .turn = true →
    (after settings sink (starts ++ rest)).deliveries =
      firstRounds (soloLine settings.rules starts)
          (resumptions k (initial settings sink) (starts ++ rest)).length ++
        round ((soloLine settings.rules starts).take k)
          (resumptions k (initial settings sink) (starts ++ rest)).length
  so_far : (after settings sink (starts ++ rest)).deliveries <+:
    rounds (soloLine settings.rules starts)
  finished : (∀ j ∈ (after settings sink (starts ++ rest)).jobs, j.isFinished = true) →
    (after settings sink (starts ++ rest)).deliveries =
      rounds (soloLine settings.rules starts)
  drained : (after settings sink (starts ++ rest)).drain.deliveries =
      rounds (soloLine settings.rules starts) ∧
    ∀ j ∈ (after settings sink (starts ++ rest)).drain.jobs, j.isFinished = true
  shorter_first : ∀ i k e e', i < k → (starts.flatMap Move.started)[i]? = some e →
    (starts.flatMap Move.started)[k]? = some e' →
    (trace settings.rules e).length ≤ (trace settings.rules e').length →
    (after settings sink (starts ++ rest)).outcome k ≠ none →
    ∃ before, before <+: rest ∧ (after settings sink (starts ++ before)).outcome i ≠ none ∧
      (after settings sink (starts ++ before)).outcome k = none
  same_in_order : ∀ i k e vs, i < k → (starts.flatMap Move.started)[i]? = some e →
    (starts.flatMap Move.started)[k]? = some e →
    (after settings sink (starts ++ rest)).outcome k = some (.found vs) →
    (after settings sink (starts ++ rest)).outcome i = some (.found vs) ∧
      [(i, Event.completed e vs), (k, .completed e vs)].Sublist
        (after settings sink (starts ++ rest)).deliveries

/-- Jobs that are started before any of them has a step run round robin. -/
theorem round_robin (h : Batch settings sink starts rest) :
    RoundRobin settings sink starts rest where
  resumed _ _ hi := ⟨⟨_, h.append_restOf hi⟩, h.resumptions_of_ended hi⟩
  at_resumption _ hr := h.deliveries_of_resumes hr
  so_far := by
    obtain ⟨r, had, yet, hmid⟩ := h.inRound
    exact hmid.so_far
  finished := h.deliveries_of_finished
  drained := by
    obtain ⟨more, hdrain, hbatch, hall⟩ := h.drain
    rw [hdrain]
    exact ⟨hbatch.deliveries_of_finished hall, hall⟩
  shorter_first _ _ _ _ hik hi hk hle hend := h.ends_before hik hi hk hle hend
  same_in_order _ _ _ _ hik hi hk hfound := h.completes_before hik hi hk hfound

theorem round_robin_three :
    let starts : List Move := [.start ['a'], .start ['f', '(', 'a', ')'], .start ['a']]
    let rest : List Move := .wait 1 none :: List.replicate 20 .turn
    let s := after default default (starts ++ rest)
    Batch default default starts rest ∧
      s.jobs.map Job.result? = [some (.found [⟨.var, 0, 1, ['a']⟩]),
        some (.found [⟨.var, 2, 3, ['a']⟩]), some (.found [⟨.var, 0, 1, ['a']⟩])] ∧
      s.deliveries = rounds (soloLine (default : Settings).rules starts) ∧
      [(0, Event.completed ['a'] [⟨.var, 0, 1, ['a']⟩]),
        (2, .completed ['a'] [⟨.var, 0, 1, ['a']⟩])].Sublist s.deliveries := by
  intro starts rest s
  have hbatch : Batch default default starts rest := by
    refine ⟨by decide +kernel, by decide +kernel, fun _ _ => rfl, fun i => rfl, ?_, ?_⟩
    · decide +kernel
    · decide +kernel
  have hrun := round_robin hbatch
  refine ⟨hbatch, by decide +kernel, ?_, ?_⟩
  · exact hrun.finished (by decide +kernel)
  · exact (hrun.same_in_order 0 2 ['a'] _ (by decide) rfl rfl (by decide +kernel)).2

end Batch

end Scheduler

end PartScan
