import PartScan.Scan.Trace

/-! # Invariants of a scan

A property of the stack of levels that each single step keeps holds wherever a scan is suspended,
where it ends, and where it is refused.
-/

namespace PartScan

/-- A property of a stack of levels that is kept by reading a word character, by skipping any
other one, by entering a group and by leaving one. -/
structure Kept (rules : Rules) (I : Level → List Level → Prop) : Prop where
  read : ∀ {l outer c rest}, I l outer → l.remaining = c :: rest → c ≠ '(' →
    isWordChar rules.quote c = true → I (l.read c) outer
  skip : ∀ {l outer c rest}, I l outer → l.remaining = c :: rest → c ≠ '(' →
    isWordChar rules.quote c = false → I (l.skip rules.quote) outer
  enter : ∀ {l outer rest k}, I l outer → l.remaining = '(' :: rest →
    rules.pairing.closing l.remaining = some k → outer.length < rules.maxDepth →
    I (l.group k) (l.passGroup k :: outer)
  leave : ∀ {l m outer}, I l (m :: outer) → l.remaining = [] →
    I (m.takeParts (l.endWord rules.quote).parts) outer

/-- Why the parenthesis in front of a level cannot be entered. -/
inductive Refused (rules : Rules) (e : List Char) (l : Level) (outer : List Level) : Fault → Prop
  | unclosed (h : rules.pairing.closing l.remaining = none) :
      Refused rules e l outer (.unclosed e (some l.offset) none)
  | tooDeep {k : Nat} (hk : rules.pairing.closing l.remaining = some k)
      (hd : rules.maxDepth ≤ outer.length) :
      Refused rules e l outer (.tooDeep e l.offset rules.maxDepth)

/-- The parts were collected by a stack with the property whose last level has ended. -/
def EndsWith (rules : Rules) (I : Level → List Level → Prop) (ps : List Part) : Prop :=
  ∃ l, I l [] ∧ l.remaining = [] ∧ ps = (l.endWord rules.quote).parts

/-- The fault was found in a stack with the property. -/
def FailsWith (rules : Rules) (e : List Char) (I : Level → List Level → Prop) (f : Fault) : Prop :=
  ∃ l outer rest, I l outer ∧ l.remaining = '(' :: rest ∧ Refused rules e l outer f

variable {rules : Rules} {e : List Char} {I : Level → List Level → Prop}

/-- Where the steps up to the next suspension point lead, for a stack with the property. -/
def Advance.Meets (rules : Rules) (e : List Char) (I : Level → List Level → Prop) :
    Advance → Prop
  | .suspended l outer => I l outer
  | .finished ps => EndsWith rules I ps
  | .failed f => FailsWith rules e I f

theorem Kept.advance_meets (hI : Kept rules I) {l : Level} {outer : List Level} (h : I l outer) :
    (advance rules e l outer).Meets rules e I := by
  fun_induction advance rules e l outer with
  | case1 l hr => exact ⟨l, h, hr, rfl⟩
  | case2 l hr parts m outer => exact hI.leave h hr
  | case3 l outer rest hc hr => exact ⟨l, outer, rest, h, hr, .unclosed hc⟩
  | case4 l outer rest k hk hd hr =>
    exact ⟨l, outer, rest, h, hr, .tooDeep hk (by omega)⟩
  | case5 l outer rest k hk hd hr ih => exact ih (hI.enter h hr hk (by omega))
  | case6 l outer c rest hr hc hw => exact hI.read h hr hc hw
  | case7 l outer c rest hr hc hw => exact hI.skip h hr hc (by simpa using hw)

/-- The stacks at which the scan of an expression begins and is suspended. -/
inductive Reached (rules : Rules) (e : List Char) : Level → List Level → Prop
  | start : Reached rules e { base := 0, text := e } []
  | next {l l' : Level} {outer outer' : List Level} (h : Reached rules e l outer)
      (ha : advance rules e l outer = .suspended l' outer') : Reached rules e l' outer'

theorem Kept.reached (hI : Kept rules I) (h₀ : I { base := 0, text := e } []) {l : Level}
    {outer : List Level} (h : Reached rules e l outer) : I l outer := by
  induction h with
  | start => exact h₀
  | next _ ha ih =>
    have := hI.advance_meets (e := e) ih
    rwa [ha] at this

/-- How an uninterrupted scan ends, for a stack with the property. -/
def Outcome.Meets (rules : Rules) (e : List Char) (I : Level → List Level → Prop) :
    Outcome → Prop
  | .ok ps => EndsWith rules I ps
  | .error f => FailsWith rules e I f

namespace Scan

/-- The scan belongs to the rules and the expression and has the property where it is suspended. -/
inductive Within (rules : Rules) (e : List Char) (I : Level → List Level → Prop) : Scan → Prop
  | ready : Within rules e I (.ready rules e)
  | suspended {l : Level} {outer : List Level} (h : I l outer) :
      Within rules e I (.suspended rules e l outer)

/-- What a resumption leads to, for a scan with the property. -/
def NextMeets (rules : Rules) (e : List Char) (I : Level → List Level → Prop) : Next → Prop
  | .suspended s => Within rules e I s
  | .finished o => o.Meets rules e I

theorem settle_meets {a : Advance} (h : a.Meets rules e I) :
    NextMeets rules e I (settle rules e a).2 := by
  cases a with
  | suspended l outer => exact .suspended h
  | finished ps => exact h
  | failed f => exact h

theorem Within.resume (hI : Kept rules I) (h₀ : I { base := 0, text := e } []) {s : Scan}
    (h : Within rules e I s) : NextMeets rules e I s.resume.2 := by
  cases h with
  | ready =>
    rw [Scan.resume]
    split
    · rename_i he
      subst he
      exact ⟨_, h₀, rfl, rfl⟩
    · exact settle_meets (hI.advance_meets h₀)
  | suspended h => exact settle_meets (hI.advance_meets h)

theorem Within.run (hI : Kept rules I) (h₀ : I { base := 0, text := e } []) {s : Scan}
    (h : Within rules e I s) : s.run.2.Meets rules e I := by
  fun_induction Scan.run s with
  | case1 s ns o hr => simpa [hr, NextMeets] using h.resume hI h₀
  | case2 s ns t hr rest o ho ih =>
    have ht : Within rules e I t := by simpa [hr, NextMeets] using h.resume hI h₀
    simpa only [ho] using ih ht

end Scan

theorem Kept.tokenize_meets (hI : Kept rules I) (h₀ : I { base := 0, text := e } []) :
    (tokenize rules e).Meets rules e I :=
  Scan.Within.ready.run hI h₀

end PartScan
