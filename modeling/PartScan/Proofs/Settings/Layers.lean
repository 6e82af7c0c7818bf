import PartScan.Proofs.Settings.Check
import PartScan.Settings.Layers

/-! # Settings in layers

Loaded settings have each field from the environment, else from the document, else its default. The
layers are checked apart: what is wrong in one is reported as if the other were not there.
-/

namespace PartScan

open Yaml (Document)

def Yaml.Value.entries? : Yaml.Value → Option (List (Option (List Char) × Yaml.Node))
  | .mapping es => some es
  | .scalar _ | .list _ | .set _ => none

/-- The items at the top of a document. What counts as nothing has none, any other value but a
mapping does not hold items at all. -/
def Yaml.Document.items? (d : Document) : Option (List (Option (List Char) × Item)) :=
  if (d.value d.root).isVoid then some []
  else (d.value d.root).entries?.map fun es => es.map fun e => (e.1, d.item e.2)

/-- The items of the document at a path. Where no document is there are none. -/
inductive Holds (look : List Char → Source) :
    Option (List Char) → List (Option (List Char) × Item) → Prop
  | unnamed : Holds look none []
  | empty : Holds look (some []) []
  | missing {c : Char} {cs : List Char} (h : look (c :: cs) = .missing) :
    Holds look (some (c :: cs)) []
  | file {c : Char} {cs : List Char} {bytes : ByteArray} {text : String} {d? : Option Document}
    {items : List (Option (List Char) × Item)} (h : look (c :: cs) = .file bytes)
    (htext : String.fromUTF8? bytes = some text)
    (hread : Document.read (unifyBreaks text.toList) = .ok d?)
    (hitems : d?.elim (some []) Document.items? = some items) : Holds look (some (c :: cs)) items

/-- The entries of settings: those under `extraction` if entries are there, those of the whole
otherwise. -/
inductive Sectioned (items : List (Option (List Char) × Item)) : Entries → Prop
  | inner {es : Entries} (h : lookupLast "extraction".toList items = some (.entries es)) :
    Sectioned items es
  | whole (h : ∀ es, lookupLast "extraction".toList items ≠ some (.entries es)) :
    Sectioned items (items.map fun e => (e.1, e.2.given))

namespace Settings

/-- The values that entries give to the fields. -/
def ofNames (es : Entries) : Field → Option Given := fun f => lookupLast f.name es

/-- The values that the variables of an environment give to the fields. -/
def ofVariables (env : List Char → Option (List Char)) : Field → Option Given :=
  fun f => (env f.variable).map .text

/-- What comes of the values `upper` put over the values `lower`. -/
structure Layered (lower upper : Field → Option Given) (r : Except LoadError Settings) : Prop where
  lower_refused : invalid lower ≠ [] → r = .error (.refused (invalid lower))
  upper_refused : invalid lower = [] → invalid upper ≠ [] → r = .error (.refused (invalid upper))
  accepted : invalid lower = [] → invalid upper = [] →
    ∃ s, r = .ok s ∧ ∀ f : Field, (upper f).elim (f.checked (lower f)) f.read = .ok (s.toGiven f)

section Load

variable {look : List Char → Source} {path : Option (List Char)}
  {items : List (Option (List Char) × Item)} {es : Entries}
  {env : List Char → Option (List Char)}

theorem sectioned_sectionOf (items : List (Option (List Char) × Item)) :
    Sectioned items (sectionOf items) := by
  unfold sectionOf
  split
  case h_1 hinner => exact .inner hinner
  case h_2 hwhole => exact .whole hwhole

theorem sectionOf_eq (h : Sectioned items es) : sectionOf items = es := by
  unfold sectionOf
  cases h with
  | inner h => rw [h]
  | whole h =>
    split
    · exact absurd ‹_› (h _)
    · rfl

theorem settings_of_items {d : Document} (h : d.items? = some items) :
    d.settings = ofEntries (sectionOf items) := by
  unfold Document.items? at h
  unfold Document.settings
  by_cases hvoid : (d.value d.root).isVoid = true
  case pos =>
    rw [if_pos hvoid] at h
    cases h
    cases hvalue : d.value d.root with
    | mapping es =>
      rw [hvalue] at hvoid
      have hes : es = [] := List.isEmpty_iff.1 hvoid
      rw [hes]
      rfl
    | scalar s => exact if_pos (hvalue ▸ hvoid)
    | list ns => exact if_pos (hvalue ▸ hvoid)
    | set ns => exact if_pos (hvalue ▸ hvoid)
  case neg =>
    rw [if_neg hvoid] at h
    cases hvalue : d.value d.root <;> rw [hvalue] at h <;> cases h
    rfl

theorem ofPath_of_holds (h : Holds look path items) :
    ofPath look path = ofEntries (sectionOf items) := by
  cases h with
  | unnamed => rfl
  | empty => rfl
  | missing h => simp only [ofPath, h]; rfl
  | @file _ _ _ _ d? _ h htext hread hitems =>
    simp only [ofPath, h, htext, ofText, hread]
    cases d? with
    | none =>
      cases hitems
      rfl
    | some d => exact settings_of_items hitems

theorem ofEntries_of_named (h : ∀ e ∈ es, e.1 ≠ none) :
    ofEntries es = (check (ofNames es)).mapError .refused := by
  have hany : ¬ (es.any fun e => e.1.isNone) = true := by
    intro hany
    obtain ⟨e, he, hnone⟩ := List.any_eq_true.1 hany
    exact h e he (Option.isNone_iff_eq_none.1 hnone)
  exact if_neg hany

theorem ofPath_eq_check (hholds : Holds look path items) (hsection : Sectioned items es)
    (hnames : ∀ e ∈ es, e.1 ≠ none) :
    ofPath look path = (check (ofNames es)).mapError .refused := by
  rw [ofPath_of_holds hholds, sectionOf_eq hsection, ofEntries_of_named hnames]

theorem load_of_ofPath {s : Settings} (h : ofPath look path = .ok s) :
    load look env path = (s.override fun f => env f.variable).mapError .refused := by
  rw [load, h]
  rfl

theorem layered_load (h : ofPath look path = (check (ofNames es)).mapError .refused) :
    Layered (ofNames es) (ofVariables env) (load look env path) where
  lower_refused hlower := by
    rw [load, h, check_of_invalid hlower]
    rfl
  upper_refused hlower hupper := by
    obtain ⟨s, hs, -⟩ := check_of_valid hlower
    rw [hs] at h
    rw [load_of_ofPath h, override_of_invalid hupper]
    rfl
  accepted hlower hupper := by
    obtain ⟨s, hs, hfields⟩ := check_of_valid hlower
    obtain ⟨t, ht, hfields'⟩ := override_of_valid hupper
    rw [hs] at h
    refine ⟨t, by rw [load_of_ofPath h, ht]; rfl, fun f => ?_⟩
    rw [hfields f]
    exact hfields' f

/-- Loaded settings are those of the layers. No other layer has a part in the problems of one, and
settings are never refused again; entries that give the fields the same values load the same. -/
theorem load_layered (hholds : Holds look path items) (hsection : Sectioned items es)
    (hnames : ∀ e ∈ es, e.1 ≠ none) :
    Layered (ofNames es) (ofVariables env) (load look env path) ∧
      (∀ given, (invalid given).map Prod.fst =
        Field.all.filter fun f => (f.problem? (given f)).isSome) ∧
      (∀ s : Settings, check (fun f => some (s.toGiven f)) = .ok s) ∧
      ∀ look' path' items' es', Holds look' path' items' → Sectioned items' es' →
        (∀ e ∈ es', e.1 ≠ none) → ofNames es' = ofNames es →
        load look' env path' = load look env path := by
  have hcheck := ofPath_eq_check hholds hsection hnames
  refine ⟨layered_load hcheck, map_fst_invalid, check_toGiven, ?_⟩
  rintro look' path' items' es' hholds' hsection' hnames' hsame
  have hcheck' := ofPath_eq_check hholds' hsection' hnames'
  rw [load, load, hcheck, hcheck', hsame]

/-- A depth and a delay from the environment over a section with a quote and a depth of its own. -/
theorem load_layered_section :
    let text := "extraction:\n  max_depth: 3\n  quote_char: \"'\"\n  unknown: 1\nmax_depth: 0\n"
    let look := fun (_ : List Char) => Source.file text.toUTF8
    let env : List Char → Option (List Char) := fun name =>
      [(Field.maxDepth.variable, "5".toList), (Field.stepDelay.variable, "0.5".toList)].lookup name
    let es : Entries := [(some "max_depth".toList, .int 3),
      (some "quote_char".toList, .text ['\'']), (some "unknown".toList, .int 1)]
    ∃ items, Holds look (some ['c']) items ∧ Sectioned items es ∧ (∀ e ∈ es, e.1 ≠ none) ∧
      Layered (ofNames es) (ofVariables env) (load look env (some ['c'])) ∧
      (load look env (some ['c'])).toOption.map (fun s => (s.rules.maxDepth, s.rules.quote)) =
        some (5, '\'') := by
  intro text look env es
  have hentries : (Document.read (unifyBreaks text.toList)).toOption.bind (fun d? =>
      (d?.elim (some []) Document.items?).map sectionOf) = some es := by decide +kernel
  obtain ⟨d?, hread, hd⟩ := Option.bind_eq_some_iff.1 hentries
  obtain ⟨items, hitems, hinner⟩ := Option.map_eq_some_iff.1 hd
  have hok : Document.read (unifyBreaks text.toList) = .ok d? := by
    cases hdocument : Document.read (unifyBreaks text.toList) <;> rw [hdocument] at hread <;>
      cases hread
    rfl
  have htext : String.fromUTF8? text.toUTF8 = some text := by decide +kernel
  have hholds : Holds look (some ['c']) items := .file rfl htext hok hitems
  have hsection : Sectioned items es := hinner ▸ sectioned_sectionOf items
  have hnames : ∀ e ∈ es, e.1 ≠ none := by decide
  exact ⟨items, hholds, hsection, hnames, (load_layered hholds hsection hnames).1,
    by decide +kernel⟩

end Load

end Settings

end PartScan
