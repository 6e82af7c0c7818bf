import PartScan.CommandLine.Flag
import PartScan.Settings.Layers

/-! # Arguments

Every argument is a flag or an expression. Flags may be abbreviated while only one name fits; short
ones may stand together behind one dash. Behind two dashes alone all is expression. Expressions form
one run; those behind a flag that follows it are not recognized.
-/

namespace PartScan.CommandLine

open Text

structure Options where
  expressions : List (List Char) := []
  config : List Char := defaultPath
  onlyVariables : Bool := false
  json : Bool := false
  simulate : Bool := false
  verbose : Bool := false
  deriving DecidableEq, Repr

/-- Why the program stops before it begins. -/
inductive Stop where
  | help
  | usage (e : UsageError)
  deriving DecidableEq, Repr

/-- Text that stands in the same argument as a flag; it is marked if an equals sign precedes it. -/
structure Attached where
  marked : Bool
  text : List Char
  deriving DecidableEq, Repr

inductive Argument where
  | plain (text : List Char)
  | separator
  | unknown (text : List Char)
  | flag (f : Flag) (short : Bool) (attached : Option Attached)
  deriving DecidableEq, Repr

/-! ## Reading arguments -/

/-- The part in front of the first equals sign, and what stands behind the sign. -/
def splitMark : List Char → List Char × Option (List Char)
  | [] => ([], none)
  | '=' :: rest => ([], some rest)
  | c :: rest => let (a, b) := splitMark rest; (c :: a, b)

/-- A dash and a number in digits of any script, perhaps with a point or a line feed at the end. -/
def isNegativeNumber : List Char → Bool
  | '-' :: cs =>
    let cs := if cs.getLast? = some '\n' then cs.dropLast else cs
    match cs.dropWhile isDigit with
    | [] => cs ≠ []
    | '.' :: rest => rest ≠ [] && rest.all isDigit
    | _ => false
  | _ => false

def readOther (a : List Char) : Argument :=
  if isNegativeNumber a || a.contains ' ' then .plain a else .unknown a

/-- An argument that begins with two dashes: a flag by its full name or the beginning of it. -/
def readLong (a : List Char) : Except UsageError Argument :=
  let (name, value) := splitMark a
  let attached := value.map (Attached.mk true)
  match Flag.ofName? name with
  | some f => .ok (.flag f false attached)
  | none =>
    match Flag.table.filter fun entry => name.isPrefixOf entry.1 with
    | [] => .ok (readOther a)
    | [(_, f)] => .ok (.flag f false attached)
    | entries => .error (.ambiguous a (entries.map Prod.fst))

/-- An argument that begins with a dash and another character. -/
def readShort (c : Char) (rest : List Char) : Argument :=
  match Flag.ofName? ['-', c], rest with
  | some f, [] => .flag f true none
  | some f, '=' :: value => .flag f true (some ⟨true, value⟩)
  | some f, _ => .flag f true (some ⟨false, rest⟩)
  | none, _ => readOther ('-' :: c :: rest)

def readArgument : List Char → Except UsageError Argument
  | '-' :: '-' :: rest => readLong ('-' :: '-' :: rest)
  | '-' :: c :: rest => .ok (readShort c rest)
  | a => .ok (.plain a)

/-- Read all arguments up to the separator; those behind it are plain. -/
def readArguments : List (List Char) → Except UsageError (List Argument)
  | [] => .ok []
  | a :: rest =>
    if a = ['-', '-'] then .ok (.separator :: rest.map .plain)
    else do
      let first ← readArgument a
      let others ← readArguments rest
      .ok (first :: others)

/-! ## Flags in one argument -/

/-- What follows the switches of an argument: nothing, a flag with its value, a flag whose value is
the next argument, or letters that are not recognized. -/
inductive Tail where
  | done
  | value (f : Flag) (text : List Char)
  | wanting (f : Flag)
  | unknown (text : List Char)
  deriving DecidableEq, Repr

/-- The switches of an argument, read from a flag and the text attached to it. -/
def cluster (f : Flag) (short marked : Bool) (text : List Char) :
    Except UsageError (List Flag × Tail) :=
  if f.takesValue then .ok ([], .value f text)
  else
    match text with
    | [] => .error (.ignored f [])
    | c :: rest =>
      if !short ∨ marked ∨ c = '-' then .error (.ignored f (c :: rest))
      else
        match Flag.ofName? ['-', c], rest with
        | none, _ => .ok ([f], .unknown ('-' :: c :: rest))
        | some g, [] => .ok (if g.takesValue then ([f], .wanting g) else ([f, g], .done))
        | some g, '=' :: value => (cluster g true true value).map fun (fs, t) => (f :: fs, t)
        | some g, d :: more => (cluster g true false (d :: more)).map fun (fs, t) => (f :: fs, t)
termination_by text.length

/-- The switches of a flag that may have text attached. -/
def Flag.switches (f : Flag) (short : Bool) : Option Attached →
    Except UsageError (List Flag × Tail)
  | none => .ok (if f.takesValue then ([], .wanting f) else ([f], .done))
  | some a => cluster f short a.marked a.text

/-! ## The whole line -/

/-- Where the one run of expressions stands. -/
inductive Phase where
  | before
  | inside
  | after
  deriving DecidableEq, Repr

/-- The run ends at whatever is no expression. -/
def Phase.leave : Phase → Phase
  | .before => .before
  | _ => .after

/-- The options so far, and what is not recognized. -/
structure Progress where
  options : Options := {}
  phase : Phase := .before
  extras : List (List Char) := []

namespace Progress

def leave (p : Progress) : Progress := { p with phase := p.phase.leave }

def reject (p : Progress) (text : List Char) : Progress := { p with extras := p.extras ++ [text] }

/-- Take in an expression, or reject it behind the run. -/
def plain (p : Progress) (text : List Char) : Progress :=
  if p.phase = .after then p.reject text
  else { p with
    options := { p.options with expressions := p.options.expressions ++ [text] }, phase := .inside }

/-- Take in the separator as part of the run, or reject it behind the run. -/
def separator (p : Progress) : Progress :=
  if p.phase = .after then p.reject ['-', '-'] else { p with phase := .inside }

def switch (p : Progress) (f : Flag) : Except Stop Progress :=
  match f with
  | .help => .error .help
  | .onlyVariables => .ok { p with options := { p.options with onlyVariables := true } }
  | .json => .ok { p with options := { p.options with json := true } }
  | .simulate => .ok { p with options := { p.options with simulate := true } }
  | .verbose => .ok { p with options := { p.options with verbose := true } }
  | .config => .ok p

def switchAll (p : Progress) (fs : List Flag) : Except Stop Progress := fs.foldlM switch p

def withConfig (p : Progress) (text : List Char) : Progress :=
  { p with options := { p.options with config := text } }

end Progress

def collect (p : Progress) : List Argument → Except Stop Progress
  | [] => .ok p
  | .plain t :: rest => collect (p.plain t) rest
  | .separator :: rest => collect p.separator rest
  | .unknown t :: rest => collect (p.leave.reject t) rest
  | .flag f short attached :: rest =>
    match f.switches short attached with
    | .error e => .error (.usage e)
    | .ok (fs, .done) => do collect (← p.leave.switchAll fs) rest
    | .ok (fs, .unknown t) => do collect (← (p.leave.reject t).switchAll fs) rest
    | .ok (fs, .value _ t) => do collect ((← p.leave.switchAll fs).withConfig t) rest
    | .ok (fs, .wanting g) =>
      match rest with
      | .plain t :: rest => do collect ((← p.leave.switchAll fs).withConfig t) rest
      | _ => .error (.usage (.missing g))

def parse (arguments : List (List Char)) : Except Stop Options := do
  let read ← (readArguments arguments).mapError .usage
  let p ← collect {} read
  if p.extras = [] then .ok p.options else .error (.usage (.unrecognized p.extras))

end PartScan.CommandLine
