import PartScan.Text.Quoted

/-! # Flags

The flags of the command line with their names, and what is said of a command line that is not
understood.
-/

namespace PartScan.CommandLine

open Text

inductive Flag where
  | help
  | config
  | onlyVariables
  | json
  | simulate
  | verbose
  deriving DecidableEq, Repr

namespace Flag

def all : List Flag := [.help, .config, .onlyVariables, .json, .simulate, .verbose]

/-- The names of a flag: one dash and a letter, two dashes and a word. -/
def names : Flag → List (List Char)
  | .help => ["-h".toList, "--help".toList]
  | .config => ["-c".toList, "--config".toList]
  | .onlyVariables => ["--variables".toList]
  | .json => ["--json".toList]
  | .simulate => ["--simulate".toList]
  | .verbose => ["-v".toList, "--verbose".toList]

def takesValue : Flag → Bool
  | .config => true
  | _ => false

def table : List (List Char × Flag) := all.flatMap fun f => f.names.map (·, f)

def ofName? (name : List Char) : Option Flag := table.lookup name

def label (f : Flag) : List Char := ['/'].intercalate f.names

end Flag

/-- Why a command line is not understood. -/
inductive UsageError where
  | ambiguous (argument : List Char) (names : List (List Char))
  | ignored (flag : Flag) (text : List Char)
  | missing (flag : Flag)
  | unrecognized (arguments : List (List Char))
  deriving DecidableEq, Repr

def UsageError.message : UsageError → List Char
  | .ambiguous a names =>
    "ambiguous option: ".toList ++ a ++ " could match ".toList ++ [',', ' '].intercalate names
  | .ignored f text =>
    "argument ".toList ++ f.label ++ ": ignored explicit argument ".toList ++ quoted text
  | .missing f => "argument ".toList ++ f.label ++ ": expected one argument".toList
  | .unrecognized as => "unrecognized arguments: ".toList ++ [' '].intercalate as

def usageText : List Char :=
  ("usage: exprparts [-h] [-c CONFIG] [--variables] [--json] [--simulate] [-v]\n" ++
    "                 [EXPR ...]\n").toList

def helpText : List Char :=
  usageText ++
    ("\nSplit expressions into parts and find their variables.\n\n" ++
      "positional arguments:\n" ++
      "  EXPR                  expressions to scan; read from stdin when omitted\n\n" ++
      "options:\n" ++
      "  -h, --help            show this help message and exit\n" ++
      "  -c CONFIG, --config CONFIG\n" ++
      "                        YAML config file\n" ++
      "  --variables           report only variable parts\n" ++
      "  --json                print parts as JSON, one line per expression\n" ++
      "  --simulate            pause 0.5s per character like a long-running job\n" ++
      "  -v, --verbose         log progress\n").toList

def UsageError.text (e : UsageError) : List Char :=
  usageText ++ "exprparts: error: ".toList ++ e.message ++ ['\n']

end PartScan.CommandLine
