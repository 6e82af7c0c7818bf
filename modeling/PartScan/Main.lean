import PartScan.CommandLine.Session

/-! # The program

The arguments and the surroundings of a call are read, its session is printed, and its status is
returned.
-/

namespace PartScan.CommandLine

def lookUp (path : String) : IO Source := do
  try
    return .file (← IO.FS.readBinFile path)
  catch e =>
    match e with
    | .noFileOrDirectory .. => return .missing
    | .inappropriateType .. => return .directory
    | _ => throw e

def Options.surroundings (o : Options) : IO Surroundings := do
  let source ← if o.config = [] then pure .missing else lookUp (String.ofList o.config)
  let values ← Field.all.mapM fun f => do
    return (f.variable, (← IO.getEnv (String.ofList f.variable)).map String.toList)
  let input ← if o.expressions = [] then (← IO.getStdin).readToEnd else pure ""
  return {
    input := input.toList
    look := fun _ => source
    environment := fun name => (values.lookup name).join }

def Session.show (s : Session) : IO UInt32 := do
  (← IO.getStdout).putStr (String.ofList s.printed)
  (← IO.getStderr).putStr (String.ofList s.errors)
  match s.ending with
  | .status code => return code.toUInt32
  | .exit code => return code.toUInt32
  | .failure e => do
    (← IO.getStderr).putStrLn (String.ofList e.message)
    return 1

end PartScan.CommandLine

open PartScan.CommandLine

def main (arguments : List String) : IO UInt32 := do
  match parse (arguments.map String.toList) with
  | .error stop => stop.session.show
  | .ok o => (perform PartScan.Number.natText o (← o.surroundings)).show
