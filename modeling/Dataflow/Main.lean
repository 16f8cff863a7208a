import Dataflow.Program

/-!
# The executable

Runs the program on the arguments and the environment of the process, and logs to the
standard error.
-/

open Dataflow

def main (args : List String) : IO UInt32 := do
  let bindings ← CommandLine.variableNames.mapM fun name => return (name, ← IO.getEnv name)
  let environment (name : String) : Option String := (bindings.lookup name).join
  let outcome := Program.Outcome.ofArguments environment args
  IO.print outcome.output
  IO.eprint (outcome.errorOutput (some .info))
  return outcome.code.toUInt32
