import Infeasibility.CommandLine

/-!
# The program
-/

open Infeasibility CommandLine

/-- Explains why the models of the lectures have no solution. -/
def main (arguments : List String) : IO UInt32 := do
  let environment ← Environment.gather fun name =>
    return (← IO.getEnv name).elim Setting.unset Setting.text
  let output := run arguments environment
  IO.print output.text
  IO.eprint output.log
  return output.exitCode
