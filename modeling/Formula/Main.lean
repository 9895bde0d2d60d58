/-
# The program

The command line: it gathers the environment and the file with options, runs the command and prints
what the command says.
-/
import Formula.CommandLine.Run

open Formula CommandLine

/-- The variables that options may be set by. -/
def optionVariables : List String :=
  ["MATHEXPR_IMPLICIT_MULTIPLICATION", "MATHEXPR_SIMPLIFY", "MATHEXPR_DEBUG"]

/-- The variables that are set. -/
def readEnvironment : IO Options.Environment :=
  optionVariables.filterMapM fun name => do
    return (← IO.getEnv name).map fun value => (name, value)

/-- The file with options that the arguments name, when it can be read. -/
def readConfig (args : List String) : IO (List (String × String)) := do
  match (command? (fun _ => true) args).bind Command.config? with
  | none => return []
  | some path =>
    try return [(plainPath path, ← IO.FS.readFile path)]
    catch _ => return []

/-- Prints how a command ends, and gives the exit code. -/
def conclude : CommandLine.Outcome → IO UInt32
  | .usage => do
    IO.eprint helpText
    return 2
  | .finished exit output errors => do
    IO.eprint errors
    IO.print output
    return UInt32.ofNat exit
  | .uncaught e => do
    IO.eprintln (reprStr e)
    return 1

/-- Runs the command line. -/
def main (args : List String) : IO UInt32 := do
  conclude (run ⟨← readEnvironment, ← readConfig args⟩ args)
