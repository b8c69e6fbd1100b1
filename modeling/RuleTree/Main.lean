import RuleTree.Command.Run

/-!
# The program

Reads what a command needs, carries it out, and prints what it gives.
-/

namespace RuleTree

/-- The path that stands for the standard input. -/
def standardInput : String := "-"

/-- The names of the variables that are settings. -/
def variableNames : List String :=
  [Settings.pathVariable, Settings.urlVariable, "BLOCKFLOW__DATABASE__URL",
    "BLOCKFLOW__DATABASE__MAX_CONNECTIONS", "BLOCKFLOW__DATABASE__MIN_CONNECTIONS",
    "BLOCKFLOW__DATABASE__ACQUIRE_TIMEOUT_SECS", "BLOCKFLOW__DATABASE__IDLE_TIMEOUT_SECS",
    "BLOCKFLOW__ENGINE__CACHE", "BLOCKFLOW__ENGINE__BLOCK_IDS", "BLOCKFLOW__LOG__FILTER"]

/-- The variables of the environment that are settings. -/
def readVariables : IO (List (String × String)) :=
  variableNames.filterMapM fun name => do
    return (← IO.getEnv name).map fun value => (name, value)

/-- The text of a file, if it can be read. -/
def readFile? (path : String) : IO (Option String) := do
  try
    if path = standardInput then return some (← (← IO.getStdin).readToEnd)
    else return some (← IO.FS.readFile path)
  catch _ => return none

/-- The texts of the files that can be read. -/
def readFiles (paths : List String) : IO (List (String × String)) :=
  paths.filterMapM fun path => do
    return (← readFile? path).map fun document => (path, document)

/-- Carries out an invocation; the result is the code that the program ends with. -/
def carryOut (invocation : Invocation) : IO UInt32 := do
  let environment ← readVariables
  let files ← readFiles (invocation.paths environment)
  match invocation.perform ⟨environment, fun path => files.lookup path⟩ with
  | .ok text =>
    IO.print text
    return 0
  | .error cause =>
    IO.eprintln ("Error: " ++ cause.message)
    return 1

/-- What is printed about a command line that gives no command. -/
def usage : String :=
  "Usage: blockflow [--config PATH] [--database-url URL] run FILE | fmt FILE [--ids] | migrate "
    ++ "| import FILE | export ROOT | exec ROOT | delete ROOT | config"

end RuleTree

/-- Carries out the command that the words of the command line give. -/
def main (words : List String) : IO UInt32 := do
  match RuleTree.Invocation.ofWords? words with
  | some invocation => RuleTree.carryOut invocation
  | none =>
    IO.eprintln RuleTree.usage
    return 2
