import DocQuery.Shell.Program

/-!
# DocQuery.Main — the program

Reads the files and variables that a run needs, runs it, and prints.  Everything that is decided is
decided by `Shell.start` and `Shell.answerLine`, which see the files as they were read here.
-/

namespace DocQuery.Program

open Shell

/-- What reading a path gives now. -/
def stateOf (path : String) : IO FileState := do
  try
    return .content (← IO.FS.readBinFile path)
  catch
    | .noFileOrDirectory .. => return .missing
    | _ => return .unreadable

/-- The files at some paths as they are now; there are no others. -/
def snapshot (paths : List String) : IO Files := do
  let states ← paths.mapM fun path => return (path, ← stateOf path)
  return fun path => (states.lookup path).getD .missing

/-- The variables of some names that are set. -/
def setVariables (names : List String) : IO Environment :=
  names.filterMapM fun name => return (← IO.getEnv name).map (name, ·)

/-- Prints the outcome of a run that is over. -/
def finish (outcome : Shell.Outcome) : IO UInt32 := do
  IO.print outcome.output
  IO.eprint outcome.errors
  return UInt32.ofNat outcome.exitCode

/-- Answers lines up to the end of the input or of the session. -/
partial def loop (input : IO.FS.Stream) (isTerminal : Bool) (s : Session) : IO Unit := do
  if isTerminal then
    IO.print (prompt s)
    (← IO.getStdout).flush
  let line ← input.getLine
  unless line.isEmpty do
    let line := line.toList
    let files ← snapshot (pathsFor s line)
    let begun ← IO.monoNanosNow
    let (reply, s) ← IO.lazyPure fun _ => answerLine files s line
    let ended ← IO.monoNanosNow
    IO.print (reply.print (milliseconds (ended - begun)))
    if reply.goesOn then loop input isTerminal s

/-- A run with the arguments that were read. -/
def runWith (args : Arguments) : IO UInt32 := do
  let settingsFiles ← snapshot (settingsPaths args)
  let env ← setVariables (variableNames settingsFiles args)
  let files ← snapshot (settingsPaths args ++ tablePaths settingsFiles env args)
  match start files env args with
  | .over outcome => finish outcome
  | .shell greeting session => do
    IO.print greeting
    let input ← IO.getStdin
    loop input (← input.isTty) session
    IO.print farewell
    return 0

end DocQuery.Program

/-- Queries documents: answers the query that is given, or else starts a shell. -/
def main (args : List String) : IO UInt32 :=
  match DocQuery.Shell.Arguments.read args with
  | .ok args => DocQuery.Program.runWith args
  | .error stop => DocQuery.Program.finish stop.outcome
