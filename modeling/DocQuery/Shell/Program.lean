import DocQuery.Shell.Arguments
import DocQuery.Shell.Session

/-!
# DocQuery.Shell.Program — one run of the program

A run prints help, refuses its arguments, answers one query, or starts a shell.  All of it is a
function of the files, the variables and the arguments; a shell that starts is given back to whoever
has its lines.
-/

namespace DocQuery.Shell

/-- What a run that is over leaves behind. -/
structure Outcome where
  exitCode : Nat := 0
  output : String := ""
  errors : String := ""

/-- What a run comes to. -/
inductive Start where
  | over (outcome : Outcome)
  | shell (greeting : String) (session : Session)

/-- The outcome of a run that stops at its arguments. -/
def Stop.outcome : Stop → Outcome
  | .help long => { output := lines (if long then longHelp else shortHelp) }
  | .misuse => { exitCode := 2, errors := lines ["error: the arguments are wrong"] }

/-- The outcome of a run that fails. -/
def failed (f : Failure) : Outcome := { exitCode := 1, errors := errorText f.message }

/-- The directory that a run works in. -/
def workingDirectory : String := "."

/-- The settings of a run: those of its settings file, and the tables of its arguments. -/
def settingsOf (files : Files) (env : Environment) (args : Arguments) : Except Failure Settings :=
  let loaded := match args.config with
    | some path => Settings.ofFile files env path
    | none => Settings.load files env workingDirectory
  loaded.2.map fun s => args.tables.foldl Settings.addTable s

/-! ## Files of a run -/

/-- The files that the settings of a run are read from. -/
def settingsPaths (args : Arguments) : List String :=
  let path := args.config.getD (Path.join workingDirectory Settings.fileName)
  [path, Path.join ((Path.parent? path).getD ".") Settings.variablesFileName]

/-- The names of variables that the settings of a run depend on: its own, and all words of the
files. -/
def variableNames (files : Files) (args : Arguments) : List String :=
  Settings.directoryVariable :: Settings.formatVariable ::
    (settingsPaths args).flatMap fun path => match (files path).text? with
      | some text => Environment.words text.toList
      | none => []

/-- The files of the tables of a run. -/
def tablePaths (files : Files) (env : Environment) (args : Arguments) : List String :=
  match settingsOf files env args with
  | .ok settings => settings.sources.map (·.path)
  | .error _ => []

/-! ## Runs -/

/-- The outcome of a run with a query. -/
def answerOnce (s : Session) (sql : String) : Outcome :=
  match runQuery s.store.source s.options s.format sql with
  | .error e => failed e
  | .ok (text, rows) =>
    { output := text
      errors := if s.format = .table then lines ["(" ++ toString rows ++ " rows)"] else "" }

/-- What a run comes to once its arguments are read. -/
def startWith (files : Files) (env : Environment) (args : Arguments) : Except Failure Start := do
  let settings ← settingsOf files env args
  let store ← Store.ofSettings files settings
  let session : Session :=
    { store := store, options := settings.options, format := args.format.getD settings.format }
  match args.query with
  | some sql => return .over (answerOnce session sql)
  | none => return .shell (greeting store) session

/-- What a run comes to. -/
def start (files : Files) (env : Environment) (args : Arguments) : Start :=
  match startWith files env args with
  | .ok start => start
  | .error e => .over (failed e)

/-- The lines of a text; the last one may lack its end. -/
def inputLines (text : List Char) : List (List Char) :=
  let parts := Text.splitOnChar '\n' text
  if parts.getLast? = some [] then parts.dropLast else parts

/-- The outcome of a run that takes the lines of its shell from a text, with a given time for all
queries. -/
def run (files : Files) (env : Environment) (args : List String) (input elapsed : String) :
    Outcome :=
  match Arguments.read args with
  | .error stop => stop.outcome
  | .ok args => match start files env args with
    | .over outcome => outcome
    | .shell greeting session =>
      let answers := answerLines files elapsed session (inputLines input.toList)
      { output := greeting ++ answers ++ farewell }

end DocQuery.Shell
