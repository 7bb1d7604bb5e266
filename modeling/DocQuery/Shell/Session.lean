import DocQuery.Engine.Answer
import DocQuery.Output.Layout
import DocQuery.Settings.Basic

/-!
# DocQuery.Shell.Session — the interactive shell

The shell takes a line at a time, in which a backspace takes back the character before it.  A line
that ends in a backslash goes on with the next one.  What is then there, without semicolons at its
end, is a command if it begins with a dot, and a query otherwise.  The reply to a line is a text,
after a query also the count of rows, and whether the shell goes on.
-/

namespace DocQuery.Shell

/-- The state of a shell: the tables, how queries are run and shown, and the front of a line that
goes on. -/
structure Session where
  store : Store
  options : Options
  format : OutputFormat
  buffer : List Char := []

/-- The reply to a line. -/
structure Reply where
  text : String := ""
  rows : Option Nat := none
  goesOn : Bool := true

/-- The reply as it is printed; `elapsed` is the time that a query took, in milliseconds. -/
def Reply.print (r : Reply) (elapsed : String) : String :=
  match r.rows with
  | some n => r.text ++ "  (" ++ toString n ++ " rows, " ++ elapsed ++ "ms)\n"
  | none => r.text

/-! ## Texts -/

/-- Nanoseconds as milliseconds with two places, a half going up. -/
def milliseconds (nanoseconds : Nat) : String :=
  let hundredths := (nanoseconds + 5000) / 10000
  let rest := toString (hundredths % 100)
  toString (hundredths / 100) ++ "." ++ (if rest.length = 1 then "0" ++ rest else rest)

/-- Lines of text, each with its end. -/
def lines (parts : List String) : String := String.join (parts.map (· ++ "\n"))

/-- What the shell says at its start. -/
def greeting (s : Store) : String :=
  lines ["  DocSQL 0.9.0", "  Type .help for help, .quit to quit", "",
    "  Tables: " ++ Text.joinWith ", " s.names, ""]

/-- What the shell says at its end. -/
def farewell : String := "Goodbye!\n"

/-- What asks for a line on a terminal. -/
def prompt (s : Session) : String := if s.buffer.isEmpty then "docsql> " else "... "

/-- The explanation of the commands. -/
def help : String :=
  lines ["", "Commands:",
    "  .help            Show this help",
    "  .tables          List tables",
    "  .schema <table>  Show the columns of a table",
    "  .refresh         Reload every table from disk",
    "  .format <fmt>    Switch output (table, json, csv)",
    "  .quit            Exit the shell",
    "", "Examples:",
    "  SELECT name, COUNT(*) FROM people GROUP BY name",
    "  SELECT p.name, o.total FROM people p LEFT JOIN orders o ON p.id = o.person_id", ""]

/-- The text of an error. -/
def errorText (message : String) : String := lines ["Error: " ++ message]

/-- The columns of a table. -/
def schemaText (s : Store) (name : String) : String :=
  match s.find? name with
  | none => lines ["  No such table: " ++ name]
  | some t =>
    lines (("  " ++ t.table.name) :: t.table.columns.map fun c =>
      "    " ++ c.name ++ " " ++ ((c.type.map ColumnType.name).getD "UNKNOWN") ++
        if c.primaryKey then " PRIMARY KEY" else "")

/-! ## Replies -/

/-- The rows of a query in a format, and how many there are. -/
def runQuery (s : RowSource) (options : Options) (format : OutputFormat) (sql : String) :
    Except Failure (String × Nat) := do
  let answer ← (s.ask options sql).mapError Failure.query
  let text ← Output.write false format answer.labels answer.rows
  return (text, answer.rows.length)

/-- The reply to a query. -/
def answerQuery (s : Session) (sql : String) : Reply :=
  match runQuery s.store.source s.options s.format sql with
  | .ok (text, rows) => { text := text, rows := some rows }
  | .error e => { text := errorText e.message }

/-- A command and its argument, which follows the first blank. -/
def splitCommand (input : List Char) : String × String :=
  match Text.cutAt? ' ' input with
  | some (command, argument) => (String.ofList command, String.ofList (Text.trim argument))
  | none => (String.ofList input, "")

/-- The reply to a command. -/
def answerCommand (files : Files) (s : Session) (command argument : String) : Reply × Session :=
  if [".quit", ".exit", ".q"].contains command then ({ goesOn := false }, s)
  else if [".help", ".h"].contains command then ({ text := help }, s)
  else match command with
    | ".tables" => ({ text := lines (s.store.names.map ("  " ++ ·)) }, s)
    | ".schema" =>
      if argument.isEmpty then ({ text := lines ["  Usage: .schema <table>"] }, s)
      else ({ text := schemaText s.store argument }, s)
    | ".refresh" =>
      let (store, result) := s.store.refresh files
      let text := match result with
        | .ok () => lines ["  Tables reloaded"]
        | .error e => errorText e.message
      ({ text := text }, { s with store := store })
    | ".format" => match OutputFormat.ofName? argument with
      | .ok format => ({}, { s with format := format })
      | .error e => ({ text := errorText e.message }, s)
    | _ => ({ text := lines ["  Unknown command: " ++ command, "  Type .help for help"] }, s)

/-- What a line stands for: its text without semicolons at the end. -/
def inputOf (line : List Char) : List Char :=
  Text.trim ((Text.trim line).reverse.dropWhile (· == ';')).reverse

/-- The reply to a complete line. -/
def answerInput (files : Files) (s : Session) (input : List Char) : Reply × Session :=
  if input = [] then ({}, s)
  else if input.head? = some '.' then
    let (command, argument) := splitCommand input
    answerCommand files s command argument
  else (answerQuery s (String.ofList input), s)

/-- A line as it was meant: a backspace takes back the character before it. -/
def typed (line : List Char) : List Char :=
  (line.foldl (fun kept c => if c = '\x08' then kept.drop 1 else c :: kept) []).reverse

/-- The reply to a line. -/
def answerLine (files : Files) (s : Session) (line : List Char) : Reply × Session :=
  let line := Text.trim (typed line)
  match line.getLast? with
  | some '\\' => ({}, { s with buffer := s.buffer ++ line.dropLast ++ [' '] })
  | _ => answerInput files { s with buffer := [] } (inputOf (s.buffer ++ line))

/-- The files that the reply to a line may need: those of all tables, if the line is a command. -/
def pathsFor (s : Session) (line : List Char) : List String :=
  match inputOf (s.buffer ++ Text.trim (typed line)) with
  | '.' :: _ => s.store.sources.map (·.path)
  | _ => []

/-- The replies to lines up to the end of the session, each as it is printed with a given time. -/
def answerLines (files : Files) (elapsed : String) (s : Session) : List (List Char) → String
  | [] => ""
  | line :: rest =>
    let (reply, s) := answerLine files s line
    reply.print elapsed ++ if reply.goesOn then answerLines files elapsed s rest else ""

end DocQuery.Shell
