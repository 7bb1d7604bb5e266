import DocQuery.Settings.Basic

/-!
# DocQuery.Shell.Arguments — the arguments of the program

Options have a short name after one dash and a long name after two.  The value of an option is the
next argument, or follows its name: an equals sign stands between a long name and the value, and may
stand between a short name and the value.  After two dashes alone everything is an operand; there is
at most one, the query.  Arguments are looked at in their order, and the first that is wrong, or
that asks for help, decides.
-/

namespace DocQuery.Shell

/-- The options that take a value. -/
inductive OptionName where
  | config | table | format
deriving DecidableEq

namespace OptionName

/-- The option of a short name. -/
def ofShort? : Char → Option OptionName
  | 'c' => some .config
  | 't' => some .table
  | 'f' => some .format
  | _ => none

/-- The option of a long name. -/
def ofLong? (name : List Char) : Option OptionName :=
  if name = "config".toList then some .config
  else if name = "table".toList then some .table
  else if name = "format".toList then some .format
  else none

end OptionName

/-- What the arguments say. -/
structure Arguments where
  config : Option String := none
  tables : List TableSource := []
  format : Option OutputFormat := none
  query : Option String := none

/-- Why the program does nothing but print a text. -/
inductive Stop where
  /-- Help is asked for, the long one or the short one. -/
  | help (long : Bool)
  /-- The arguments are wrong. -/
  | misuse

namespace Arguments

/-- The arguments with the value of an option.  All options but tables are given at most once. -/
def set (a : Arguments) (option : OptionName) (value : List Char) : Except Stop Arguments :=
  let text := String.ofList value
  match option with
  | .config =>
    if a.config.isSome ∨ text.isEmpty then .error .misuse else .ok { a with config := some text }
  | .table => match TableSource.ofArgument? text with
    | .ok source => .ok { a with tables := a.tables ++ [source] }
    | .error _ => .error .misuse
  | .format => match OutputFormat.ofExactName? text with
    | some format =>
      if a.format.isSome then .error .misuse else .ok { a with format := some format }
    | none => .error .misuse

/-- The arguments with an operand. -/
def operand (a : Arguments) (text : String) : Except Stop Arguments :=
  if a.query.isSome then .error .misuse else .ok { a with query := some text }

/-- What an argument is. -/
inductive Shape where
  /-- Help, the long one or the short one. -/
  | help (long : Bool)
  /-- An option with its value in the argument itself. -/
  | attached (option : OptionName) (value : List Char)
  /-- An option whose value is the next argument. -/
  | awaiting (option : OptionName)
  /-- Two dashes alone. -/
  | endOfOptions
  /-- No option. -/
  | operand
  /-- An option that there is not. -/
  | unknown

/-- What an argument with two dashes in front is; `name` is what follows them. -/
def shapeOfLong (name : List Char) : Shape :=
  match Text.cutAt? '=' name with
  | some (name, value) => match OptionName.ofLong? name with
    | some option => .attached option value
    | none => .unknown
  | none =>
    if name = "help".toList then .help true
    else match OptionName.ofLong? name with
      | some option => .awaiting option
      | none => .unknown

/-- What an argument with one dash in front is. -/
def shapeOfShort (name : Char) (rest : List Char) : Shape :=
  if name = 'h' then .help false
  else match OptionName.ofShort? name, rest with
    | none, _ => .unknown
    | some option, [] => .awaiting option
    | some option, '=' :: value => .attached option value
    | some option, value => .attached option value

/-- What an argument is. -/
def shapeOf : List Char → Shape
  | ['-', '-'] => .endOfOptions
  | '-' :: '-' :: name => shapeOfLong name
  | '-' :: name :: rest => shapeOfShort name rest
  | _ => .operand

/-- Operands only. -/
def readOperands (a : Arguments) : List String → Except Stop Arguments
  | [] => .ok a
  | text :: rest => do readOperands (← a.operand text) rest

/-- Whether an argument may be the value of the option before it. -/
def isValue (text : String) : Bool :=
  match shapeOf text.toList with
  | .operand => true
  | _ => false

/-- Arguments in order. -/
def readFrom (a : Arguments) : List String → Except Stop Arguments
  | [] => .ok a
  | text :: rest => match shapeOf text.toList with
    | .help long => .error (.help long)
    | .unknown => .error .misuse
    | .endOfOptions => a.readOperands rest
    | .operand => do readFrom (← a.operand text) rest
    | .attached option value => do readFrom (← a.set option value) rest
    | .awaiting option => match rest with
      | [] => .error .misuse
      | value :: rest =>
        if isValue value then do readFrom (← a.set option value.toList) rest else .error .misuse

/-- What the arguments of the program say. -/
def read (args : List String) : Except Stop Arguments := readFrom {} args

end Arguments

/-! ## Help -/

/-- The short help. -/
def shortHelp : List String := [
  "Query JSON, JSON Lines and CSV files with SQL",
  "",
  "Usage: docsql [OPTIONS] [QUERY]",
  "",
  "Arguments:",
  "  [QUERY]  Query to run; starts an interactive shell when omitted",
  "",
  "Options:",
  "  -c, --config <CONFIG>    Configuration file (defaults to ./docsql.toml when present)",
  "  -t, --table <NAME=PATH>  Expose a file as a table (e.g., --table people=people.json)",
  "  -f, --format <FORMAT>    Output format [possible values: table, json, csv]",
  "  -h, --help               Print help (see more with '--help')"]

/-- The long help. -/
def longHelp : List String := [
  "Query JSON, JSON Lines and CSV files with SQL",
  "",
  "Usage: docsql [OPTIONS] [QUERY]",
  "",
  "Arguments:",
  "  [QUERY]",
  "          Query to run; starts an interactive shell when omitted",
  "",
  "Options:",
  "  -c, --config <CONFIG>",
  "          Configuration file (defaults to ./docsql.toml when present)",
  "",
  "  -t, --table <NAME=PATH>",
  "          Expose a file as a table (e.g., --table people=people.json)",
  "",
  "  -f, --format <FORMAT>",
  "          Output format",
  "",
  "          Possible values:",
  "          - table: Aligned columns for the terminal",
  "          - json:  A JSON array of objects keyed by column label",
  "          - csv:   CSV with a header row",
  "",
  "  -h, --help",
  "          Print help (see a summary with '-h')"]

end DocQuery.Shell
