import DocQuery.Failure
import DocQuery.Text.Chars

/-!
# DocQuery.Output.Format — the formats of results

Results are shown as a table with aligned columns, as a JSON array of objects, or as comma separated
values.
-/

namespace DocQuery

/-- A format of results. -/
inductive OutputFormat where
  | table | json | records
deriving DecidableEq, Inhabited

namespace OutputFormat

/-- All formats. -/
def all : List OutputFormat := [.table, .json, .records]

/-- The name of a format. -/
def name : OutputFormat → String
  | .table => "table"
  | .json => "json"
  | .records => "csv"

/-- The format of exactly this name. -/
def ofExactName? (text : String) : Option OutputFormat := all.find? fun f => f.name == text

/-- The format of a name in any case. -/
def ofName? (text : String) : Except Failure OutputFormat :=
  let word := String.ofList (Text.lower text.toList)
  match ofExactName? word with
  | some f => .ok f
  | none => .error (.unknownOutputFormat word)

end OutputFormat

end DocQuery
