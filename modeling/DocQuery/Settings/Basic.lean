import DocQuery.Documents.Store
import DocQuery.Engine.Execution
import DocQuery.Output.Format
import DocQuery.Settings.Environment
import DocQuery.Toml.Reader

/-!
# DocQuery.Settings.Basic — what a program run is set up with

Settings say where files are, which of them are tables, how results are shown, and which short ways
queries may take.  They come from a settings file in TOML, and two variables override what it says;
a file of variables beside it is read first.  Every part of a settings file may be missing, and
parts that are not known are passed over.
-/

namespace DocQuery

/-- What a program run is set up with. -/
structure Settings where
  directory : Option String := none
  format : OutputFormat := .table
  options : Options := {}
  tables : List TableSource := []

namespace Settings

/-! ## From TOML -/

/-- The value of a key that may be missing. -/
def optional {α : Type} (entries : Toml.Entries) (key : String) (read : Toml → Option α) :
    Option (Option α) :=
  match entries.lookup key with
  | some v => (read v).map some
  | none => some none

/-- A text. -/
def ofString? : Toml → Option String
  | .string s => some s
  | _ => none

/-- A truth value. -/
def ofBoolean? : Toml → Option Bool
  | .boolean b => some b
  | _ => none

/-- A choice by its name: a text, or the only key of a table, where it has an empty value. -/
def ofChoice? : Toml → Option String
  | .string s => some s
  | .table _ [(name, v)] => if v.isEmpty then some name else none
  | _ => none

/-- The entries of a structure: those of a table, or the values of an array in the order of the
fields.  A date or a time is a structure as well, but none of its parts is a field. -/
def ofStructure? (fields : List String) : Toml → Option Toml.Entries
  | .table _ entries => some entries
  | .array values => some (fields.zip values)
  | .temporal _ => some []
  | _ => none

/-- The entries of each of a list of structures. -/
def ofStructures? (fields : List String) : Toml → Option (List Toml.Entries)
  | .tables items => some items
  | .array items => items.mapM (ofStructure? fields)
  | _ => none

/-- A format of results; its name is spelled exactly so. -/
def ofOutputFormat? (v : Toml) : Option OutputFormat := (ofChoice? v).bind OutputFormat.ofExactName?

/-- A format of documents; its name is spelled exactly so. -/
def ofDocumentFormat? (v : Toml) : Option DocumentFormat :=
  (ofChoice? v).bind fun s => [DocumentFormat.json, .lines, .records].find? fun f => f.name == s

/-- The fields of the options of queries. -/
def optionFields : List String :=
  ["allow_expression_select_items", "count_pushdown", "primary_key_lookup"]

/-- The fields of the source of a table. -/
def sourceFields : List String := ["name", "path", "format", "primary_key"]

/-- The options of queries. -/
def ofOptions? (entries : Toml.Entries) : Option Options := do
  let expressions ← optional entries "allow_expression_select_items" ofBoolean?
  let countPushdown ← optional entries "count_pushdown" ofBoolean?
  let keyLookup ← optional entries "primary_key_lookup" ofBoolean?
  return ⟨expressions.getD false, countPushdown.getD true, keyLookup.getD true⟩

/-- The source of a table. -/
def ofSource? (entries : Toml.Entries) : Option TableSource := do
  let name ← (entries.lookup "name").bind ofString?
  let path ← (entries.lookup "path").bind ofString?
  let format ← optional entries "format" ofDocumentFormat?
  let primaryKey ← optional entries "primary_key" ofString?
  return ⟨name, path, format, primaryKey⟩

/-- The settings of a document. -/
def ofToml? (entries : Toml.Entries) : Option Settings := do
  let directory ← optional entries "data_dir" ofString?
  let format ← optional entries "format" ofOutputFormat?
  let options ← optional entries "engine" fun v =>
    (ofStructure? optionFields v).bind ofOptions?
  let tables ← optional entries "tables" fun v =>
    (ofStructures? sourceFields v).bind (·.mapM ofSource?)
  return ⟨directory, format.getD .table, options.getD {}, tables.getD []⟩

/-- The settings of a text. -/
def read (text : String) : Except Failure Settings :=
  match (Toml.read? text.toList).bind ofToml? with
  | some s => .ok s
  | none => .error .malformedSettings

/-! ## Variables -/

/-- The variable for the directory of files. -/
def directoryVariable : String := "DOCSQL_DATA_DIR"

/-- The variable for the format of results. -/
def formatVariable : String := "DOCSQL_FORMAT"

/-- The settings with what variables say: a directory that is not empty, a format that there is. -/
def withVariables (env : Environment) (s : Settings) : Settings :=
  let s := match env.lookup directoryVariable with
    | some directory => if directory.isEmpty then s else { s with directory := some directory }
    | none => s
  match (env.lookup formatVariable).map OutputFormat.ofName? with
  | some (.ok format) => { s with format := format }
  | _ => s

/-! ## From files -/

/-- The name of the settings file that is looked for. -/
def fileName : String := "docsql.toml"

/-- The name of a file of variables. -/
def variablesFileName : String := ".env"

/-- The variables after the file of variables in a directory, if there is one. -/
def loadVariables (files : Files) (env : Environment) (directory : String) : Environment :=
  match (files (Path.join directory variablesFileName)).text? with
  | some text => env.load text.toList
  | none => env

/-- The settings of a file.  A relative directory in it is taken from the directory of the file,
which is also what a missing one means.  -/
def ofFile (files : Files) (env : Environment) (path : String) :
    Environment × Except Failure Settings :=
  let home := (Path.parent? path).getD "."
  let env := loadVariables files env home
  (env, match (files path).text? with
    | none => .error .unreadable
    | some text => (read text).map fun s =>
      let directory := match s.directory with
        | some directory => Path.join home directory
        | none => home
      withVariables env { s with directory := some directory })

/-- The settings for a directory: those of the settings file in it, or the usual ones if there is
none. -/
def load (files : Files) (env : Environment) (directory : String) :
    Environment × Except Failure Settings :=
  let path := Path.join directory fileName
  if (files path).isPresent then ofFile files env path
  else
    let env := loadVariables files env directory
    (env, .ok (withVariables env { directory := some directory }))

/-! ## Use -/

/-- A path as it is to be opened. -/
def resolve (s : Settings) (path : String) : String :=
  match s.directory with
  | some directory => Path.join directory path
  | none => path

/-- The settings with one more table, which replaces those of the same name in any case. -/
def addTable (s : Settings) (source : TableSource) : Settings :=
  { s with tables := s.tables.filter (fun t => !Text.sameName t.name source.name) ++ [source] }

/-- The tables as they are to be opened. -/
def sources (s : Settings) : List TableSource :=
  s.tables.map fun t => { t with path := s.resolve t.path }

end Settings

/-- The store of the tables in settings. -/
def Store.ofSettings (files : Files) (s : Settings) : Except Failure Store :=
  s.sources.foldlM (Store.register files) {}

end DocQuery
