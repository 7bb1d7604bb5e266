import DocQuery.Documents.Loaded
import DocQuery.Engine.Source

/-!
# DocQuery.Documents.Store — registered files as tables

A store keeps, for each registered file, the table that its documents made when they were last read.
The names of tables differ in more than their case.  A store is a row source: it hands out columns,
counts the rows that at most one equality of a column accepts, and finds the row of a key.
-/

namespace DocQuery

/-- A file that is to be a table: the format is guessed from the path where none is given, and the
key column where none is named. -/
structure TableSource where
  name : String
  path : String
  format : Option DocumentFormat := none
  primaryKey : Option String := none
deriving DecidableEq

namespace TableSource

/-- The source of an argument of the form NAME=PATH, blanks around both aside. -/
def ofArgument? (argument : String) : Except Failure TableSource :=
  match Text.cutAt? '=' argument.toList with
  | some (name, path) =>
    let name := Text.trim name
    let path := Text.trim path
    if name = [] ∨ path = [] then .error (.notTableArgument argument)
    else .ok { name := String.ofList name, path := String.ofList path }
  | none => .error (.notTableArgument argument)

/-- The table of a file as it is now. -/
def load (files : Files) (source : TableSource) : Except Failure LoadedTable := do
  let format ← match source.format with
    | some format => pure format
    | none => DocumentFormat.ofPath? source.path
  let documents ← Document.ofFile files format source.path
  return LoadedTable.ofDocuments source.name documents source.primaryKey

end TableSource

/-- The registered files in order, and their tables by name. -/
structure Store where
  sources : List TableSource := []
  tables : List (String × LoadedTable) := []

namespace Store

/-- The tables with one under a name, which replaces the one that the name had. -/
def put (tables : List (String × LoadedTable)) (name : String) (t : LoadedTable) :
    List (String × LoadedTable) :=
  if tables.any (·.1 == name) then tables.map fun e => if e.1 == name then (name, t) else e
  else tables ++ [(name, t)]

/-- The store with one more file. -/
def register (files : Files) (s : Store) (source : TableSource) : Except Failure Store := do
  if s.sources.any fun other => Text.sameName other.name source.name then
    throw (.registeredTwice source.name)
  let t ← source.load files
  return ⟨s.sources ++ [source], put s.tables source.name t⟩

/-- Tables with those of some files read again, up to the first file that fails. -/
def reload (files : Files) (tables : List (String × LoadedTable)) :
    List TableSource → List (String × LoadedTable) × Except Failure Unit
  | [] => (tables, .ok ())
  | source :: rest => match source.load files with
    | .error e => (tables, .error e)
    | .ok t => reload files (put tables source.name t) rest

/-- The store with every file read again in order; the files before the first that fails have been
read again, and the others have not. -/
def refresh (files : Files) (s : Store) : Store × Except Failure Unit :=
  let (tables, result) := reload files s.tables s.sources
  ({ s with tables := tables }, result)

/-! ## Look-ups -/

/-- The names of the tables in the order of registration. -/
def names (s : Store) : List String := s.sources.map (·.name)

/-- The table of a name: spelled exactly so if there is one, else in any case. -/
def find? (s : Store) (name : String) : Option LoadedTable :=
  s.tables.lookup name <|> (s.tables.find? fun e => Text.sameName e.1 name).map (·.2)

/-- How many rows a table has. -/
def rowCount (s : Store) (name : String) : Except Failure Nat :=
  match s.find? name with
  | some t => .ok t.rows.length
  | none => .error (.notRegistered name)

/-! ## As a row source -/

/-- The table of exactly this name. -/
def loaded (s : Store) (t : Table) : Except QueryError LoadedTable :=
  match s.tables.lookup t.name with
  | some t => .ok t
  | none => .error (.tableNotFound t.name)

/-- A header for the column that a filter compares with a value, if the filter is such an equality
of a plain column.  The item of the header is a new one.  -/
def equalityHeader? : Filter → Option (Column × Item)
  | .comparison i .equal (.value _) =>
    if i.function.isNone then i.column?.map fun c => (c, Item.ofColumn (i.id + 1) c none) else none
  | _ => none

/-- How many rows of values under a header a filter accepts. -/
def countAccepted (header : Item) (f : Filter) : List (List Value) → Except QueryError Nat
  | [] => .ok 0
  | values :: rest => do
    let accepted ← f.accepts { header := [header], values := values }
    let count ← countAccepted header f rest
    return if accepted then count + 1 else count

/-- How many rows of a table filters accept, where there is none or one equality of a column. -/
def count (s : Store) (t : Table) (filters : List Filter) : Except QueryError (Option Nat) :=
  match filters with
  | [] => (s.loaded t).map fun t => some t.rows.length
  | [f] => match equalityHeader? f with
    | some (column, header) => do
      let t ← s.loaded t
      return some (← countAccepted header f (t.select [column] none))
    | none => .ok none
  | _ => .ok none

/-- The row of a key, under all columns of its table. -/
def lookup (s : Store) (t : Table) (column : Column) (key : Value) :
    Except QueryError (Option (List Column × List Value)) :=
  (s.loaded t).map fun t => (t.find? column key).map (t.table.columns, ·)

/-- The row source of a store. -/
def source (s : Store) : RowSource where
  table? := fun name => (s.find? name).map (·.table)
  tableNames := s.names
  read := fun _ t columns limit =>
    (s.loaded t).map fun t => (t.select columns limit).map .ok
  count := fun _ t filters _ => s.count t filters
  lookup := fun _ t _ column key => s.lookup t column key

end Store

end DocQuery
