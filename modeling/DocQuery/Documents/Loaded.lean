import DocQuery.Documents.Document
import DocQuery.Schema
import DocQuery.Value.Order

/-!
# DocQuery.Documents.Loaded — documents as a table

The documents of a file become a table: its columns are the keys of all documents in the order of
their first appearance, and every document is a row.  One column may be the primary key; an index
then leads from each key to the first row that has it.
-/

namespace DocQuery

/-- A table with its rows, the place of its key column, and for each key the place of its first row.
-/
structure LoadedTable where
  table : Table
  rows : List (List Value)
  keyColumn : Option Nat
  keyIndex : List (Value × Nat)

namespace LoadedTable

/-! ## Columns -/

/-- The type of columns that hold values like one. -/
def typeOf : Value → Option ColumnType
  | .null => none
  | .boolean _ => some .boolean
  | .number _ => some .number
  | .text _ => some .text
  | .temporal _ => some .temporal
  | .nested _ => some .other

/-- Columns after one more entry of a document: a new key adds a column, and a column without type
takes the type of the value. -/
def addEntry (table : String) (columns : List Column) (entry : String × Value) : List Column :=
  if columns.any (·.name == entry.1) then
    columns.map fun c =>
      if c.name == entry.1 && c.type.isNone then { c with type := typeOf entry.2 } else c
  else columns ++ [⟨entry.1, table, typeOf entry.2, false⟩]

/-- The columns of documents. -/
def columnsOf (table : String) (documents : List Document) : List Column :=
  documents.flatten.foldl (addEntry table) []

/-- The last value that a document has under a key. -/
def valueOf (document : Document) (key : String) : Value :=
  (document.reverse.lookup key).getD .null

/-- The row of a document. -/
def rowOf (columns : List Column) (document : Document) : List Value :=
  columns.map fun c => valueOf document c.name

/-! ## Keys -/

/-- The columns that are keys where none is named, first one first. -/
def defaultKeys : List String := ["_key", "id"]

/-- The place of the key column: the one that is named if there is such a column, or else the first
of the usual ones. -/
def keyColumnOf? (columns : List Column) (named : Option String) : Option Nat :=
  let place := fun (name : String) => columns.findIdx? fun c => c.name == name
  match named with
  | some name => place name
  | none => defaultKeys.findSome? place

/-- The place that an index has for a key. -/
def placeOf? (index : List (Value × Nat)) (key : Value) : Option Nat :=
  (index.find? fun entry => entry.1.matches? key).map (·.2)

/-- An index with one more row: null is no key, and a key that is there already keeps its row. -/
def addKey (index : List (Value × Nat)) (entry : Value × Nat) : List (Value × Nat) :=
  if entry.1.isNull || (placeOf? index entry.1).isSome then index else index ++ [entry]

/-- The index of a column. -/
def indexOf (rows : List (List Value)) (column : Nat) : List (Value × Nat) :=
  (rows.zipIdx.map fun (row, place) => ((row[column]?).getD .null, place)).foldl addKey []

/-! ## Tables -/

/-- The table of documents under a name. -/
def ofDocuments (name : String) (documents : List Document) (primaryKey : Option String) :
    LoadedTable :=
  let columns := columnsOf name documents
  let rows := documents.map (rowOf columns)
  let key := keyColumnOf? columns primaryKey
  match key with
  | some place =>
    { table := ⟨name, columns.modify place fun c => { c with primaryKey := true }⟩
      rows := rows
      keyColumn := key
      keyIndex := indexOf rows place }
  | none => { table := ⟨name, columns⟩, rows := rows, keyColumn := none, keyIndex := [] }

/-- The values of some columns, row by row, up to a limit. -/
def select (t : LoadedTable) (columns : List Column) (limit : Option Nat) : List (List Value) :=
  let places := columns.map t.table.columnIndex?
  let rows := match limit with
    | some n => t.rows.take n
    | none => t.rows
  rows.map fun row => places.map fun place => (place.bind fun n => row[n]?).getD .null

/-- The row of a key in a column, if that is the key column. -/
def find? (t : LoadedTable) (column : Column) (key : Value) : Option (List Value) :=
  match t.keyColumn.bind fun n => t.table.columns[n]? with
  | some c => if c.name == column.name then (placeOf? t.keyIndex key).bind (t.rows[·]?) else none
  | none => none

end LoadedTable

end DocQuery
