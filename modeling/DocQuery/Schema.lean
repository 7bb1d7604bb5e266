import DocQuery.Text.Chars

/-!
# DocQuery.Schema — tables and their columns

What a row source tells about its tables: names, the broad type of each column where it is known,
and which columns are primary keys.  A column knows the table it belongs to.
-/

namespace DocQuery

/-- The broad type of a column, which literals compared with it are brought to. -/
inductive ColumnType where
  | text | number | boolean | temporal | other
deriving DecidableEq

namespace ColumnType

/-- All types. -/
def all : List ColumnType := [.text, .number, .boolean, .temporal, .other]

/-- The name of a type. -/
def name : ColumnType → String
  | .text => "TEXT"
  | .number => "NUMBER"
  | .boolean => "BOOLEAN"
  | .temporal => "TEMPORAL"
  | .other => "OTHER"

end ColumnType

/-- A column of a table. -/
structure Column where
  name : String
  table : String
  type : Option ColumnType
  primaryKey : Bool
deriving DecidableEq

/-- The name of a column after the name of its table. -/
def Column.qualifiedName (c : Column) : String := c.table ++ "." ++ c.name

/-- A table: its name and its columns in order. -/
structure Table where
  name : String
  columns : List Column
deriving DecidableEq

namespace Table

/-- The column of a name: spelled exactly so if there is one, else in any case. -/
def columnNamed? (t : Table) (name : String) : Option Column :=
  (t.columns.find? fun c => c.name == name) <|>
    (t.columns.find? fun c => Text.sameName c.name name)

/-- The position of the first column with the name of a given one. -/
def columnIndex? (t : Table) (column : Column) : Option Nat :=
  t.columns.findIdx? fun c => c.name == column.name

/-- The columns marked as primary keys. -/
def primaryKeys (t : Table) : List Column := t.columns.filter (·.primaryKey)

end Table

end DocQuery
