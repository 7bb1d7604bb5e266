import DocQuery.Engine.Source

/-!
# DocQuery.Engine.Memory — tables held in memory

A row source over tables with stored rows.  A stored row may be shorter or longer than the columns
of its table; a missing cell reads as null.  The source neither counts nor looks up keys on its own.
-/

namespace DocQuery

/-- Tables with their stored rows, in the order in which they were added. -/
structure MemoryTables where
  tables : List (Table × List (List Value)) := []

namespace MemoryTables

/-- One more table; a table of the same name is replaced and takes the last place. -/
def add (m : MemoryTables) (t : Table) (rows : List (List Value)) : MemoryTables :=
  ⟨m.tables.filter (fun stored => stored.1.name != t.name) ++ [(t, rows)]⟩

/-- One more row of a table. -/
def insert (m : MemoryTables) (name : String) (row : List Value) : Except QueryError MemoryTables :=
  match m.tables.findIdx? fun stored => stored.1.name == name with
  | some n => .ok ⟨m.tables.modify n fun (t, rows) => (t, rows ++ [row])⟩
  | none => .error (.tableNotFound name)

/-- The table that a name means: spelled exactly so if there is one, else in any case. -/
def table? (m : MemoryTables) (name : String) : Option Table :=
  ((m.tables.find? fun stored => stored.1.name == name) <|>
    (m.tables.find? fun stored => Text.sameName stored.1.name name)).map (·.1)

/-- The cells of a stored row for some columns, given by their places. -/
def cells (places : List (Option Nat)) (row : List Value) : List Value :=
  places.map fun place => (place.bind fun n => row[n]?).getD .null

/-- The rows of some columns, up to a limit. -/
def select (t : Table) (columns : List Column) (rows : List (List Value)) (limit : Option Nat) :
    List (List Value) :=
  let places := columns.map t.columnIndex?
  let rows := match limit with
    | some n => rows.take n
    | none => rows
  rows.map (cells places)

/-- The values of some columns of a table. -/
def read (m : MemoryTables) (t : Table) (columns : List Column) (limit : Option Nat) :
    Except QueryError (List (List Value)) :=
  match m.tables.find? fun stored => stored.1.name == t.name with
  | some (_, rows) => .ok (select t columns rows limit)
  | none => .error (.tableNotFound t.name)

/-- The row source of tables held in memory. -/
def source (m : MemoryTables) : RowSource where
  table? := m.table?
  tableNames := m.tables.map (·.1.name)
  read := fun _ t columns limit => (m.read t columns limit).map (·.map .ok)
  count := fun _ _ _ _ => .ok none
  lookup := fun _ _ _ _ _ => .ok none

end MemoryTables

end DocQuery
