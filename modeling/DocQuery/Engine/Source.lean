import DocQuery.Rows.Join
import DocQuery.Rows.Group
import DocQuery.Grammar.Statement

/-!
# DocQuery.Engine.Source — where rows come from

A row source knows tables by name and hands out their columns, row by row; it may also count rows or
find one row by its key on its own, or decline to.  Its answers may depend on the requests that were
made of it before, and any of them may fail, at once or at any row.
-/

namespace DocQuery

/-- Where rows come from. -/
structure RowSource where
  /-- The table that a name means. -/
  table? : String → Option Table
  /-- The names of all tables. -/
  tableNames : List String
  /-- The values of some columns of a table, row by row; the limit is a hint, and more rows may
  come. -/
  read : List Request → Table → List Column → (limit : Option Nat) →
    Except QueryError (List (Except QueryError (List Value)))
  /-- How many rows of a table the filters accept, if the source counts on its own. -/
  count : List Request → Table → List Filter → (approximate : Bool) →
    Except QueryError (Option Nat)
  /-- The row of a table with a key, as columns and their values, if the source finds it on its own.
  -/
  lookup : List Request → Table → List Item → Column → Value →
    Except QueryError (Option (List Column × List Value))

namespace RowSource

/-- What queries are read against: the tables of a source. -/
def catalog (s : RowSource) (expressions : Bool) : Grammar.Catalog := ⟨s.table?, expressions⟩

/-- Unscoped items of columns. -/
def columnItems (columns : List Column) : Plan (List Item) :=
  Plan.makeItems (columns.map fun c id => Item.ofColumn id c none)

/-- The data set of some columns of a table. -/
def materializeColumns (s : RowSource) (t : Table) (columns : List Column) (limit : Option Nat) :
    Plan RowSet := do
  let past ← Plan.note (.read t.name columns limit)
  let outcomes ← (s.read past t columns limit : Except QueryError _)
  let header ← columnItems columns
  RowSet.handedOut header (outcomes.map fun o => o.map fun values => { header := header, values })

/-- The columns that items read, each once. -/
def columnsOf (items : List Item) : List Column :=
  (items.filterMap Item.column?).foldl
    (fun kept c => if kept.contains c then kept else kept ++ [c]) []

/-- The rows of a table that the filters accept, a window of them, shaped into items.  The source is
told how many rows are needed where nothing is filtered or passed over.  -/
def materializeTable (s : RowSource) (t : Table) (items : List Item) (filters : List Filter)
    (firstRow : Nat) (maxRows : Option Nat) : Plan RowSet := do
  let columns := columnsOf (items ++ Filter.itemsOf filters)
  let limit := if filters.isEmpty && firstRow ≤ 1 then maxRows else none
  let d ← s.materializeColumns t columns limit
  ((d.filtered filters).paged firstRow maxRows).selection items

/-- The count of a table by the source itself. -/
def askCount (s : RowSource) (t : Table) (filters : List Filter) (approximate : Bool) :
    Plan (Option Nat) := do
  let past ← Plan.note (.count t.name filters approximate)
  (s.count past t filters approximate : Except QueryError (Option Nat))

/-- The row with a key by the source itself, as a data set. -/
def askLookup (s : RowSource) (t : Table) (items : List Item) (column : Column) (key : Value) :
    Plan (Option RowSet) := do
  let past ← Plan.note (.lookup t.name column key items)
  match ← (s.lookup past t items column key : Except QueryError _) with
  | some (columns, values) =>
    let header ← columnItems columns
    return some (.ofRows header [{ header := header, values := values }])
  | none => return none

end RowSource

end DocQuery
