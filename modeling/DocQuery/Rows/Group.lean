import DocQuery.Builtin.Aggregate
import DocQuery.Rows.Operators

/-!
# DocQuery.Rows.Group — grouping and aggregating data sets

Grouping reads all rows and makes one row of each group, in the order in which the groups first
appear.  Rows belong to one group when the values of the items to group by match (`Value.allMatch`).
Aggregating without groups makes one row of all rows, or puts the aggregates beside every row if
other items are selected as well.  Unique rows are the groups by all items.
-/

namespace DocQuery.RowSet

/-! ## Aggregates -/

/-- The distinct aggregates among items; aggregates of expressions are refused. -/
def aggregatesOf (items : List Item) : Except QueryError (List Item) :=
  let aggregates := items.filter (·.aggregate?.isSome)
  match aggregates.find? (·.expression?.isSome) with
  | some i => .error (.aggregatedExpression i.sqlWithoutAlias)
  | none => .ok (aggregates.foldl Item.pushNew [])

/-- The value that a row contributes to an aggregate; a placeholder for the count of all rows. -/
def contribution (i : Item) (row : Row) : Except QueryError Value :=
  if i.isCountAll then .ok (.boolean true)
  else match row.evaluate? i.bare with
    | some v => .ok v
    | none => .error (.aggregateInputMissing i.sqlWithoutAlias)

/-- The values that a row contributes to aggregates. -/
def contributions (aggregates : List Item) (row : Row) : Except QueryError (List Value) :=
  aggregates.mapM (contribution · row)

/-- The aggregate of the values that rows contributed, of which it has the one at a place. -/
def aggregateAt (rows : List (List Value)) (i : Item) (index : Nat) : Value :=
  match i.aggregate? with
  | some f => f.aggregate (rows.map fun values => (values[index]?).getD .null)
  | none => .null

/-- The aggregates of the values that rows contributed. -/
def aggregateAll (aggregates : List Item) (rows : List (List Value)) : List Value :=
  aggregates.zipIdx.map fun (i, index) => aggregateAt rows i index

/-! ## Groups -/

/-- A group: its key and what its rows contributed, last row first. -/
structure Group where
  key : List Value
  rows : List (List Value)

/-- The groups with one more row: in the first group with a matching key, or in a new last one. -/
def addToGroups (key contributed : List Value) : List Group → List Group
  | [] => [⟨key, [contributed]⟩]
  | g :: rest =>
    if Value.allMatch g.key key then { g with rows := contributed :: g.rows } :: rest
    else g :: addToGroups key contributed rest

/-- The key of a row. -/
def groupKey (groupBy : List Item) (row : Row) : Except QueryError (List Value) :=
  groupBy.mapM fun i => match row.evaluate? i with
    | some v => .ok v
    | none => .error (.groupItemMissing i.sqlWithoutAlias)

/-- The groups with one more row, its key and contributions read from it. -/
def groupRow (groupBy aggregates : List Item) (groups : List Group) (row : Row) :
    Except QueryError (List Group) := do
  let key ← groupKey groupBy row
  let contributed ← contributions aggregates row
  return addToGroups key contributed groups

/-- The row of a group: its key and its aggregates. -/
def Group.toRow (header aggregates : List Item) (g : Group) : Row :=
  { header := header, values := g.key ++ aggregateAll aggregates g.rows.reverse }

/-- One row for each group, shaped into items, each of which must be grouped by or be an aggregate.
-/
def grouped (d : RowSet) (items groupBy : List Item) : Plan RowSet := do
  match aggregatesOf items with
  | .error e =>
    d.close
    throw e
  | .ok aggregates =>
    let header := groupBy ++ aggregates
    match items.find? fun i => !Header.isReadable header i with
    | some loose =>
      d.close
      throw (.notGrouped loose.sqlWithoutAlias)
    | none =>
      let groups ← d.foldRows (groupRow groupBy aggregates) []
      (ofRows header (groups.map (·.toRow header aggregates))).selection items

/-- The unique rows, each where it first appears. -/
def distinct (d : RowSet) : Plan RowSet := d.grouped d.header d.header

/-! ## Aggregating without groups -/

/-- What reading all rows for aggregates collects, last row first: contributions, and the rows. -/
structure Collected where
  contributed : List (List Value) := []
  rows : List Row := []

/-- One more row. -/
def collectRow (aggregates : List Item) (c : Collected) (row : Row) :
    Except QueryError Collected := do
  return ⟨(← contributions aggregates row) :: c.contributed, row :: c.rows⟩

/-- The value of a selected item beside aggregates: an aggregate, or the value in a row if there is
one. -/
def valueBeside (aggregates : List Item) (results : List Value) (row : Option Row) (i : Item) :
    Value :=
  match aggregates.findIdx? (·.sameAs true i) with
  | some index => (results[index]?).getD .null
  | none => (row.bind (·.evaluate? i)).getD .null

/-- The aggregates among items over all rows: one row if there are no other items or no rows, else
each row with the aggregates beside it.  Without aggregates the data set stays as it is.  -/
def aggregated (d : RowSet) (items : List Item) : Plan RowSet := do
  match aggregatesOf items with
  | .error e =>
    d.close
    throw e
  | .ok [] => return d
  | .ok aggregates =>
    let others := items.filter (·.aggregate?.isNone)
    match others.find? fun i => !Header.isReadable d.header i with
    | some missing =>
      d.close
      throw (.selectItemMissing missing.sqlWithoutAlias)
    | none =>
      let collected ← d.foldRows (collectRow aggregates) {}
      let results := aggregateAll aggregates collected.contributed.reverse
      let rowFor := fun (row : Option Row) =>
        ({ header := items, values := items.map (valueBeside aggregates results row) } : Row)
      let rows := if others.isEmpty then [] else collected.rows.reverse
      return ofRows items (if rows.isEmpty then [rowFor none] else rows.map (rowFor ∘ some))

end DocQuery.RowSet
