import DocQuery.Engine.Source

/-!
# DocQuery.Engine.Execution — running a query

A query on one table without grouping takes a short way where there is one: the source counts, the
source finds the row of a key, or a simple selection reads the table directly.  Every other query
reads its from items with the columns that it needs, filters their product, groups or aggregates,
filters again, selects and orders, and cuts out its window of rows.
-/

namespace DocQuery

/-- Which leniencies and short ways are taken. -/
structure Options where
  /-- A select item may be a text that means nothing known, if it has an alias. -/
  expressions : Bool := false
  /-- The source is asked to count rows. -/
  countPushdown : Bool := true
  /-- The source is asked for the row of a key. -/
  keyLookup : Bool := true
deriving DecidableEq

namespace Engine

/-! ## Short ways -/

/-- Whether all items are columns or scalar functions of columns. -/
def isSimple (items : List Item) : Bool :=
  items.all fun i => i.aggregate?.isNone && i.expression?.isNone

/-- The count of all rows that the select list consists of, where at most one equality filters. -/
def countItem? (items : List Item) (filters : List Filter) : Option Item :=
  match items, filters with
  | [i], [] => if i.isCountAll then some i else none
  | [i], [.comparison _ .equal _] => if i.isCountAll then some i else none
  | _, _ => none

/-- The key column and the key of a table, where one equality of that column with a value filters.
-/
def keyCondition? (t : Table) (filters : List Filter) : Option (Column × Value) :=
  match filters with
  | [.comparison i .equal (.value key)] =>
    if key.isNull || i.function.isSome then none
    else match (i.column?).bind fun c => t.columnNamed? c.name with
      | some c => if c.primaryKey then some (c, key) else none
      | none => none
  | _ => none

/-- A count as a value: an integer if it fits, else a double. -/
def countValue (n : Nat) : Value :=
  match Word.ofInt? n with
  | some i => .integer i
  | none => .float (.ofInt n)

/-- The count by the source itself. -/
def countShortcut (s : RowSource) (options : Options) (q : Query) (t : Table) :
    Plan (Option RowSet) := do
  match if options.countPushdown then countItem? q.select q.filters else none with
  | none => return none
  | some item => match ← s.askCount t q.filters item.approximate with
    | none => return none
    | some n =>
      let row : Row := { header := q.select, values := [countValue n] }
      return some ((RowSet.ofRows q.select [row]).paged q.firstRow q.maxRows)

/-- The row of a key by the source itself. -/
def keyShortcut (s : RowSource) (options : Options) (q : Query) (t : Table) :
    Plan (Option RowSet) := do
  match if options.keyLookup && isSimple q.select then keyCondition? t q.filters else none with
  | none => return none
  | some (column, key) => match ← s.askLookup t q.select column key with
    | none => return none
    | some d => return some ((← d.selection q.select).paged q.firstRow q.maxRows)

/-- The short way of a query on one table, if there is one. -/
def shortcut (s : RowSource) (options : Options) (q : Query) (t : Table) :
    Plan (Option RowSet) := do
  match ← countShortcut s options q t with
  | some d => return some d
  | none => match ← keyShortcut s options q t with
    | some d => return some d
    | none =>
      if isSimple q.select && !q.distinct && q.orderBy.isEmpty then
        return some (← s.materializeTable t q.select q.filters q.firstRow q.maxRows)
      else return none

/-- The table of a query that may take a short way. -/
def shortcutTable? (q : Query) : Option Table :=
  match q.sources with
  | [source] => if q.groupBy.isEmpty && q.having.isEmpty then source.table? else none
  | _ => none

/-! ## Items that a query needs -/

/-- Items followed by those that are needed after filtering: to group, to filter again and to order.
-/
def withLaterItems (q : Query) (items : List Item) : List Item :=
  (q.groupBy ++ Filter.itemsOf q.having ++ q.orderBy.map (·.item)).foldl Item.pushNew items

/-- All items that a query needs of its from items. -/
def neededItems (q : Query) : List Item :=
  withLaterItems q ((q.select ++ Filter.itemsOf q.filters).foldl Item.pushNew [])

/-- The column of a table that an item reads from it under a label. -/
def ownedColumn? (t : Table) (label : String) (i : Item) : Option Column :=
  i.column?.filter fun c => match i.scope with
    | some scope => Text.sameName scope label
    | none => c.table == t.name

/-- The columns of a table that items need under a label, as items scoped to it. -/
def tableItems (t : Table) (label : String) (needed : List Item) : Plan (List Item) := do
  let make := fun c id => Item.ofColumn id c (some label)
  let distinct := (needed.filterMap (ownedColumn? t label)).foldl
    (fun kept c => if kept.contains c then kept else kept ++ [c]) []
  Plan.makeItems (distinct.map make)

/-- Whether an item refers into a subquery with a label. -/
def refersInto (label : Option String) (i : Item) : Bool :=
  i.inner?.isSome &&
    match i.scope, label with
    | some scope, some label => Text.sameName scope label
    | none, none => true
    | _, _ => false

/-- The references into a subquery that items need, without functions and aliases. -/
def subqueryItems (label : Option String) (needed : List Item) : Plan (List Item) := do
  let bases ← (needed.filter (refersInto label)).mapM fun i =>
    if i.function.isSome then do return i.withFunction (← Plan.drawItem) none
    else return i.withoutAlias
  return bases.foldl Item.pushNew []

/-- What a join needs of its sides: what is needed of it, and the items of its conditions. -/
def joinItems (conditions : List (Item × Item)) (needed : List Item) : List Item :=
  (conditions.map (·.1) ++ conditions.map (·.2)).foldl Item.pushNew needed

/-! ## The long way -/

/-- The join of two data sets. -/
def join (kind : JoinKind) (left right : RowSet) (conditions : List Filter) : Plan RowSet :=
  match kind with
  | .inner => RowSet.cartesianProduct [left, right] conditions
  | .left => left.leftJoin right conditions
  | .right => left.rightJoin right conditions

/-- The result of a query from the data sets of its from items. -/
def finish (q : Query) (sets : List RowSet) : Plan RowSet := do
  let d ← match sets with
    | [d] => pure (d.filtered q.filters)
    | sets => RowSet.cartesianProduct sets q.filters
  let items := withLaterItems q q.select
  let d ← if q.groupBy.isEmpty then d.aggregated items else d.grouped items q.groupBy
  let d := d.filtered q.having
  let d ← if q.distinct then do
      let d ← d.selection q.select
      (← d.distinct).ordered q.orderBy
    else do
      (← d.ordered q.orderBy).selection q.select
  return d.paged q.firstRow q.maxRows

mutual

/-- The data set of a from item with the items needed of it. -/
def materialize (s : RowSource) (options : Options) (needed : List Item) : FromItem → Plan RowSet
  | .table t aliasName => do
    let items ← tableItems t (aliasName.getD t.name) needed
    s.materializeTable t items [] 1 none
  | .join kind l r conditions _ => do
    let needed := joinItems conditions needed
    let left ← materialize s options needed l
    let right ← (materialize s options needed r).orElseClosing left.close
    join kind left right (FromItem.onFilters conditions)
  | .subquery q aliasName => do
    let items ← subqueryItems aliasName needed
    return (← execute s options q).projected items
  | .expression text _ => throw (.unreadableSource text)

/-- The data sets of from items after those that are there already, which are closed if one fails.
-/
def materializeAll (s : RowSource) (options : Options) (needed : List Item) :
    (done : List RowSet) → List FromItem → Plan (List RowSet)
  | done, [] => return done
  | done, f :: rest => do
    let d ← (materialize s options needed f).orElseClosing (RowSet.closeAll done)
    materializeAll s options needed (done ++ [d]) rest

/-- The result of a query. -/
def execute (s : RowSource) (options : Options) : QueryOf FromItem → Plan RowSet
  | ⟨select, distinct, sources, filters, groupBy, having, orderBy, firstRow, maxRows⟩ => do
    let q : Query :=
      ⟨select, distinct, sources, filters, groupBy, having, orderBy, firstRow, maxRows⟩
    if sources.isEmpty then throw (.noFromItems q.sql)
    if maxRows = some 0 then return .empty select
    let short ← match shortcutTable? q with
      | some t => shortcut s options q t
      | none => pure none
    match short with
    | some d => return d
    | none => finish q (← materializeAll s options (neededItems q) [] sources)

end

/-! ## Compiled queries -/

/-- A query with the count of its parameters. -/
structure Compiled where
  query : Query
  parameterCount : Nat

/-- A query made ready for parameters. -/
def compile (q : Query) : Compiled := ⟨q, q.parameterCount⟩

/-- The result of a compiled query with values for its parameters. -/
def executeCompiled (s : RowSource) (options : Options) (c : Compiled) (values : List Value) :
    Plan RowSet := do
  if values.length ≠ c.parameterCount then
    throw (.parameterMismatch c.parameterCount values.length)
  let q ← (c.query.withParameters values : Except QueryError Query)
  execute s options q

end Engine

end DocQuery
