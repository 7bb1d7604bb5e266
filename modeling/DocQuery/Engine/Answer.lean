import DocQuery.Engine.Execution

/-!
# DocQuery.Engine.Answer — what a query answers

The answer of a query is the items of its columns and all of its rows.  Planning and reading start
from an empty ledger here; what the ledger shows afterwards is not part of the answer.
-/

namespace DocQuery

/-- The columns and the rows that a query answers. -/
structure Answer where
  header : List Item
  rows : List Row

namespace Answer

/-- The labels of the columns. -/
def labels (a : Answer) : List String := a.header.map Item.label

/-- All rows of the data set that a plan makes. -/
def ofPlan (plan : Plan RowSet) : Plan Answer := do
  let d ← plan
  return ⟨d.header, ← d.toRows⟩

end Answer

namespace RowSource

/-- A query read from its text, and the next identity of an item. -/
def parse (s : RowSource) (options : Options) (sql : String) : Except QueryError (Query × Nat) :=
  let (result, state) := (Grammar.readQuery (s.catalog options.expressions) sql).run {}
  result.map (·, state.nextItem)

/-- The answer of a query. -/
def ask (s : RowSource) (options : Options) (sql : String) : Except QueryError Answer := do
  let (q, nextItem) ← s.parse options sql
  ((Answer.ofPlan (Engine.execute s options q)).run { nextItem := nextItem }).1

/-- A query made ready for values of its parameters, and the next identity of an item. -/
def prepare (s : RowSource) (options : Options) (sql : String) :
    Except QueryError (Engine.Compiled × Nat) :=
  (s.parse options sql).map fun (q, nextItem) => (Engine.compile q, nextItem)

/-- The answer of a query with values for its parameters. -/
def askPrepared (s : RowSource) (options : Options) (prepared : Engine.Compiled × Nat)
    (values : List Value) : Except QueryError Answer :=
  ((Answer.ofPlan (Engine.executeCompiled s options prepared.1 values)).run
    { nextItem := prepared.2 }).1

end RowSource

end DocQuery
