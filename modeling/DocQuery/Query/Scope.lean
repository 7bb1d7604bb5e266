import DocQuery.Query.Basic

/-!
# DocQuery.Query.Scope — the items that from items offer, and resolved queries

Every from item that is no join offers items: the columns of a table, the select items of a
subquery.  A query is resolved (`QueryOf.resolved`) by scoping its unscoped columns to the only from
item that owns them, dropping aliases outside the select list, and resolving its subqueries.  New
items draw their identities from a counter.
-/

namespace DocQuery

/-- Computations that draw identities of items from a counter. -/
abbrev Supply := StateM Nat

/-- The next identity. -/
def Supply.draw : Supply Nat := modifyGet fun n => (n, n + 1)

namespace FromItem

/-! ## Items on offer -/

/-- A reference to an item of the subquery that a from item is; it must be one the subquery selects.
-/
def innerItem (id : Nat) (item : Item) : FromItem → Except QueryError Item
  | .subquery q aliasName =>
    if q.select.any (Item.sameAs true · item) then .ok (Item.ofInner id item aliasName)
    else .error (.notSelected (FromItem.subquery q aliasName).sql item.sqlWithoutAlias)
  | f => .error (.notSubquery f.sql)

/-- The items that a from item offers when it is no join, each waiting for its identity. -/
def offers (f : FromItem) : List (Nat → Item) :=
  match f with
  | .table t _ => t.columns.map fun c id => Item.ofColumn id c f.label?
  | .subquery q _ => q.select.map fun i id => Item.ofInner id i f.label?
  | _ => []

/-- The items that from items offer, with identities counted from `first`. -/
def offeredItems (first : Nat) (sources : List FromItem) : List Item :=
  (((sources.flatMap leaves).flatMap offers).zipIdx first).map fun (make, id) => make id

/-! ## Scoping -/

/-- Whether a from item is a table that owns a column. -/
def owns (c : Column) (leaf : FromItem) : Bool :=
  leaf.table?.any fun t => t.name == c.table && (t.columnNamed? c.name).isSome

/-- An unscoped column scoped to the only from item that owns it; any other item as it is. -/
def scopeItem (leaves : List FromItem) (i : Item) : Supply Item :=
  match i.scope, i.column? with
  | none, some c => match leaves.filter (owns c) with
    | [owner] => do return i.withScope (← Supply.draw) owner.label?
    | _ => return i
  | _, _ => return i

/-- Pairs of conditions with their items scoped and without aliases. -/
def scopeOn (scope : Item → Supply Item) (conditions : List (Item × Item)) :
    Supply (List (Item × Item)) :=
  conditions.mapM fun (l, r) => do
    let l ← scope l
    let r ← scope r
    return (l.withoutAlias, r.withoutAlias)

end FromItem

namespace Filter

/-- A comparison with its items passed through a function. -/
def mapComparison (f : Item → Supply Item) (item : Item) (op : Comparison) (operand : Operand) :
    Supply Filter := do
  let item ← f item
  match operand with
  | .item other => return .comparison item op (.item (← f other))
  | operand => return .comparison item op operand

mutual

/-- The filter with every item passed through a function. -/
def mapItems (f : Item → Supply Item) : Filter → Supply Filter
  | .comparison item op operand => mapComparison f item op operand
  | .group op children => do return .group op (← mapAllItems f children)

/-- Filters with every item passed through a function. -/
def mapAllItems (f : Item → Supply Item) : List Filter → Supply (List Filter)
  | [] => return []
  | c :: rest => do
    let c ← mapItems f c
    let rest ← mapAllItems f rest
    return c :: rest

end

end Filter

namespace FromItem

/-- A query with its items scoped by a function, over from items that are resolved already. -/
def scopeQuery (scope : Item → Supply Item) (q : QueryOf FromItem) (sources : List FromItem) :
    Supply (QueryOf FromItem) := do
  let bare := fun i => do return (← scope i).withoutAlias
  return { q with
    select := ← q.select.mapM scope
    sources := sources
    filters := ← Filter.mapAllItems bare q.filters
    groupBy := ← q.groupBy.mapM bare
    having := ← Filter.mapAllItems bare q.having
    orderBy := ← q.orderBy.mapM fun o => do return ⟨← bare o.item, o.direction⟩ }

mutual

/-- A from item with its conditions scoped by a function and its subqueries resolved. -/
def resolved (scope : Item → Supply Item) : FromItem → Supply FromItem
  | .table t aliasName => return .table t aliasName
  | .subquery q aliasName => do return .subquery (← resolvedQuery q) aliasName
  | .expression text aliasName => return .expression text aliasName
  | .join kind l r conditions aliasName => do
    let l ← resolved scope l
    let r ← resolved scope r
    return .join kind l r (← scopeOn scope conditions) aliasName

/-- From items resolved. -/
def allResolved (scope : Item → Supply Item) : List FromItem → Supply (List FromItem)
  | [] => return []
  | f :: rest => do
    let f ← resolved scope f
    let rest ← allResolved scope rest
    return f :: rest

/-- A query resolved. -/
def resolvedQuery : QueryOf FromItem → Supply (QueryOf FromItem)
  | ⟨select, distinct, sources, filters, groupBy, having, orderBy, firstRow, maxRows⟩ => do
    let scope := scopeItem (sources.flatMap leaves)
    let resolvedSources ← allResolved scope sources
    scopeQuery scope
      ⟨select, distinct, sources, filters, groupBy, having, orderBy, firstRow, maxRows⟩
      resolvedSources

end

end FromItem

/-- The query with unscoped columns scoped to the from items that own them, aliases dropped outside
the select list, and subqueries resolved. -/
def QueryOf.resolved (q : Query) : Supply Query := FromItem.resolvedQuery q

end DocQuery
