import DocQuery.Query.Filter

/-!
# DocQuery.Query.Basic — queries and what they draw rows from

A query has a select list, from items, filters before and after grouping, items to group and to
order by, and a window of rows.  A from item is a table, a subquery, a join of two from items, or an
expression that rows cannot be read from.  Every query has a text that reads back as the query.
-/

namespace DocQuery

/-! ## Types -/

/-- The direction of an order. -/
inductive Direction where
  | ascending | descending
deriving DecidableEq

/-- How a direction is written. -/
def Direction.sql : Direction → String
  | .ascending => "ASC"
  | .descending => "DESC"

/-- An item to order by. -/
structure OrderItem where
  item : Item
  direction : Direction

/-- How the two sides of a join are matched. -/
inductive JoinKind where
  | inner | left | right
deriving DecidableEq

namespace JoinKind

/-- How a join is written. -/
def sql : JoinKind → String
  | .inner => "INNER"
  | .left => "LEFT"
  | .right => "RIGHT"

/-- The join of a keyword in any case, blanks around it aside. -/
def ofKeyword? (keyword : List Char) : Option JoinKind :=
  let word := String.ofList (Text.upper (Text.trim keyword))
  [JoinKind.inner, .left, .right].find? fun k => k.sql == word

end JoinKind

/-- A query over from items of a type.  The first row is counted from one. -/
structure QueryOf (φ : Type) where
  select : List Item := []
  distinct : Bool := false
  sources : List φ := []
  filters : List Filter := []
  groupBy : List Item := []
  having : List Filter := []
  orderBy : List OrderItem := []
  firstRow : Nat := 1
  maxRows : Option Nat := none

/-- What a query draws rows from. -/
inductive FromItem where
  | table (table : Table) (aliasName : Option String)
  | subquery (query : QueryOf FromItem) (aliasName : Option String)
  | expression (text : String) (aliasName : Option String)
  | join (kind : JoinKind) (left right : FromItem) (conditions : List (Item × Item))
      (aliasName : Option String)

/-- A query. -/
abbrev Query := QueryOf FromItem

namespace FromItem

/-! ## Parts of from items -/

/-- The alias of a from item. -/
def alias? : FromItem → Option String
  | .table _ aliasName | .subquery _ aliasName | .expression _ aliasName
  | .join _ _ _ _ aliasName => aliasName

/-- The from item under an alias. -/
def withAlias (aliasName : String) : FromItem → FromItem
  | .table t _ => .table t (some aliasName)
  | .subquery q _ => .subquery q (some aliasName)
  | .expression text _ => .expression text (some aliasName)
  | .join kind l r conditions _ => .join kind l r conditions (some aliasName)

/-- The table of a from item that is one. -/
def table? : FromItem → Option Table
  | .table t _ => some t
  | _ => none

/-- The name that items refer to a from item by: its alias, or the name of the table. -/
def label? (f : FromItem) : Option String := f.alias? <|> f.table?.map (·.name)

/-- The from items that are no joins, from left to right. -/
def leaves : FromItem → List FromItem
  | .join _ l r _ _ => leaves l ++ leaves r
  | f => [f]

/-- The from item that a reference means: an alias exactly so, an alias in any case, or the name of
a table without alias in any case. -/
def referenced? (f : FromItem) (reference : String) : Option FromItem :=
  let aliased := fun (test : String → Bool) (leaf : FromItem) => leaf.alias?.any test
  f.leaves.find? (aliased (· == reference)) <|>
    f.leaves.find? (aliased (Text.sameName · reference)) <|>
    f.leaves.find? fun leaf =>
      leaf.alias?.isNone && leaf.table?.any fun t => Text.sameName t.name reference

/-- The conditions of a join as filters. -/
def onFilters (conditions : List (Item × Item)) : List Filter :=
  conditions.map fun (l, r) => .comparison l .equal (.item r)

/-! ## Texts -/

/-- The text of the conditions of a join. -/
def onSql (conditions : List (Item × Item)) : String :=
  Text.joinWith " AND " <|
    conditions.map fun (l, r) => l.sqlWithoutAlias ++ " = " ++ r.sqlWithoutAlias

/-- A text with an alias after it. -/
def aliased (body : String) : Option String → String
  | some aliasName => body ++ " " ++ aliasName
  | none => body

/-- The text of a query whose from items have the given texts. -/
def querySql (q : QueryOf FromItem) (sources : List String) : String :=
  let clause := fun (keyword : String) (separator : String) (parts : List String) =>
    if parts.isEmpty then "" else keyword ++ Text.joinWith separator parts
  "SELECT " ++ (if q.distinct then "DISTINCT " else "") ++
    Text.joinWith ", " (q.select.map Item.sql) ++ " FROM " ++ Text.joinWith ", " sources ++
    clause " WHERE " " AND " (q.filters.map Filter.sql) ++
    clause " GROUP BY " ", " (q.groupBy.map Item.sqlWithoutAlias) ++
    clause " HAVING " " AND " (q.having.map Filter.sql) ++
    clause " ORDER BY " ", "
      (q.orderBy.map fun o => o.item.sqlWithoutAlias ++ " " ++ o.direction.sql) ++
    (match q.maxRows with
      | some n => " LIMIT " ++ toString n
      | none => "") ++
    if 1 < q.firstRow then " OFFSET " ++ toString (q.firstRow - 1) else ""

mutual

/-- The text of a from item.  Joins and expressions do not show their alias. -/
def sql : FromItem → String
  | .table t aliasName => aliased t.name aliasName
  | .subquery q aliasName => aliased ("(" ++ sqlOfQuery q ++ ")") aliasName
  | .expression text _ => text
  | .join kind l r conditions _ =>
    sql l ++ " " ++ kind.sql ++ " JOIN " ++ sql r ++ " ON " ++ onSql conditions

/-- The texts of from items. -/
def sqls : List FromItem → List String
  | [] => []
  | f :: rest => sql f :: sqls rest

/-- The text of a query. -/
def sqlOfQuery : QueryOf FromItem → String
  | ⟨select, distinct, sources, filters, groupBy, having, orderBy, firstRow, maxRows⟩ =>
    querySql ⟨select, distinct, sources, filters, groupBy, having, orderBy, firstRow, maxRows⟩
      (sqls sources)

end

/-! ## Joins -/

/-- A join of two from items on pairs of items that must be equal; there is at least one pair. -/
def join? (kind : JoinKind) (left right : FromItem) (leftOn rightOn : List Item) :
    Except QueryError FromItem :=
  if leftOn.length ≠ rightOn.length then .error (.unevenJoin leftOn.length rightOn.length)
  else if leftOn.isEmpty then .error (.joinWithoutConditions left.sql right.sql)
  else .ok (.join kind left right (leftOn.zip rightOn) none)

/-! ## Equality -/

/-- Whether two lists of conditions are equal. -/
def sameOn : List (Item × Item) → List (Item × Item) → Bool
  | [], [] => true
  | (a, b) :: xs, (c, d) :: ys => a.same c && b.same d && sameOn xs ys
  | _, _ => false

/-- Whether two lists of items denote the same in the same scopes, aliases aside. -/
def sameItems : List Item → List Item → Bool
  | [], [] => true
  | a :: as, b :: bs => a.sameAs true b && sameItems as bs
  | _, _ => false

/-- Whether two lists of items to order by are equal. -/
def sameOrder : List OrderItem → List OrderItem → Bool
  | [], [] => true
  | a :: as, b :: bs =>
    a.direction == b.direction && a.item.sameAs true b.item && sameOrder as bs
  | _, _ => false

/-- Whether two queries are equal in all but their from items. -/
def sameClauses (p q : QueryOf FromItem) : Bool :=
  Item.sameLayout p.select q.select && p.distinct == q.distinct &&
  Filter.allSame p.filters q.filters && sameItems p.groupBy q.groupBy &&
  Filter.allSame p.having q.having && sameOrder p.orderBy q.orderBy &&
  p.firstRow == q.firstRow && p.maxRows == q.maxRows

mutual

/-- Whether two from items are equal. -/
def same : FromItem → FromItem → Bool
  | .table t a, .table u b => t == u && a == b
  | .subquery p a, .subquery q b => sameQuery p q && a == b
  | .expression s a, .expression t b => s == t && a == b
  | .join k l r conditions a, .join k' l' r' conditions' b =>
    k == k' && same l l' && same r r' && sameOn conditions conditions' && a == b
  | _, _ => false

/-- Whether two lists hold equal from items. -/
def allSame : List FromItem → List FromItem → Bool
  | [], [] => true
  | a :: as, b :: bs => same a b && allSame as bs
  | _, _ => false

/-- Whether two queries are equal. -/
def sameQuery : QueryOf FromItem → QueryOf FromItem → Bool
  | ⟨select, distinct, sources, filters, groupBy, having, orderBy, firstRow, maxRows⟩, q =>
    sameClauses
        ⟨select, distinct, sources, filters, groupBy, having, orderBy, firstRow, maxRows⟩ q &&
      allSame sources q.sources

end

end FromItem

namespace QueryOf

/-- The text of a query. -/
def sql (q : Query) : String := FromItem.sqlOfQuery q

/-- Whether two queries are equal. -/
def same (p q : Query) : Bool := FromItem.sameQuery p q

/-- The select item with an alias, in any case. -/
def aliased? (q : Query) (aliasName : String) : Option Item :=
  q.select.find? fun i => i.aliasName.any (Text.sameName · aliasName)

/-- The from item that a reference means. -/
def source? (q : Query) (reference : String) : Option FromItem :=
  q.sources.findSome? (·.referenced? reference)

/-- The query from a given row on; the first row is row one, and there is none before it. -/
def startingAt (q : Query) (firstRow : Nat) : Query := { q with firstRow := max 1 firstRow }

/-- How many parameters the filters of a query have. -/
def parameterCount (q : Query) : Nat := Filter.parameterCountOf (q.filters ++ q.having)

/-- The query with every parameter of its filters replaced by its value. -/
def withParameters (q : Query) (values : List Value) : Except QueryError Query := do
  let filters ← Filter.allWithParameters values q.filters
  let having ← Filter.allWithParameters values q.having
  return { q with filters := filters, having := having }

end QueryOf

end DocQuery
