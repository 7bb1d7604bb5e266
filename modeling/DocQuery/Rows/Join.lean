import DocQuery.Rows.Operators

/-!
# DocQuery.Rows.Join — products and joins of data sets

A join runs through the rows of its outer side and combines each with all rows of the inner side,
which is read beforehand.  A product of several data sets applies each filter at the first stage
whose combined items cover what the filter reads.  A left join keeps outer rows without a match and
pads them with nulls; a right join is a left join of the sides swapped, put back into order.
-/

namespace DocQuery.RowSet

/-! ## The nested loop -/

/-- An outer row combined with the values of an inner row. -/
def combine (header : List Item) (outer : Row) (inner : List Value) : Row :=
  { header := header, values := outer.values ++ inner }

/-- The outcome of one pair of rows: the combined row, nothing, or a failure of a filter. -/
def pairOutcome (filters : List Filter) (row : Row) : Option (Except QueryError Row) :=
  match Filter.allAccept row filters with
  | .ok true => some (.ok row)
  | .ok false => none
  | .error e => some (.error e)

/-- Whether an outcome is a row. -/
def isRow : Except QueryError Row → Bool
  | .ok _ => true
  | .error _ => false

/-- What an outer row gives rise to: the combined rows that the filters accept, and a padded row if
there is none and `pad` gives the padding. -/
def matchesOf (header : List Item) (inner : List Row) (filters : List Filter)
    (pad : Option (List Value)) (outer : Row) : List (Except QueryError Row) :=
  let found := inner.filterMap fun row => pairOutcome filters (combine header outer row.values)
  match pad with
  | some padding => if found.any isRow then found else found ++ [.ok (combine header outer padding)]
  | none => found

/-- The outer rows joined with inner rows. -/
def nestedLoop (outer : RowSet) (innerItems : List Item) (inner : List Row) (filters : List Filter)
    (padded : Bool) : RowSet :=
  let header := outer.header ++ innerItems
  let pad := if padded then some (List.replicate innerItems.length .null) else none
  { outer with
    header := header
    stream := outer.stream.expand (matchesOf header inner filters pad) }

/-! ## Products -/

/-- The product of an outer data set with further ones, with the filters that still wait for their
items; `all` are the items of all of them.  An inner side without rows ends it early. -/
def productWith (all : List Item) : (outer : RowSet) → (filters : List Filter) → List RowSet →
    Plan RowSet
  | outer, pending, [] => return outer.filtered pending
  | outer, pending, inner :: rest => do
    let rows ← inner.toRows.orElseClosing do
      outer.close
      closeAll rest
    if rows.isEmpty then
      outer.close
      closeAll rest
      return empty all
    let header := outer.header ++ inner.header
    let (applicable, later) := pending.partition fun f => f.items.all (Header.isReadable header)
    productWith all (outer.nestedLoop inner.header rows applicable false) later rest

/-- The product of data sets, the first one outermost, of the rows that all filters accept. -/
def cartesianProduct (sets : List RowSet) (filters : List Filter) : Plan RowSet :=
  match sets with
  | [] => throw .nothingToJoin
  | first :: rest => productWith (sets.flatMap (·.header)) first filters rest

/-! ## One-sided joins -/

/-- Every left row with the right rows that the filters accept, or with nulls if there is none. -/
def leftJoin (left right : RowSet) (conditions : List Filter) : Plan RowSet := do
  let rows ← right.toRows.orElseClosing left.close
  return left.nestedLoop right.header rows conditions true

/-- Every right row with the left rows that the filters accept, or with nulls if there is none; the
left items come first. -/
def rightJoin (left right : RowSet) (conditions : List Filter) : Plan RowSet := do
  (← leftJoin right left conditions).selection (left.header ++ right.header)

end DocQuery.RowSet
