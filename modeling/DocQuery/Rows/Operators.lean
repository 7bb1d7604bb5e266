import DocQuery.Query.Basic
import DocQuery.Rows.RowSet

/-!
# DocQuery.Rows.Operators — filtering, paging, selecting and ordering data sets

Filtering and paging change the stream alone.  A selection shapes rows into given items: items with
a scalar function that the rows do not have yet are computed by a stage of their own first.
Ordering reads all rows and sorts them by the values of items, keeping the order of rows that do not
differ in them.
-/

namespace DocQuery.RowSet

/-! ## Filtering and paging -/

/-- The rows that all filters accept. -/
def filtered (d : RowSet) (filters : List Filter) : RowSet :=
  if filters.isEmpty then d else d.withStream (.filter fun row => Filter.allAccept row filters)

/-- The rows from the first row on, which is counted from one. -/
def fromRow (d : RowSet) (firstRow : Nat) : RowSet := d.withStream (.skip (firstRow - 1))

/-- At most so many rows. -/
def atMost (d : RowSet) (maxRows : Nat) : RowSet := d.withStream (.take maxRows)

/-- The rows from the first row on, and at most so many of them. -/
def paged (d : RowSet) (firstRow : Nat) (maxRows : Option Nat) : RowSet :=
  let d := if 1 < firstRow then d.fromRow firstRow else d
  match maxRows with
  | some n => d.atMost n
  | none => d

/-! ## Selecting -/

/-- Rows with other items, all of which must be readable; rows with equal items already stay as they
are. -/
def projected (d : RowSet) (items : List Item) : RowSet :=
  { d with
    header := items
    stream := if Item.sameLayout d.header items then d.stream else d.stream.map (·.project items) }

/-- The places that scalar functions read, or why one of them cannot be computed. -/
def scalarInputs (header : List Item) : List Item → Except QueryError (List (Item × Nat))
  | [] => .ok []
  | i :: rest =>
    if i.scalar?.isNone then .error (.notScalar i.sql)
    else match Header.resolve? header i.bare with
      | some found => (scalarInputs header rest).map ((i, found.index) :: ·)
      | none => .error (.scalarInputMissing i.sqlWithoutAlias)

/-- The rows behind the values of scalar functions of them.  The data set is closed if one of them
cannot be computed.  -/
def withScalars (d : RowSet) (scalars : List Item) : Plan RowSet :=
  match scalarInputs d.header scalars with
  | .error e => do
    d.close
    throw e
  | .ok functions =>
    let header := scalars ++ d.header
    let width := d.header.length
    return { d with
      header := header
      stream := d.stream.map fun row => .ok (row.withScalars header functions width) }

/-- The scalar functions among the items that the rows do not have, but could compute. -/
def missingScalars (header : List Item) (items : List Item) : List Item :=
  let missing := fun (i : Item) =>
    i.scalar?.isSome && !((Header.resolve? header i).any fun found => !found.viaFunction) &&
      (Header.resolve? header i.bare).isSome
  (items.filter missing).foldl (fun kept i => Item.pushNew kept i.withoutAlias) []

/-- The rows shaped into items.  The data set is closed if an item cannot be read. -/
def selection (d : RowSet) (items : List Item) : Plan RowSet := do
  if Item.sameLayout d.header items then return d
  let scalars := missingScalars d.header items
  let d ← if scalars.isEmpty then pure d else d.withScalars scalars
  match items.find? fun i => !Header.isReadable d.header i with
  | some missing =>
    d.close
    throw (.selectItemMissing missing.sqlWithoutAlias)
  | none => return d.projected items

/-! ## Ordering -/

/-- The order of two lists of keys, each key in its direction. -/
def compareKeys : List OrderItem → List Value → List Value → Ordering
  | o :: os, a :: as, b :: bs =>
    let first := match o.direction with
      | .ascending => a.compare b
      | .descending => (a.compare b).swap
    first.then (compareKeys os as bs)
  | _, _, _ => .eq

/-- The keys of a row; null where an item has no value. -/
def sortKeys (orderBy : List OrderItem) (row : Row) : List Value :=
  orderBy.map fun o => (row.evaluate? o.item).getD .null

/-- Rows sorted by items, rows with equal keys in their given order. -/
def sortRows (orderBy : List OrderItem) (rows : List Row) : List Row :=
  ((rows.map fun row => (sortKeys orderBy row, row)).mergeSort fun a b =>
    compareKeys orderBy a.1 b.1 != .gt).map (·.2)

/-- The rows sorted by items.  The data set is closed, before any row is read if an item is not
readable. -/
def ordered (d : RowSet) (orderBy : List OrderItem) : Plan RowSet := do
  if orderBy.isEmpty then return d
  match orderBy.find? fun o => !Header.isReadable d.header o.item with
  | some missing =>
    d.close
    throw (.orderItemMissing missing.item.sqlWithoutAlias)
  | none => return ofRows d.header (sortRows orderBy (← d.toRows))

end DocQuery.RowSet
