import DocQuery.Rows.RowSet

/-!
# DocQuery.Rows.Cursor — reading a data set row by row

A cursor stands on a row of its data set, or before the first one, or after the last.  It closes the
data set when it is told to, when an advance fails, and when it is dropped, but not a second time;
reading all remaining rows closes the data set in any case.
-/

namespace DocQuery

/-- A cursor on a data set. -/
structure Cursor where
  rows : RowSet
  current : Option Row := none
  closed : Bool := false

namespace Cursor

/-- Closes the data set unless it is closed already. -/
def close (c : Cursor) : Plan Cursor := do
  if c.closed then return c
  c.rows.close
  return { c with closed := true, rows := c.rows.withStream Stream.close }

/-- Moves to the next row; whether there is one, or why it could not be read.  A closed cursor stays
where it is. -/
def next (c : Cursor) : Plan (Except QueryError Bool × Cursor) := do
  if c.closed then return (.ok false, c)
  let (pulls, outcome, rest) := c.rows.stream.advance
  c.rows.recordPulls pulls
  let c := { c with rows := c.rows.withStream fun _ => rest }
  match outcome with
  | .ok row => return (.ok row.isSome, { c with current := row })
  | .error e =>
    let c ← close { c with current := none }
    return (.error e, c)

/-- Closes the data set at the end of the cursor's life. -/
def drop (c : Cursor) : Plan Unit := do
  let _ ← c.close

/-- All rows from here on, at the end of the cursor's life. -/
def toRows (c : Cursor) : Plan (List Row) := c.rows.toRows

end Cursor

end DocQuery
