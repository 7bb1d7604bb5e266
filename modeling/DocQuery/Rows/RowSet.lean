import DocQuery.Rows.Stream

/-!
# DocQuery.Rows.RowSet — data sets and the ledger of their use

A data set has the items of its rows and a stream.  At its bottom there may be a data set that a row
source handed out; how often that was advanced and closed is kept in a ledger, which planning
carries along and which survives failures.  Whatever reads a data set to its end closes it, on
success and on failure alike.
-/

namespace DocQuery

/-- How often a data set of a row source was advanced and closed. -/
structure Meter where
  advances : Nat := 0
  closes : Nat := 0
deriving DecidableEq

/-- What a row source was asked. -/
inductive Request where
  | read (table : String) (columns : List Column) (limit : Option Nat)
  | count (table : String) (filters : List Filter) (approximate : Bool)
  | lookup (table : String) (column : Column) (key : Value) (select : List Item)

/-- What planning keeps track of: the next identity of an item, the data sets handed out, and the
requests made, in order. -/
structure Ledger where
  nextItem : Nat := 1
  meters : List Meter := []
  requests : List Request := []

/-- Computations that plan and read data sets. -/
abbrev Plan := ExceptT QueryError (StateM Ledger)

namespace Plan

/-- The next identity of an item. -/
def drawItem : Plan Nat := modifyGet fun l => (l.nextItem, { l with nextItem := l.nextItem + 1 })

/-- Items with the next identities. -/
def makeItems (pending : List (Nat → Item)) : Plan (List Item) := pending.mapM fun make => do
  return make (← drawItem)

/-- Notes that a request was made; the requests before it. -/
def note (r : Request) : Plan (List Request) :=
  modifyGet fun l => (l.requests, { l with requests := l.requests ++ [r] })

/-- Changes the meter of a data set. -/
def record (source : Nat) (f : Meter → Meter) : Plan Unit :=
  modify fun l => { l with meters := l.meters.modify source f }

/-- A computation that is followed by another if it fails. -/
def orElseClosing {α : Type} (p : Plan α) (cleanup : Plan Unit) : Plan α :=
  tryCatch p fun e => do
    cleanup
    throw e

end Plan

/-- A data set: the items of its rows, the data set of a row source at its bottom if there is one,
and what it will give. -/
structure RowSet where
  header : List Item
  source : Option Nat
  stream : Stream

namespace RowSet

/-- A data set of rows that are there already. -/
def ofRows (header : List Item) (rows : List Row) : RowSet :=
  ⟨header, none, .ofOutcomes (rows.map .ok)⟩

/-- A data set without rows. -/
def empty (header : List Item) : RowSet := ofRows header []

/-- A data set that a row source hands out. -/
def handedOut (header : List Item) (outcomes : List (Except QueryError Row)) : Plan RowSet :=
  modifyGet fun l =>
    (⟨header, some l.meters.length, .ofOutcomes outcomes⟩, { l with meters := l.meters ++ [{}] })

/-- Notes advances of the data set at the bottom. -/
def recordPulls (d : RowSet) (pulls : Nat) : Plan Unit :=
  match d.source with
  | some n => Plan.record n fun m => { m with advances := m.advances + pulls }
  | none => pure ()

/-- Closes a data set. -/
def close (d : RowSet) : Plan Unit :=
  match d.source with
  | some n => Plan.record n fun m => { m with closes := m.closes + 1 }
  | none => pure ()

/-- Closes data sets. -/
def closeAll : List RowSet → Plan Unit
  | [] => pure ()
  | d :: rest => do
    d.close
    closeAll rest

/-- A computation over all rows of a data set, which is closed afterwards. -/
def foldRows {σ : Type} (d : RowSet) (f : σ → Row → Except QueryError σ) (start : σ) : Plan σ := do
  let (pulls, result) := d.stream.fold f start
  d.recordPulls pulls
  d.close
  result

/-- All rows of a data set, which is closed afterwards. -/
def toRows (d : RowSet) : Plan (List Row) := do
  return (← d.foldRows (fun rows row => .ok (row :: rows)) []).reverse

/-- A data set with its stream changed. -/
def withStream (d : RowSet) (f : Stream → Stream) : RowSet := { d with stream := f d.stream }

/-! ## Iteration -/

/-- All rows up to the first failure, and that failure if there is one; the data set is closed
afterwards. -/
def iterate (d : RowSet) : Plan (List Row × Option QueryError) := do
  let collect (rows : List Row) (row : Row) : Except QueryError (List Row) := .ok (row :: rows)
  let rec go : List Row → Stream → List Row × Option QueryError
    | rows, .closed _ => (rows, none)
    | rows, .step _ _ outcome rest => match outcome with
      | .ok (some row) => go (row :: rows) rest
      | .ok none => (rows, none)
      | .error e => (rows, some e)
  let (rows, failure) := go [] d.stream
  d.recordPulls (d.stream.fold collect []).1
  d.close
  return (rows.reverse, failure)

end RowSet

end DocQuery
