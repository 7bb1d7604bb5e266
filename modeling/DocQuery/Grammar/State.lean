import DocQuery.Grammar.Reference

/-!
# DocQuery.Grammar.State — what reading a query keeps track of

Reading draws identities for the items it makes and numbers the parameters of a query in the order
in which they appear.  Both counters survive an error.
-/

namespace DocQuery.Grammar

/-- The counters of reading. -/
structure State where
  nextItem : Nat := 1
  nextParameter : Nat := 0

/-- What queries are read against: the table of a name, and whether a select item may be a text that
means nothing known. -/
structure Catalog where
  table? : String → Option Table
  expressions : Bool := false

/-- Computations that read a part of a query. -/
abbrev Reader := ExceptT QueryError (StateM State)

/-- The next identity of an item. -/
def drawItem : Reader Nat := modifyGet fun s => (s.nextItem, { s with nextItem := s.nextItem + 1 })

/-- The next parameter. -/
def drawParameter : Reader Nat :=
  modifyGet fun s => (s.nextParameter, { s with nextParameter := s.nextParameter + 1 })

/-- An item with the next identity. -/
def make (pending : Pending) : Reader Item := do return pending (← drawItem)

/-- The item that a resolution found, or an error where it found none. -/
def makeFound (found : Except QueryError (Option Pending)) (failure : QueryError) :
    Reader Item := do
  match ← (found : Except QueryError (Option Pending)) with
  | some pending => make pending
  | none => throw failure

/-- The items that from items offer, with the next identities. -/
def makeOffered (sources : List FromItem) : Reader (List Item) := do
  let items := FromItem.offeredItems (← get).nextItem sources
  modify fun s => { s with nextItem := s.nextItem + items.length }
  return items

end DocQuery.Grammar
