import DocQuery.Query.Item

/-!
# DocQuery.Rows.Header — where a row keeps an item

The header of a row is the list of its items.  An item is looked up by identity first, then by what
it denotes within its scope, then in any scope; an item with a scalar function that is not there is
looked up once more without the function, which the reader of the row then has to apply.  Identities
are drawn from one on; zero is the identity of items made for a look-up alone, which no header
holds.

A memo keeps the answers of look-ups by identity (`Header.Memo`).  It gives the answers of the
header itself as long as items with one identity denote the same.
-/

namespace DocQuery

/-- The item without its function, made for look-ups alone. -/
def Item.bare (i : Item) : Item := i.withFunction 0 none

namespace Header

/-- Where an item was found, and whether its function is still to be applied. -/
structure Resolution where
  index : Nat
  viaFunction : Bool
deriving DecidableEq

/-- The place of an item: by identity, by what it denotes within its scope, or in any scope. -/
def find? (items : List Item) (i : Item) : Option Nat :=
  items.findIdx? (fun c => c.id == i.id) <|>
    items.findIdx? (Item.sameAs true · i) <|> items.findIdx? (Item.sameAs false · i)

/-- The place of an item, or of what its scalar function reads. -/
def resolve? (items : List Item) (i : Item) : Option Resolution :=
  match find? items i with
  | some n => some ⟨n, false⟩
  | none => if i.scalar?.isSome then (find? items i.bare).map (⟨·, true⟩) else none

/-- The place of a plain column: the column itself, or one of the same name and table in any case.
-/
def columnIndex? (items : List Item) (column : Column) : Option Nat :=
  let plain := fun (test : Column → Bool) (i : Item) => i.function.isNone && i.column?.any test
  items.findIdx? (plain (· == column)) <|>
    items.findIdx? (plain fun c =>
      Text.sameName c.name column.name && Text.sameName c.table column.table)

/-- Whether an item can be read from rows with these items: itself, or the item of a subquery that
it refers to. -/
def isReadable (items : List Item) (i : Item) : Bool :=
  (resolve? items i).isSome || i.inner?.any fun inner => (resolve? items inner).isSome

/-! ## Memos -/

/-- A header with the answers it gave so far. -/
structure Memo where
  items : List Item
  resolved : List (Nat × Option Resolution) := []
  columns : List (Column × Option Nat) := []

namespace Memo

/-- The place of an item: the answer kept for its identity, or a new one. -/
def resolve? (m : Memo) (i : Item) : Option Resolution × Memo :=
  match m.resolved.lookup i.id with
  | some answer => (answer, m)
  | none =>
    let answer := Header.resolve? m.items i
    (answer, { m with resolved := (i.id, answer) :: m.resolved })

/-- The place of a plain column: the answer kept for it, or a new one. -/
def columnIndex? (m : Memo) (column : Column) : Option Nat × Memo :=
  match m.columns.lookup column with
  | some answer => (answer, m)
  | none =>
    let answer := Header.columnIndex? m.items column
    (answer, { m with columns := (column, answer) :: m.columns })

end Memo

end Header

end DocQuery
