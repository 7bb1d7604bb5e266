import DocQuery.Value.Basic

/-!
# DocQuery.Documents.Cell — the values of cells without types

Cells of comma separated values are texts.  Each column has one kind, the narrowest that all of its
cells that are not empty are of, and every cell is read as a value of that kind.
-/

namespace DocQuery

/-- The kind of a column. -/
inductive CellKind where
  | integer | float | boolean | text
deriving DecidableEq

namespace CellKind

/-- Whether a cell is one of the two words for booleans. -/
def isBooleanWord (cell : List Char) : Bool :=
  Text.eqIgnoreCase cell "true".toList || Text.eqIgnoreCase cell "false".toList

/-- The narrowest kind of a cell.  A number without any digit is a text. -/
def ofCell (cell : List Char) : CellKind :=
  if (Decimal.readInt64? cell).isSome then .integer
  else if cell.any Char.isDigit && (Decimal.readBinary64? cell).isSome then .float
  else if isBooleanWord cell then .boolean
  else .text

/-- The narrowest kind that covers two kinds. -/
def union (a b : CellKind) : CellKind :=
  if a = b then a
  else match a, b with
    | .integer, .float | .float, .integer => .float
    | _, _ => .text

/-- The kind of a column with one more cell. -/
def widen (kind : Option CellKind) (cell : List Char) : Option CellKind :=
  match kind with
  | none => some (ofCell cell)
  | some kind => some (kind.union (ofCell cell))

/-- The kind of a column of cells; of one without cells that are not empty it is text. -/
def infer (cells : List (List Char)) : CellKind :=
  ((cells.filter (· ≠ [])).foldl widen none).getD .text

/-- A cell read as a value of a kind, if it is of that kind. -/
def read? (kind : CellKind) (cell : List Char) : Option Value :=
  match kind with
  | .integer => (Decimal.readInt64? cell).map Value.integer
  | .float => (Decimal.readBinary64? cell).map Value.float
  | .boolean => some (.boolean (Text.eqIgnoreCase cell "true".toList))
  | .text => none

/-- The value of a cell in a column of a kind: null if it is empty. -/
def value (kind : CellKind) (cell : List Char) : Value :=
  if cell = [] then .null else (kind.read? cell).getD (.text (String.ofList cell))

end CellKind

end DocQuery
