import DocQuery.Builtin.Scalar
import DocQuery.Pattern
import DocQuery.Query.Filter
import DocQuery.Rows.Header

/-!
# DocQuery.Rows.Row — rows and what items and filters say of them

A row has the items of a header, values in their order, and perhaps a style for each cell.  An item
is evaluated on a row by looking it up in the header (`Row.evaluate?`); a reference into a subquery
may also be found by the item it refers to.  Filters are evaluated on top of that
(`Filter.accepts`).
-/

namespace DocQuery

/-- How a cell is to be shown. -/
structure Style where
  bold : Bool := false
  italic : Bool := false
  foreground : Option String := none
  background : Option String := none
deriving DecidableEq

/-- One row.  A row with styles has at most one for each value. -/
structure Row where
  header : List Item
  values : List Value
  styles : Option (List (Option Style)) := none

namespace Row

/-- The value at a place; null beyond the last. -/
def value (r : Row) (index : Nat) : Value := (r.values[index]?).getD .null

/-- The style at a place, if the row has one there. -/
def style? (r : Row) (index : Nat) : Option Style :=
  (r.styles.bind fun styles => styles[index]?).join

/-- The text of a row. -/
def text (r : Row) : String := "Row[" ++ Text.joinWith "," (r.values.map Value.display) ++ "]"

/-- A value after the scalar function of an item. -/
def applyScalar (i : Item) (v : Value) : Value :=
  match i.scalar? with
  | some f => f.scalar i.parameters v
  | none => v

/-- Where an item is found, and the item that was found: itself or the one it refers to. -/
def locate? (r : Row) (i : Item) : Option (Header.Resolution × Item) :=
  ((Header.resolve? r.header i).map (·, i)) <|>
    i.inner?.bind fun inner => (Header.resolve? r.header inner).map (·, inner)

/-- The value of an item in a row. -/
def evaluate? (r : Row) (i : Item) : Option Value :=
  (r.locate? i).map fun (found, target) =>
    if found.viaFunction then applyScalar target (r.value found.index) else r.value found.index

/-- The style of an item in a row with styles; plain where there is none. -/
def styleOf (r : Row) (i : Item) : Style :=
  ((r.locate? i).bind fun (found, _) => r.style? found.index).getD {}

/-- The values of items, all of which must be readable. -/
def valuesOf (r : Row) : List Item → Except QueryError (List Value)
  | [] => .ok []
  | i :: rest => match r.evaluate? i with
    | some v => (valuesOf r rest).map (v :: ·)
    | none => .error (.selectItemMissing i.sqlWithoutAlias)

/-- The row with other items, all of which must be readable. -/
def project (r : Row) (items : List Item) : Except QueryError Row :=
  (r.valuesOf items).map fun values =>
    { header := items
      values := values
      styles := r.styles.map fun _ => items.map fun i => some (r.styleOf i) }

/-- The row behind the values of scalar functions, each of which reads one place; `width` is the
number of places that stay visible. -/
def withScalars (r : Row) (header : List Item) (functions : List (Item × Nat)) (width : Nat) :
    Row where
  header := header
  values := functions.map (fun (i, input) => applyScalar i (r.value input)) ++
    (List.range width).map r.value
  styles := r.styles.map fun styles => functions.map (fun _ => none) ++ styles

end Row

/-! ## Filters -/

namespace Comparison

/-- Whether a value compares so with another.  Null equals null alone, and every other comparison
with it fails.  -/
def holds (op : Comparison) (left right : Value) : Bool :=
  match op with
  | .equal => if right.isNull then left.isNull else !left.isNull && left.looseEq right
  | .different => if right.isNull then !left.isNull else !left.isNull && !left.looseEq right
  | op =>
    !left.isNull && !right.isNull &&
      match op with
      | .less => left.compareLoose right == .lt
      | .atMost => left.compareLoose right != .gt
      | .greater => left.compareLoose right == .gt
      | .atLeast => left.compareLoose right != .lt
      | .like => Pattern.accepts right.display.toList left.display.toList
      | .notLike => !Pattern.accepts right.display.toList left.display.toList
      | .isIn => left.looseEq right
      | .notIn => !left.looseEq right
      | .equal => left.looseEq right
      | .different => !left.looseEq right

/-- Whether a value compares so with a list: membership, or any element for other comparisons. -/
def holdsInList (op : Comparison) (left : Value) (values : List Value) : Bool :=
  !left.isNull &&
    match op with
    | .isIn => values.any left.looseEq
    | .notIn => !values.any left.looseEq
    | op => values.any (op.holds left)

end Comparison

namespace Filter

/-- The value of an item that a filter reads. -/
def itemValue (r : Row) (i : Item) : Except QueryError Value :=
  match r.evaluate? i with
  | some v => .ok v
  | none => .error (.filterItemMissing i.sqlWithoutAlias)

/-- Whether a comparison accepts a row. -/
def comparisonAccepts (r : Row) (item : Item) (op : Comparison) (operand : Operand) :
    Except QueryError Bool := do
  let left ← itemValue r item
  match operand with
  | .value v => return op.holds left v
  | .item other => return op.holds left (← itemValue r other)
  | .list values => return op.holdsInList left values
  | .parameter index => throw (.unboundParameter (index + 1))

mutual

/-- Whether a filter accepts a row.  The children of a group are evaluated in order until the result
is known; a group without children accepts.  -/
def accepts (r : Row) : Filter → Except QueryError Bool
  | .comparison item op operand => comparisonAccepts r item op operand
  | .group .and children => allAccept r children
  | .group .or children => if children.isEmpty then .ok true else anyAccepts r children

/-- Whether all filters accept a row, asked in order until one does not. -/
def allAccept (r : Row) : List Filter → Except QueryError Bool
  | [] => .ok true
  | f :: rest => do if ← accepts r f then allAccept r rest else return false

/-- Whether some filter accepts a row, asked in order until one does. -/
def anyAccepts (r : Row) : List Filter → Except QueryError Bool
  | [] => .ok false
  | f :: rest => do if ← accepts r f then return true else anyAccepts r rest

end

end Filter

end DocQuery
