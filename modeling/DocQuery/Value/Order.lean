import DocQuery.Value.Conversion

/-!
# DocQuery.Value.Order — orders and equalities of values

Sorting, the least and the greatest value go by `Value.compare`, a total order of all kinds in which
numeric texts stand among the numbers.  Filters go by `Value.compareLoose`, which brings both sides
to one kind first, and `Value.looseEq`.  Grouping goes by `Value.same` together with `Value.digest`:
two values fall into one group when they are the same and have the same digest.
-/

namespace DocQuery.Value

/-! ## The order for sorting -/

/-- What a value is sorted by.  A numeric text keeps its text, which orders it among equal numbers.
-/
inductive SortKey where
  | null
  | boolean (b : Bool)
  | number (n : Number) (text : Option String)
  | temporal (m : Moment)
  | text (s : String)
  | nested (s : String)

/-- The sort key of a value. -/
def sortKey : Value → SortKey
  | .null => .null
  | .boolean b => .boolean b
  | .number n => .number n none
  | .temporal m => .temporal m
  | .text s => match Number.read? s.toList with
    | some n => .number n (some s)
    | none => .text s
  | .nested j => .nested j.text

namespace SortKey

/-- The rank of the kinds. -/
def rank : SortKey → Nat
  | .null => 0
  | .boolean _ => 1
  | .number .. => 2
  | .temporal _ => 3
  | .text _ => 4
  | .nested _ => 5

/-- The order of optional texts: none comes first. -/
def compareText : Option String → Option String → Ordering
  | none, none => .eq
  | none, some _ => .lt
  | some _, none => .gt
  | some a, some b => Ord.compare a b

/-- The order of keys of one rank; stored numbers come before numeric texts of the same number. -/
def compareWithin : SortKey → SortKey → Ordering
  | .boolean a, .boolean b => Ord.compare a b
  | .number a s, .number b t => (a.compare b).then (compareText s t)
  | .temporal a, .temporal b => a.compare b
  | .text a, .text b => Ord.compare a b
  | .nested a, .nested b => Ord.compare a b
  | _, _ => .eq

/-- The order of sort keys. -/
def compare (a b : SortKey) : Ordering :=
  (Ord.compare a.rank b.rank).then (compareWithin a b)

end SortKey

/-- The total order of values: nothing, booleans, numbers and numeric texts, moments, other texts,
nested documents. -/
def compare (a b : Value) : Ordering := a.sortKey.compare b.sortKey

/-! ## The order for filters -/

/-- The order of two values brought to one kind: numbers if either side is one, else moments, else
booleans. -/
def compareCoerced? (a b : Value) : Option Ordering :=
  let numbers := if a.isNumber || b.isNumber then
      match a.toNumber?, b.toNumber? with
      | some x, some y => some (x.compare y)
      | _, _ => none
    else none
  let moments := match a, b with
    | .temporal _, _ | _, .temporal _ =>
      match a.toMoment?, b.toMoment? with
      | some x, some y => some (x.compare y)
      | _, _ => none
    | _, _ => none
  let booleans := match a, b with
    | .boolean _, _ | _, .boolean _ =>
      match a.toBoolean?, b.toBoolean? with
      | some x, some y => some (Ord.compare x y)
      | _, _ => none
    | _, _ => none
  numbers <|> moments <|> booleans

/-- The order that filters use: coerced where both sides convert, else the order for sorting. -/
def compareLoose (a b : Value) : Ordering :=
  if a.isNull || b.isNull then a.compare b
  else (compareCoerced? a b).getD (a.compare b)

/-- Equality as filters see it: null equals null alone. -/
def looseEq (a b : Value) : Bool :=
  if a.isNull || b.isNull then a.isNull && b.isNull
  else a.compareLoose b == .eq

/-! ## Equality for grouping -/

/-- Strict equality: values of one kind only, where integers and doubles are one kind. -/
def same : Value → Value → Bool
  | .null, .null => true
  | .boolean a, .boolean b => a == b
  | .number a, .number b => a.same b
  | .text a, .text b => a == b
  | .temporal a, .temporal b => a == b
  | .nested a, .nested b => a.same b
  | _, _ => false

instance : BEq Value := ⟨same⟩

/-- What a value is hashed by. -/
inductive Digest where
  | null
  | boolean (b : Bool)
  | number (bits : Nat)
  | text (s : String)
  | temporal (m : Moment)
  | nested (s : String)
deriving DecidableEq

/-- What the value is hashed by: numbers by the bits of their double, documents by their text. -/
def digest : Value → Digest
  | .null => .null
  | .boolean b => .boolean b
  | .number n => .number n.digest
  | .text s => .text s
  | .temporal m => .temporal m
  | .nested j => .nested j.text

/-- Whether a hashed collection takes two values for one: they have one digest and are the same. -/
def matches? (a b : Value) : Bool := a.digest == b.digest && a.same b

/-- Whether a hashed collection takes two lists of values for one. -/
def allMatch : List Value → List Value → Bool
  | [], [] => true
  | a :: as, b :: bs => matches? a b && allMatch as bs
  | _, _ => false

/-- The values of a list without those that match an earlier one. -/
def distinct (values : List Value) : List Value :=
  values.foldl (fun kept v => if kept.any (matches? v) then kept else kept ++ [v]) []

/-- The values in the order for sorting, equal ones in their given order. -/
def sorted (values : List Value) : List Value :=
  values.mergeSort fun a b => a.compare b != .gt

end DocQuery.Value
