import DocQuery.Number.Decimal
import DocQuery.Number.Shortest

/-!
# DocQuery.Number.Basic — the numbers of cells

A number is an integer of 64 bits or a double precision number.  The order of numbers is exact
across both kinds (`Number.compare`); equality of an integer with a double is taken after rounding
the integer (`Number.same`), so it is the coarser of the two beyond `2 ^ 53`.
-/

namespace DocQuery

/-- A number of a cell. -/
inductive Number where
  | integer (i : Int64)
  | float (x : Binary64)
deriving DecidableEq, Inhabited

namespace Number

/-- The number in double precision. -/
def toBinary64 : Number → Binary64
  | .integer i => .ofInt i.toInt
  | .float x => x

/-- The order of an integer and a double.  A NaN and a double beyond the integers of 64 bits decide at
once.  Otherwise the whole parts are compared, and what the double has left over breaks a tie. -/
def compareMixed (i : Int64) : Binary64 → Ordering
  | .nan _ => .lt
  | .infinite negative => if negative then .gt else .lt
  | .finite negative m =>
    let units := Binary64.signedUnits negative m
    let edge : Int := Power.two 63 * Magnitude.one
    if edge ≤ units then .lt
    else if units < -edge then .gt
    else
      let whole := (Binary64.finite negative m).toIntWithin Word.least Word.greatest
      (Ord.compare i.toInt whole).then (Ord.compare 0 (units.tmod Magnitude.one))

/-- The exact order of numbers; every NaN comes after all other numbers. -/
def compare : Number → Number → Ordering
  | .integer a, .integer b => Ord.compare a b
  | .integer i, .float x => compareMixed i x
  | .float x, .integer i => (compareMixed i x).swap
  | .float x, .float y => x.place.compare y.place

/-- Equality of numbers: between integers exact, otherwise in double precision, where all NaNs are
equal to each other. -/
def same : Number → Number → Bool
  | .integer a, .integer b => a == b
  | .float a, .float b => a.equals b || (a.isNaN && b.isNaN)
  | .integer a, .float b | .float b, .integer a => (Binary64.ofInt a.toInt).equals b

/-- The bit pattern that stands for a number among hashed values: that of its double, where both
zeros have the one of zero. -/
def digest (n : Number) : Nat :=
  if n.toBinary64.isZero then 0 else n.toBinary64.bits

/-- Whether the number is other than zero. -/
def isNonzero : Number → Bool
  | .integer i => i != 0
  | .float x => !x.isZero

/-- The text of a number in a cell. -/
def text : Number → String
  | .integer i => toString i.toInt
  | .float x => x.text

/-- The number as a literal: a whole double below `10 ^ 15` shows a point, so that it reads back as
a double. -/
def literal : Number → String
  | .integer i => toString i.toInt
  | .float x =>
    let small := match x with
      | .finite _ m => decide (m.units < Power.ten 15 * Magnitude.one)
      | _ => false
    String.ofList (x.write (if x.isWhole && small then .literal else .cell))

/-- A number in a text, blanks around it aside: an integer if it fits, else a finite double. -/
def read? (s : List Char) : Option Number :=
  let s := Text.trim s
  match Decimal.readInt64? s with
  | some i => some (.integer i)
  | none => match Decimal.readBinary64? s with
    | some x => if x.isFinite then some (.float x) else none
    | none => none

end Number

end DocQuery
