import DocQuery.Builtin.Basic
import DocQuery.Value.Order

/-!
# DocQuery.Builtin.Aggregate — reducing many values to one

Missing values never count.  A sum stays an integer as long as all its terms are integers and it
fits 64 bits; otherwise it is the sum in double precision, taken from left to right.
-/

namespace DocQuery.Builtin

/-- The sum of two integers if it fits 64 bits. -/
def addChecked? (a b : Int64) : Option Int64 :=
  Word.ofInt? (a.toInt + b.toInt)

/-- The numbers that the values convert to. -/
def numbers (values : List Value) : List Number := values.filterMap Value.toNumber?

/-- The integer sum so far with one more number: lost once a number is a double or the sum does not
fit. -/
def addInteger? (total : Option Int64) (n : Number) : Option Int64 :=
  match total, n with
  | some a, .integer i => addChecked? a i
  | _, _ => none

/-- The sum of numbers in double precision, from left to right. -/
def floatSum (start : Binary64) (ns : List Number) : Binary64 :=
  ns.foldl (fun total n => total.add n.toBinary64) start

/-- The sum of the values that convert to numbers; zero if none does. -/
def sumOf (values : List Value) : Value :=
  let ns := numbers values
  match ns.foldl addInteger? (some 0) with
  | some i => .integer i
  | none => .float (floatSum (.zero false) ns)

/-- The mean of the values that convert to numbers; the sum starts at the negative zero, which adds
nothing to any number. -/
def averageOf (values : List Value) : Value :=
  match numbers values with
  | [] => .null
  | ns => .float ((floatSum (.zero true) ns).div (.ofInt ns.length))

/-- The first of the values that no other one is less than. -/
def leastOf : List Value → Value
  | [] => .null
  | v :: vs => vs.foldl (fun best w => if w.compare best == .lt then w else best) v

/-- The first of the values that no other one is greater than. -/
def greatestOf : List Value → Value
  | [] => .null
  | v :: vs => vs.foldl (fun best w => if best.compare w == .lt then w else best) v

/-- An aggregate of values; null for a function that is none. -/
def aggregate (f : Builtin) (values : List Value) : Value :=
  let present := values.filter fun v => !v.isNull
  match f with
  | .count => .integer (Int64.ofNat present.length)
  | .sum => sumOf present
  | .average => averageOf present
  | .minimum => leastOf present
  | .maximum => greatestOf present
  | .first => present.head?.getD .null
  | .last => present.getLast?.getD .null
  | _ => .null

end DocQuery.Builtin
