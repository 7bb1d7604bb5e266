import DocQuery.Time.Reading
import DocQuery.Value.Basic

/-!
# DocQuery.Value.Conversion — values seen as numbers, booleans and moments

The conversions that coerced comparisons and scalar functions use.  A value that has no sensible
view of the kind gives nothing.
-/

namespace DocQuery.Value

/-- A boolean in a text: one of the words for it, in any case, blanks around it aside. -/
def readBoolean? (s : List Char) : Option Bool :=
  let word := String.ofList (Text.lower (Text.trim s))
  if ["true", "yes", "y", "1"].contains word then some true
  else if ["false", "no", "n", "0"].contains word then some false
  else none

/-- The value as a number: a boolean is one or zero, a moment its milliseconds from 1970-01-01. -/
def toNumber? : Value → Option Number
  | .number n => some n
  | .boolean b => some (.integer (if b then 1 else 0))
  | .text s => Number.read? s.toList
  | .temporal m => some (.integer (Int64.ofInt m.milliseconds))
  | .nested (.number n) => match n.toInt64? with
    | some i => some (.integer i)
    | none => some (.float n.toBinary64)
  | _ => none

/-- The value as a boolean: a number is true unless it is zero. -/
def toBoolean? : Value → Option Bool
  | .boolean b => some b
  | .number n => some n.isNonzero
  | .text s => readBoolean? s.toList
  | .nested (.bool b) => some b
  | _ => none

/-- The value as a moment: an integer counts milliseconds from 1970-01-01. -/
def toMoment? : Value → Option Moment
  | .temporal m => some m
  | .text s => Moment.read? s.toList
  | .number (.integer i) => Moment.ofMilliseconds? i.toInt
  | _ => none

end DocQuery.Value
