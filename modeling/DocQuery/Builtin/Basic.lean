import DocQuery.Text.Chars

/-!
# DocQuery.Builtin.Basic — the functions of the query language

Seven aggregates reduce the values of many rows to one; six scalar functions map one value to
another. Each has one name, and two have a second spelling when they are looked up.
-/

namespace DocQuery

/-- A function that may wrap a select item. -/
inductive Builtin where
  | count | sum | average | minimum | maximum | first | last
  | toText | toNumber | toDate | toBoolean | mapValue | substring
deriving DecidableEq, Inhabited

namespace Builtin

/-- All functions. -/
def all : List Builtin :=
  [.count, .sum, .average, .minimum, .maximum, .first, .last,
    .toText, .toNumber, .toDate, .toBoolean, .mapValue, .substring]

/-- The name of a function. -/
def name : Builtin → String
  | .count => "COUNT"
  | .sum => "SUM"
  | .average => "AVG"
  | .minimum => "MIN"
  | .maximum => "MAX"
  | .first => "FIRST"
  | .last => "LAST"
  | .toText => "TO_STRING"
  | .toNumber => "TO_NUMBER"
  | .toDate => "TO_DATE"
  | .toBoolean => "TO_BOOLEAN"
  | .mapValue => "MAP_VALUE"
  | .substring => "SUBSTRING"

/-- The function of a name in any case, blanks around it aside. -/
def ofName? (text : List Char) : Option Builtin :=
  let word := String.ofList (Text.upper (Text.trim text))
  if word == "AVERAGE" then some .average
  else if word == "SUBSTR" then some .substring
  else all.find? fun f => f.name == word

/-- Whether the function reduces many values to one. -/
def isAggregate : Builtin → Bool
  | .count | .sum | .average | .minimum | .maximum | .first | .last => true
  | _ => false

/-- Whether the function maps one value to another. -/
def isScalar (f : Builtin) : Bool := !f.isAggregate

end Builtin

end DocQuery
