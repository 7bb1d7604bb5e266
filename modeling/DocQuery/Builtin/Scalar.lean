import DocQuery.Builtin.Basic
import DocQuery.Value.Conversion

/-!
# DocQuery.Builtin.Scalar — mapping one value to another

A scalar function of null is null, and one that cannot make sense of its value gives null; it never
fails.
-/

namespace DocQuery.Builtin

/-- A value as a moment, read with the pattern where both are texts. -/
def toDateOf (value : Value) (pattern : Option Value) : Value :=
  let moment := match value, pattern with
    | .text s, some (.text p) => Moment.readWith? p.toList (Text.trim s.toList)
    | v, _ => v.toMoment?
  (moment.map Value.temporal).getD .null

/-- One step into a document: a member of an object by its key, an item of an array by its index. -/
def child? (document : Json) (segment : List Char) : Option Json :=
  match document with
  | .object members => Json.member? (String.ofList segment) members
  | .array items => (Decimal.readIndex? segment).bind fun i => items[i]?
  | _ => none

/-- The segments of a dotted path, empty ones left out. -/
def segments (path : List Char) : List (List Char) :=
  (Text.splitOnChar '.' path).filter (· ≠ [])

/-- The value at a dotted path in a nested document. -/
def mapValueOf (value : Value) (path : List Char) : Value :=
  match value with
  | .nested document =>
    match (segments path).foldlM child? document with
    | some found => .ofJson found
    | none => .null
  | _ => .null

/-- The number of a parameter in double precision. -/
def parameterNumber? (parameters : List Value) (i : Nat) : Option Binary64 :=
  ((parameters[i]?).bind Value.toNumber?).map Number.toBinary64

/-- A part of the text of a value: from a position counted from one, for an optional length. -/
def substringOf (value : Value) (parameters : List Value) : Value :=
  let start := match parameterNumber? parameters 0 with
    | some x => max 1 (x.toIntWithin Word.least Word.greatest)
    | none => 1
  let rest := value.display.toList.drop (start.toNat - 1)
  let part := match parameterNumber? parameters 1 with
    | some x => rest.take (x.toIntWithin 0 Word.greatestUnsigned).toNat
    | none => rest
  .text (String.ofList part)

/-- A scalar function of a value; null for a function that is none. -/
def scalar (f : Builtin) (parameters : List Value) (value : Value) : Value :=
  if value.isNull then .null
  else match f with
    | .toText => .text value.display
    | .toNumber => (value.toNumber?.map Value.number).getD .null
    | .toBoolean => (value.toBoolean?.map Value.boolean).getD .null
    | .toDate => toDateOf value parameters.head?
    | .mapValue => match parameters with
      | path :: _ => mapValueOf value path.display.toList
      | [] => .null
    | .substring => substringOf value parameters
    | _ => .null

end DocQuery.Builtin
