import DocQuery.Number.Shortest

/-!
# DocQuery.Json.Basic — nested documents

A document is a JSON value whose numbers are integers of 64 bits, with or without a sign, or finite
double precision numbers, and whose objects keep the order in which their keys first appeared.  Two
documents are the same (`Json.same`) when they differ at most in the order of object members; their
compact text (`Json.text`) keeps that order and so tells more documents apart.
-/

namespace DocQuery

/-- A number of a document: an integer that fits 64 bits, signed or unsigned, or a finite double
precision number. -/
inductive JsonNumber where
  | integer (value : Int) (lower : Word.least ≤ value)
    (upper : value ≤ Word.greatestUnsigned)
  | float (negative : Bool) (magnitude : Magnitude)
deriving DecidableEq

/-- A JSON value; the members of an object are in the order of their first appearance. -/
inductive Json where
  | null
  | bool (b : Bool)
  | number (n : JsonNumber)
  | string (s : String)
  | array (items : List Json)
  | object (members : List (String × Json))
deriving Inhabited

namespace JsonNumber

/-- The number of an integer of 64 bits. -/
def ofInt64 (i : Int64) : JsonNumber :=
  .integer i.toInt (Int64.le_toInt i) (by
    have := Int64.toInt_lt i
    unfold Word.greatestUnsigned
    omega)

/-- The number as a signed integer of 64 bits, if it is one. -/
def toInt64? : JsonNumber → Option Int64
  | .integer i _ _ => Word.ofInt? i
  | .float .. => none

/-- The number in double precision. -/
def toBinary64 : JsonNumber → Binary64
  | .integer i _ _ => .ofInt i
  | .float s m => .finite s m

/-- The number of a double precision number, if it is finite. -/
def ofBinary64? : Binary64 → Option JsonNumber
  | .finite s m => some (.float s m)
  | _ => none

/-- Whether two numbers are the same: integers by value, others by value, and never across. -/
def same : JsonNumber → JsonNumber → Bool
  | .integer a _ _, .integer b _ _ => a == b
  | .float s a, .float t b => Binary64.equals (.finite s a) (.finite t b)
  | _, _ => false

/-- The text of a number. -/
def write : JsonNumber → List Char
  | .integer i _ _ => (toString i).toList
  | .float s m => NumberStyle.document.write s m

end JsonNumber

namespace Json

/-! ## Objects -/

/-- The value of the first member with a key. -/
def member? (key : String) : List (String × Json) → Option Json
  | [] => none
  | (k, v) :: rest => if k = key then some v else member? key rest

/-- The members with one more: a key that is there already keeps its place and takes the value. -/
def insertMember (members : List (String × Json)) (key : String) (value : Json) :
    List (String × Json) :=
  match members with
  | [] => [(key, value)]
  | (k, v) :: rest =>
    if k = key then (k, value) :: rest else (k, v) :: insertMember rest key value

/-! ## Sameness -/

mutual

/-- Whether two documents are the same up to the order of object members. -/
def same : Json → Json → Bool
  | .null, .null => true
  | .bool a, .bool b => a == b
  | .number a, .number b => a.same b
  | .string a, .string b => a == b
  | .array a, .array b => sameItems a b
  | .object a, .object b => a.length == b.length && sameMembers a b
  | _, _ => false

/-- Whether two arrays have the same items in the same order. -/
def sameItems : List Json → List Json → Bool
  | [], [] => true
  | a :: as, b :: bs => same a b && sameItems as bs
  | _, _ => false

/-- Whether every member of one object is in the other with the same value. -/
def sameMembers : List (String × Json) → List (String × Json) → Bool
  | [], _ => true
  | (k, v) :: rest, others =>
    (match member? k others with
      | some w => same v w
      | none => false) && sameMembers rest others

end

end Json

end DocQuery
