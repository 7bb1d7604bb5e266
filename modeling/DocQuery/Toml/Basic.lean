import DocQuery.Number.Basic

/-!
# DocQuery.Toml.Basic — TOML values and how statements build a document

A document is built by three kinds of statements: a key with its value, the header of a table, and
the header of one more table in an array of tables.  Each says where it works by a path of keys;
tables on the way that are not there yet are made.  How a table came about decides what may be added
to it later, so a table keeps that (`TableKind`); whatever would define something twice is refused.
-/

namespace DocQuery

/-- How a table came about. -/
inductive TableKind where
  /-- As a value between braces, which is complete. -/
  | inline
  /-- On the way to the table of a header. -/
  | implied
  /-- On the way to the value of a dotted key. -/
  | dotted
  /-- By a header of its own. -/
  | header
deriving DecidableEq

/-- A TOML value; dates and times are kept as they are written. -/
inductive Toml where
  | string (s : String)
  | integer (i : Int64)
  | float (x : Binary64)
  | boolean (b : Bool)
  | temporal (text : String)
  | array (items : List Toml)
  | table (kind : TableKind) (entries : List (String × Toml))
  | tables (items : List (List (String × Toml)))
deriving Inhabited

namespace Toml

/-- Whether a value is an array or a table without anything in it. -/
def isEmpty : Toml → Bool
  | .array items => items.isEmpty
  | .table _ entries => entries.isEmpty
  | .tables items => items.isEmpty
  | _ => false

/-- The entries of a table. -/
abbrev Entries := List (String × Toml)

/-- A change of a table that may be refused. -/
abbrev Change := TableKind → Entries → Option (TableKind × Entries)

/-- Entries with one of them replaced, or added at the end. -/
def put (entries : Entries) (key : String) (value : Toml) : Entries :=
  match entries with
  | [] => [(key, value)]
  | (k, v) :: rest => if k = key then (k, value) :: rest else (k, v) :: put rest key value

/-- A change made to the table at a path.  `dotted` tells a path that is the front of a dotted key
from that of a header: the former makes tables that no header may open later, and does not enter
tables that have a header.  -/
def within (dotted : Bool) : (path : List String) → Change → Change
  | [], change => change
  | key :: path, change => fun kind entries =>
    match entries.lookup key with
    | none =>
      let made := if dotted then TableKind.dotted else .implied
      (within dotted path change made []).map fun (k, es) => (kind, entries ++ [(key, .table k es)])
    | some (.table k es) =>
      if k = .inline ∨ (dotted ∧ k = .header) then none
      else (within dotted path change k es).map fun (k, es) => (kind, put entries key (.table k es))
    | some (.tables items) =>
      match items.getLast? with
      | none => none
      | some es => (within dotted path change .header es).map fun (_, es) =>
        (kind, put entries key (.tables (items.dropLast ++ [es])))
    | some _ => none

/-- A value under the last key of a dotted key; a table may not take values both from dotted keys
that pass through it and in another way. -/
def insert (passed : Bool) (key : String) (value : Toml) : Change := fun kind entries =>
  if decide (kind = .dotted) != passed || (entries.lookup key).isSome then none
  else some (kind, entries ++ [(key, value)])

/-- A value under a dotted key, given by its front and its last key. -/
def insertAt (front : List String) (key : String) (value : Toml) : Change :=
  within true front (insert (!front.isEmpty) key value)

/-- The table of a header, which may have been implied before but has no header yet. -/
def openTable (key : String) : Change := fun kind entries =>
  match entries.lookup key with
  | none => some (kind, entries ++ [(key, .table .header [])])
  | some (.table .implied es) => some (kind, put entries key (.table .header es))
  | some _ => none

/-- One more table in the array of tables of a header. -/
def addTable (key : String) : Change := fun kind entries =>
  match entries.lookup key with
  | none => some (kind, entries ++ [(key, .tables [[]])])
  | some (.tables items) => some (kind, put entries key (.tables (items ++ [[]])))
  | some _ => none

end Toml

end DocQuery
