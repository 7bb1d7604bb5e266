import DocQuery.Builtin.Basic
import DocQuery.Schema
import DocQuery.Value.Order

/-!
# DocQuery.Query.Item — select items

A select item is what a query retrieves or refers to: a column, a function of a column, an
expression, or an item that a subquery selects.  Every item carries an identity, a number drawn when
it is made.  Copies share it, giving a copy an alias keeps it, and every other change draws a new
one; a row header looks items up by identity first.  Two items are compared by what they denote
(`Item.sameAs`), never by identity or alias.
-/

namespace DocQuery

/-- What an item reads: a column, the text of an expression, an item of a subquery, or nothing. -/
inductive ItemSource (ι : Type) where
  | column (c : Column)
  | expression (text : String)
  | inner (item : ι)
  | nothing

/-- A select item.  The scope is the label of the from item that it is drawn from, where it is
known.  -/
structure Item where
  id : Nat
  source : ItemSource Item
  function : Option Builtin
  parameters : List Value
  approximate : Bool
  scope : Option String
  aliasName : Option String

namespace Item

/-! ## Making items -/

/-- A plain item. -/
def plain (id : Nat) (source : ItemSource Item) (function : Option Builtin)
    (scope : Option String) : Item where
  id := id
  source := source
  function := function
  parameters := []
  approximate := false
  scope := scope
  aliasName := none

/-- A column, of the from item with a label if one is given. -/
def ofColumn (id : Nat) (c : Column) (scope : Option String) : Item :=
  plain id (.column c) none scope

/-- A function of a column. -/
def ofFunction (id : Nat) (f : Builtin) (c : Column) (scope : Option String) : Item :=
  plain id (.column c) (some f) scope

/-- The count of all rows. -/
def countAll (id : Nat) : Item := plain id (.expression "*") (some .count) none

/-- An expression, which needs an alias; `none` without one. -/
def ofExpression? (id : Nat) (text aliasName : String) : Option Item :=
  if Text.trim aliasName.toList = [] then none
  else some { plain id (.expression text) none none with aliasName := some aliasName }

/-- A reference to an item that a subquery selects, seen from outside under the subquery's label. -/
def ofInner (id : Nat) (item : Item) (scope : Option String) : Item :=
  plain id (.inner item) none scope

/-! ## Parts -/

/-- The column that the item reads. -/
def column? (i : Item) : Option Column :=
  match i.source with
  | .column c => some c
  | _ => none

/-- The item of a subquery that the item refers to. -/
def inner? (i : Item) : Option Item :=
  match i.source with
  | .inner item => some item
  | _ => none

/-- Whether the item is the count of all rows. -/
def isCountAll (i : Item) : Bool :=
  match i.source with
  | .expression "*" => i.function == some .count
  | _ => false

/-- The expression of the item; the count of all rows is none. -/
def expression? (i : Item) : Option String :=
  match i.source with
  | .expression text => if i.isCountAll then none else some text
  | _ => none

/-- The function of the item if it reduces many values to one. -/
def aggregate? (i : Item) : Option Builtin := i.function.filter Builtin.isAggregate

/-- The function of the item if it maps one value to another. -/
def scalar? (i : Item) : Option Builtin := i.function.filter Builtin.isScalar

/-- The type that a function gives its values, unless it leaves the type of what it reads. -/
def functionType? : Option Builtin → Option (Option ColumnType)
  | some .count | some .sum | some .average | some .toNumber => some (some .number)
  | some .toText | some .substring => some (some .text)
  | some .toDate => some (some .temporal)
  | some .toBoolean => some (some .boolean)
  | some .mapValue => some none
  | _ => none

/-- The type that the values of an item are expected to have. -/
def expectedType? : Item → Option ColumnType
  | ⟨_, .column c, f, _, _, _, _⟩ => (functionType? f).getD c.type
  | ⟨_, .inner item, f, _, _, _, _⟩ => (functionType? f).getD item.expectedType?
  | ⟨_, _, f, _, _, _, _⟩ => (functionType? f).getD none

/-! ## Changing items -/

/-- The item under an alias. -/
def withAlias (i : Item) (aliasName : String) : Item := { i with aliasName := some aliasName }

/-- The item without its alias. -/
def withoutAlias (i : Item) : Item := { i with aliasName := none }

/-- The item with its function allowed to be approximate or not. -/
def withApproximate (id : Nat) (i : Item) (allowed : Bool) : Item :=
  if i.approximate = allowed then i else { i with id := id, approximate := allowed }

/-- The item with other parameters of its function. -/
def withParameters (id : Nat) (i : Item) (parameters : List Value) : Item :=
  { i with id := id, parameters := parameters }

/-- What the item reads under another function.  Without a function, the count of all rows reads
nothing at all. -/
def sourceUnder (i : Item) (function : Option Builtin) : ItemSource Item :=
  if i.isCountAll && function.isNone then .nothing else i.source

/-- The item under another function or none, without alias and not approximate; a function keeps the
parameters. -/
def withFunction (id : Nat) (i : Item) (function : Option Builtin) : Item :=
  { plain id (i.sourceUnder function) function i.scope with
    parameters := if function.isSome then i.parameters else [] }

/-- The item in another scope. -/
def withScope (id : Nat) (i : Item) (scope : Option String) : Item :=
  { i with id := id, scope := scope }

/-! ## Sameness -/

/-- Whether two lists of parameters hold the same values. -/
def sameParameters : List Value → List Value → Bool
  | [], [] => true
  | a :: as, b :: bs => a.same b && sameParameters as bs
  | _, _ => false

/-- Whether two items agree in all but what they read: function, parameters, approximation, and with
`strict` also the scope. -/
def sameUse (strict : Bool) (a b : Item) : Bool :=
  (!strict || a.scope == b.scope) && a.function == b.function &&
  sameParameters a.parameters b.parameters && a.approximate == b.approximate

/-- Whether two items denote the same, aliases aside; with `strict` also in the same scope. -/
def sameAs (strict : Bool) : Item → Item → Bool
  | a@⟨_, .column c, _, _, _, _, _⟩, b@⟨_, .column d, _, _, _, _, _⟩ =>
    sameUse strict a b && c == d
  | a@⟨_, .expression s, _, _, _, _, _⟩, b@⟨_, .expression t, _, _, _, _, _⟩ =>
    sameUse strict a b && s == t
  | a@⟨_, .inner x, _, _, _, _, _⟩, b@⟨_, .inner y, _, _, _, _, _⟩ =>
    sameUse strict a b && sameAs strict x y
  | a@⟨_, .nothing, _, _, _, _, _⟩, b@⟨_, .nothing, _, _, _, _, _⟩ => sameUse strict a b
  | _, _ => false

/-- Whether two items are equal: same in the same scope, under the same alias. -/
def same (a b : Item) : Bool := a.aliasName == b.aliasName && sameAs true a b

/-- Two lists of items with equal items at every place. -/
def sameLayout : List Item → List Item → Bool
  | [], [] => true
  | a :: as, b :: bs => same a b && sameLayout as bs
  | _, _ => false

/-- The items followed by one more, unless an item that denotes the same is among them. -/
def pushNew (items : List Item) (item : Item) : List Item :=
  if items.any (sameAs true · item) then items else items ++ [item]

/-! ## Texts -/

/-- A text after the scope of an item, where it has one. -/
def underScope (scope : Option String) (text : String) : String :=
  match scope with
  | some label => label ++ "." ++ text
  | none => text

/-- A text within the call of a function, where there is one. -/
def underFunction (function : Option Builtin) (approximate : Bool) (parameters : List Value)
    (body : String) : String :=
  match function with
  | some f =>
    (if approximate then "APPROXIMATE " else "") ++ f.name ++ "(" ++
      Text.joinWith ", " (body :: parameters.map Value.literal) ++ ")"
  | none => body

/-- The text of an item without its alias; an item of a subquery goes by its alias there. -/
def sqlWithoutAlias : Item → String
  | ⟨_, .column c, f, ps, approximate, scope, _⟩ =>
    underFunction f approximate ps (underScope scope c.name)
  | ⟨_, .expression text, f, ps, approximate, _, _⟩ => underFunction f approximate ps text
  | ⟨_, .inner item, f, ps, approximate, scope, _⟩ =>
    underFunction f approximate ps (underScope scope (item.aliasName.getD item.sqlWithoutAlias))
  | ⟨_, .nothing, f, ps, approximate, _, _⟩ => underFunction f approximate ps ""

/-- The text of an item with its alias. -/
def sql (i : Item) : String :=
  match i.aliasName with
  | some aliasName => i.sqlWithoutAlias ++ " AS " ++ aliasName
  | none => i.sqlWithoutAlias

/-- The label of a column of results: the alias, or else the text. -/
def label (i : Item) : String := i.aliasName.getD i.sqlWithoutAlias

end Item

end DocQuery
