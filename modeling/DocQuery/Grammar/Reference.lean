import DocQuery.Grammar.Literal
import DocQuery.Query.Scope

/-!
# DocQuery.Grammar.Reference — names in a query and what they mean

A name means a select item by its alias, or else a column, a function of a column, or the count of
all rows, looked up in the from items of the query.  What is found waits for the identity that it
gets when it is put into the query.
-/

namespace DocQuery.Grammar

/-- An item that waits for its identity. -/
abbrev Pending := Nat → Item

/-! ## Columns -/

/-- The item of a subquery with a name: by alias, or among those without alias by text or by the
name of a plain column. -/
def innerNamed? (q : Query) (name : String) : Option Item :=
  q.aliased? name <|> q.select.find? fun i =>
    i.aliasName.isNone && (Text.sameName i.sqlWithoutAlias name ||
      (i.function.isNone && i.column?.any fun c => Text.sameName c.name name))

/-- A path into a document column: the column before the first dot, and the path after it. -/
def pathInto? (t : Table) (name : List Char) (scope : Option String) : Option Pending :=
  match Text.cutAt? '.' name with
  | some (head, path) => match t.columnNamed? (String.ofList head) with
    | some c =>
      if c.type.isNone || c.type == some .other then
        some fun id =>
          (Item.ofFunction id .mapValue c scope).withParameters id [.text (String.ofList path)]
      else none
    | none => none
  | none => none

/-- What a name means within one from item.  Columns of tables are scoped only when the name was
qualified; items of subqueries always are. -/
def resolveIn? (source : FromItem) (name : List Char) (qualified : Bool) : Option Pending :=
  match source with
  | .table t _ =>
    let scope := if qualified then source.label? else none
    match t.columnNamed? (String.ofList name) with
    | some c => some fun id => Item.ofColumn id c scope
    | none => pathInto? t name scope
  | .subquery q aliasName =>
    (innerNamed? q (String.ofList name)).map fun i id => Item.ofInner id i aliasName
  | _ => none

/-- The ways to cut a name at one of its dots, the last dot first. -/
def dottedCuts : List Char → List (List Char × List Char)
  | [] => []
  | c :: s =>
    let later := (dottedCuts s).map fun (p, r) => (c :: p, r)
    if c = '.' then later ++ [([], s)] else later

/-- The column of a name that may be qualified.  The longest part before a dot that means a from
item qualifies the rest; an unqualified name must belong to one from item only.  -/
def resolveColumn (q : Query) (name : List Char) : Except QueryError (Option Pending) :=
  let qualified := (dottedCuts name).findSome? fun (qualifier, rest) =>
    (q.source? (String.ofList (unquoteName qualifier))).map fun source =>
      resolveIn? source (unquoteName rest) true
  match qualified with
  | some found => .ok found
  | none =>
    match (q.sources.flatMap FromItem.leaves).filterMap (resolveIn? · name false) with
    | [] => .ok none
    | [found] => .ok (some found)
    | _ => .error (.ambiguousColumn (String.ofList name))

/-! ## Functions -/

/-- The name and the arguments of a function call that is the whole text. -/
def functionCall? (text : List Char) : Option (List Char × List Char) :=
  let name := Text.trim (text.takeWhile (· != '('))
  if name = [] ∨ ¬name.all fun c => c.isAlphanum || c == '_' then none
  else match parenthesized? (text.dropWhile (· != '(')) with
    | some (inside, []) => some (name, Text.trim inside)
    | _ => none

/-- The values of the arguments after the first. -/
def readParameters (text : List Char) : List (List Char) → Except QueryError (List Value)
  | [] => .ok []
  | argument :: rest => match readLiteral? argument with
    | some v => (readParameters text rest).map (v :: ·)
    | none => .error (.unparsable "function" (String.ofList text))

/-- A function of the column that its first argument names, with literals as parameters. -/
def resolveFunction (q : Query) (f : Builtin) (arguments text : List Char) :
    Except QueryError Pending := do
  let failure := QueryError.unparsable "function" (String.ofList text)
  match splitOn [','] arguments with
  | [] => throw failure
  | target :: rest =>
    match ← resolveColumn q (unquoteName target) with
    | none => throw failure
    | some column =>
      if (column 0).function.isSome then throw failure
      let parameters ← readParameters text rest
      return fun id =>
        let item := (column id).withFunction id (some f)
        if parameters.isEmpty then item else item.withParameters id parameters

/-! ## Items -/

/-- Whether a text begins with the word APPROXIMATE, however often, and what follows. -/
def spanApproximate (text : List Char) : Bool × List Char :=
  match afterWord? "APPROXIMATE".toList text with
  | some rest =>
    if rest.length < text.length then (true, (spanApproximate rest).2) else (true, rest)
  | none => (false, text)
termination_by text.length

/-- What a text means that is a count of all rows, a function call or a column; nothing if it names
nothing known. -/
def resolveItem (q : Query) (text : List Char) : Except QueryError (Option Pending) := do
  let (approximate, text) := spanApproximate (Text.trim text)
  let found : Option Pending ← match functionCall? text with
    | some (name, arguments) => match Builtin.ofName? name with
      | none => .ok none
      | some f =>
        if f = .count ∧ arguments = ['*'] then .ok (some Item.countAll)
        else (resolveFunction q f arguments text).map some
    | none => resolveColumn q (unquoteName text)
  return found.map fun make id => if approximate then (make id).withApproximate id true else make id

/-- What a name means: a select item by its alias, or else an item. -/
def resolveReference (q : Query) (text : List Char) : Except QueryError (Option Pending) :=
  match q.aliased? (String.ofList (unquoteName text)) with
  | some i => .ok (some fun _ => i)
  | none => resolveItem q text

end DocQuery.Grammar
