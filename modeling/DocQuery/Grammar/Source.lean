import DocQuery.Grammar.State

/-!
# DocQuery.Grammar.Source — FROM

A FROM clause is a list of from items: tables, subqueries in parentheses, and chains of joins, which
may stand in parentheses themselves.  Chains are read from left to right.  How a from item without
joins is read (`simple`) is a parameter here, because it leads back to whole queries.
-/

namespace DocQuery.Grammar

/-! ## Names and aliases -/

/-- The name that a text begins with, in its quotes if it has them, and what follows it. -/
def splitTableName (text : List Char) : List Char × List Char :=
  let atSpace := (Text.cutAt? ' ' text).getD (text, [])
  match text with
  | [] => atSpace
  | c :: rest =>
    if c = '\'' then atSpace
    else
      let cut := (Scanner.closer? c).bind fun closing => (Text.cutAt? closing rest).map (closing, ·)
      match cut with
      | some (closing, name, after) => (c :: (name ++ [closing]), after)
      | none => atSpace

/-- The alias after a table or a subquery, which AS may introduce. -/
def readAlias (text token : List Char) : Except QueryError (Option (List Char)) :=
  let text := Text.trim text
  if text = [] then .ok none
  else
    let aliasName := (afterWord? ['A', 'S'] text).getD text
    let name := unquoteName aliasName
    if name = [] ∨ (name = aliasName ∧ aliasName.contains ' ') then
      .error (.unparsable "FROM" (String.ofList token))
    else .ok (some name)

/-- A from item under the alias that a text gives, if it gives one. -/
def underAlias (source : FromItem) (text token : List Char) : Except QueryError FromItem :=
  (readAlias text token).map fun aliasName => match aliasName with
    | some name => source.withAlias (String.ofList name)
    | none => source

/-! ## Joins -/

/-- The last word of a text after the rest of it. -/
def splitLastWord (text : List Char) : List Char × List Char :=
  match cutLastSpace? text with
  | some (rest, word) => (Text.trim rest, word)
  | none => ([], text)

/-- The text before the word JOIN without the words for the kind of join, and that kind.  Full and
cross joins are refused, OUTER goes with a side, and no word means an inner join.  -/
def splitJoinKind (text token : List Char) : Except QueryError (List Char × JoinKind) :=
  let text := Text.trim text
  let (beforeLast, last) := splitLastWord text
  let outer := Text.eqIgnoreCase last "OUTER".toList
  let (rest, word) := if outer then splitLastWord beforeLast else (beforeLast, last)
  let failure := QueryError.unparsable "JOIN" (String.ofList token)
  match JoinKind.ofKeyword? word with
  | some .inner => if outer then .error failure else .ok (rest, .inner)
  | some kind => .ok (rest, kind)
  | none =>
    if Text.eqIgnoreCase word "FULL".toList ∨ Text.eqIgnoreCase word "CROSS".toList then
      .error (.unsupportedJoin (String.ofList (Text.upper word)) (String.ofList token))
    else if outer then .error failure
    else .ok (text, .inner)

/-- Whether an item is drawn from a from item. -/
def belongsTo (item : Item) (source : FromItem) : Bool :=
  source.leaves.any fun leaf => match item.scope with
    | some scope => leaf.label?.any fun label => Text.sameName scope label
    | none => match item.column?, leaf.table? with
      | some c, some t => c.table == t.name
      | _, _ => false

/-- One condition of a join, the item of the left side first. -/
def readCondition (scope : Query) (right : FromItem) (text : List Char) : Reader (Item × Item) := do
  let text := (unwrap? text).getD text
  let failure := QueryError.unparsable "JOIN" (String.ofList text)
  match cutPattern? ['='] text with
  | none => throw failure
  | some (before, after) =>
    let first ← makeFound (resolveColumn scope (unquoteName before)) failure
    let second ← makeFound (resolveColumn scope (unquoteName after)) failure
    return if belongsTo first right && !belongsTo second right then (second, first)
      else (first, second)

/-- The conditions of a join.  They may name the from items of the query that come before. -/
def readConditions (q : Query) (left right : FromItem) (text : List Char) :
    Reader (List (Item × Item)) :=
  let scope := { q with sources := q.sources ++ [left, right] }
  (splitOn " AND ".toList ((unwrap? text).getD text)).mapM (readCondition scope right)

/-- The rest of a chain of joins after its left side: each part holds the right side of a join, its
conditions, and the words for the kind of the next one. -/
def readJoins (simple : List Char → Reader FromItem) (q : Query) (token : List Char)
    (left : FromItem) (kind : JoinKind) : List (List Char) → Reader FromItem
  | [] => return left
  | part :: parts => do
    let (part, next) ←
      if parts.isEmpty then pure (Text.trim part, JoinKind.inner)
      else (splitJoinKind part token : Except QueryError (List Char × JoinKind))
    match cutKeyword? ['O', 'N'] none part with
    | none => throw (.missingOn (String.ofList token))
    | some (rightText, conditions) =>
      let right ← simple rightText
      let conditions ← readConditions q left right (Text.trim conditions)
      let join ← (FromItem.join? kind left right (conditions.map (·.1)) (conditions.map (·.2)) :
        Except QueryError FromItem)
      readJoins simple q token join next parts

/-- One from item: a chain of joins, or a from item without any. -/
def readFromItem (simple : List Char → Reader FromItem) (q : Query) (token : List Char) :
    Reader FromItem :=
  match splitKeyword "JOIN".toList token with
  | first :: part :: parts => do
    let (first, kind) ← (splitJoinKind first token : Except QueryError (List Char × JoinKind))
    let left ← simple first
    readJoins simple q token left kind (part :: parts)
  | _ => simple token

/-- The from items of a clause, each read after those before it. -/
def readFromItems (simple : List Char → Reader FromItem) (q : Query) :
    List (List Char) → Reader Query
  | [] => return q
  | token :: rest => do
    let source ← readFromItem simple q token
    readFromItems simple { q with sources := q.sources ++ [source] } rest

end DocQuery.Grammar
