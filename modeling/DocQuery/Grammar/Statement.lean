import DocQuery.Grammar.Predicate
import DocQuery.Grammar.Source

/-!
# DocQuery.Grammar.Statement — whole queries

The clauses of a query are found by their keywords in a fixed order.  FROM is read first, since all
other clauses name what it offers; then the clauses follow in their order.  A subquery is a query of
its own, with parameters numbered on their own.
-/

namespace DocQuery.Grammar

/-! ## Clauses -/

/-- The keywords of clauses in the order in which they must appear. -/
def clauseKeywords : List String :=
  ["SELECT", "FROM", "WHERE", "GROUP BY", "HAVING", "ORDER BY", "LIMIT", "OFFSET"]

/-- The texts of the clauses in `rest`, which follows the keyword `current`: each ends where the
next keyword of the list is found. -/
def clausesAfter (current : String) (rest : List Char) : List String → List (String × List Char)
  | [] => [(current, rest)]
  | keyword :: keywords =>
    match cutKeyword? keyword.toList current.toList.getLast? rest with
    | some (text, after) => (current, text) :: clausesAfter keyword after keywords
    | none => clausesAfter current rest keywords

/-- The first clause that refuses to be empty. -/
def checkClauses (sql : List Char) : List (String × List Char) →
    Except QueryError (List (String × List Char))
  | [] => .ok []
  | (keyword, text) :: rest =>
    let text := Text.trim text
    if text = [] then .error (.emptyClause keyword (String.ofList sql))
    else (checkClauses sql rest).map ((keyword, text) :: ·)

/-- The clauses of a query with their texts.  It must begin with SELECT and have a FROM. -/
def locateClauses (sql : List Char) : Except QueryError (List (String × List Char)) :=
  match cutKeyword? "SELECT".toList none sql with
  | none => .error (.clauseNotFound "SELECT" (String.ofList sql))
  | some (before, rest) =>
    if before ≠ [] then .error (.unparsable "query" (String.ofList before))
    else
      let clauses := clausesAfter "SELECT" rest (clauseKeywords.drop 1)
      if clauses.any fun c => c.1 == "FROM" then checkClauses sql clauses
      else .error (.clauseNotFound "FROM" (String.ofList sql))

/-! ## Select items -/

/-- The items that a select token stands for: everything, everything of one from item, or one item
that may have an alias. -/
def readSelectToken (catalog : Catalog) (q : Query) (token : List Char) : Reader (List Item) := do
  let failure := QueryError.unparsable "SELECT" (String.ofList token)
  if token = ['*'] then return ← makeOffered q.sources
  match beforeEnding? ['.', '*'] token with
  | some name => match q.source? (String.ofList (unquoteName name)) with
    | some source => makeOffered [source]
    | none => throw failure
  | none =>
    let (text, aliasName) := splitAlias token
    match ← (resolveItem q text : Except QueryError (Option Pending)) with
    | some pending =>
      let item ← make pending
      return [match aliasName with
        | some name => item.withAlias (String.ofList name)
        | none => item]
    | none =>
      if catalog.expressions then
        let aliasName := String.ofList (aliasName.getD [])
        match Item.ofExpression? (← drawItem) (String.ofList text) aliasName with
        | some item => return [item]
        | none => throw .aliasRequired
      else throw failure

/-- The SELECT clause. -/
def readSelect (catalog : Catalog) (q : Query) (text : List Char) : Reader Query := do
  let (distinct, text) := match afterWord? "DISTINCT".toList text with
    | some rest => (true, rest)
    | none => (false, text)
  let items ← (splitOn [','] text).mapM (readSelectToken catalog q)
  if items.flatten.isEmpty then throw (.unparsable "SELECT" (String.ofList text))
  return { q with distinct := distinct, select := items.flatten }

/-! ## Grouping, order and paging -/

/-- The GROUP BY clause. -/
def readGroupBy (q : Query) (text : List Char) : Reader Query := do
  let items ← (splitOn [','] text).mapM fun token =>
    makeFound (resolveReference q token) (.unparsable "GROUP BY" (String.ofList token))
  return { q with groupBy := items }

/-- An item to order by and its direction, which is ascending unless a last word tells otherwise. -/
def splitDirection (token : List Char) : List Char × Direction :=
  match cutLastSpace? token with
  | some (text, word) =>
    if Text.eqIgnoreCase word "DESC".toList then (text, .descending)
    else if Text.eqIgnoreCase word "ASC".toList then (text, .ascending)
    else (token, .ascending)
  | none => (token, .ascending)

/-- The ORDER BY clause. -/
def readOrderBy (q : Query) (text : List Char) : Reader Query := do
  let items ← (splitOn [','] text).mapM fun token => do
    let (name, direction) := splitDirection token
    let item ← makeFound (resolveReference q name) (.unparsable "ORDER BY" (String.ofList token))
    return ⟨item, direction⟩
  return { q with orderBy := items }

/-- A count of rows. -/
def readCount (clause : String) (text : List Char) : Except QueryError Nat :=
  match Decimal.readIndex? text with
  | some n => .ok n
  | none => .error (.unparsable clause (String.ofList text))

/-- The first row after so many skipped ones. -/
def readOffset (text : List Char) : Except QueryError Nat := do
  let n ← readCount "OFFSET" text
  if n < Word.greatestUnsigned then return n + 1
  else throw (.offsetTooLarge (String.ofList text))

/-! ## Queries -/

/-- One clause other than FROM added to a query. -/
def readClause (catalog : Catalog) (q : Query) (keyword : String) (text : List Char) :
    Reader Query := do
  match keyword with
  | "SELECT" => readSelect catalog q text
  | "WHERE" => do
    let filters ← readFilters q "WHERE" text
    return { q with filters := filters }
  | "GROUP BY" => readGroupBy q text
  | "HAVING" => do
    let filters ← readFilters q "HAVING" text
    return { q with having := filters }
  | "ORDER BY" => readOrderBy q text
  | "LIMIT" => do
    let n ← (readCount "LIMIT" text : Except QueryError Nat)
    return { q with maxRows := some n }
  | "OFFSET" => do
    let n ← (readOffset text : Except QueryError Nat)
    return { q with firstRow := n }
  | _ => return q

/-- A query whose blanks are collapsed already. -/
def readNormalized (catalog : Catalog) (simple : List Char → Reader FromItem) (sql : List Char) :
    Reader Query := do
  let clauses ← (locateClauses sql : Except QueryError (List (String × List Char)))
  let from? := clauses.lookup "FROM"
  let q ← readFromItems simple {} (splitOn [','] (from?.getD []))
  clauses.foldlM (fun q (keyword, text) => readClause catalog q keyword text) q

/-- A part of reading with its parameters numbered from zero; the numbering around it goes on
afterwards, also after an error. -/
def renumbered {α : Type} (r : Reader α) : Reader α :=
  ExceptT.mk fun s =>
    let (result, last) := r.run { s with nextParameter := 0 }
    (result, { last with nextParameter := s.nextParameter })

/-- A query, with parameters of its own. -/
def readWith (catalog : Catalog) (simple : List Char → Reader FromItem) (sql : List Char) :
    Reader Query := do
  let sql ← (normalize sql : Except QueryError (List Char))
  renumbered (readNormalized catalog simple sql)

/-- A from item without joins: a table, a subquery, or a from item in parentheses.  `depth` bounds
the nesting of parentheses, which is never deeper than the text is long.  -/
def readSimple (catalog : Catalog) : (depth : Nat) → List Char → Reader FromItem
  | depth, token => do
    let token := Text.trim token
    let failure := QueryError.unparsable "FROM" (String.ofList token)
    if token.head? = some '(' then
      match depth, parenthesized? token with
      | depth + 1, some (inside, after) =>
        let inner := Text.trim inside
        let source ←
          if (afterWord? "SELECT".toList inner).isSome then do
            let q ← readWith catalog (readSimple catalog depth) inner
            pure (FromItem.subquery q none)
          else readFromItem (readSimple catalog depth) {} inner
        (underAlias source after token : Except QueryError FromItem)
      | _, _ => throw failure
    else
      let (name, after) := splitTableName token
      let name := unquoteName name
      if name = [] then throw failure
      match catalog.table? (String.ofList name) with
      | some t => (underAlias (.table t none) after token : Except QueryError FromItem)
      | none => throw (.noSuchTable (String.ofList name))

/-- A query read from its text. -/
def readQuery (catalog : Catalog) (sql : String) : Reader Query :=
  readWith catalog (readSimple catalog sql.toList.length) sql.toList

end DocQuery.Grammar
