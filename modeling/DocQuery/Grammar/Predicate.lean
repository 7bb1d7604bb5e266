import DocQuery.Grammar.State

/-!
# DocQuery.Grammar.Predicate — WHERE and HAVING

A clause is cut at AND into filters.  Within one of them OR is cut first, then AND, and groups in
parentheses are read in the same way; what remains is one comparison.
-/

namespace DocQuery.Grammar

/-! ## Comparisons -/

/-- The spellings of comparisons, longer ones first, so that `<=` is not taken for `<`. -/
def comparisonSpellings : List (List Char × Comparison) :=
  [(" NOT LIKE ".toList, .notLike), (" NOT IN ".toList, .notIn), (" LIKE ".toList, .like),
    (" IN ".toList, .isIn), ("==".toList, .equal), ("<>".toList, .different),
    ("!=".toList, .different), ("<=".toList, .atMost), (">=".toList, .atLeast),
    ("=".toList, .equal), ("<".toList, .less), (">".toList, .greater)]

/-- What stands before an ending of a text, in any case. -/
def beforeEnding? (ending text : List Char) : Option (List Char) :=
  let split := text.length - ending.length
  if ending.length ≤ text.length ∧ Text.eqIgnoreCase (text.drop split) ending then
    some (text.take split)
  else none

/-- The left side of a test for null, and whether it must be null. -/
def nullTest? (text : List Char) : Option (List Char × Comparison) :=
  ((beforeEnding? " IS NOT NULL".toList text).map (·, Comparison.different)) <|>
    ((beforeEnding? " IS NULL".toList text).map (·, Comparison.equal))

/-- The values of a list, brought to a type. -/
def readValues (failure : QueryError) (type : Option ColumnType) :
    List (List Char) → Except QueryError (List Value)
  | [] => .ok []
  | text :: rest => match readLiteral? text with
    | some v => (readValues failure type rest).map (coerce v type :: ·)
    | none => .error failure

/-- The right side of a comparison: a parameter, a list after IN, a literal, or an item. -/
def readOperand (q : Query) (failure : QueryError) (item : Item) (op : Comparison)
    (text : List Char) : Reader Operand := do
  if text = ['?'] then return .parameter (← drawParameter)
  let type := item.expectedType?
  if op.isList then
    match unwrap? text with
    | some list =>
      let values ← (readValues failure type (splitOn [','] list) : Except QueryError (List Value))
      return .list values
    | none => throw failure
  else match readLiteral? text with
    | some v => return .value (if op.isPattern then v else coerce v type)
    | none => return .item (← makeFound (resolveReference q (Text.trim text)) failure)

/-- One comparison. -/
def readComparison (q : Query) (clause : String) (text : List Char) : Reader Filter := do
  let failure := QueryError.unparsable clause (String.ofList text)
  match nullTest? text with
  | some (left, op) =>
    let item ← makeFound (resolveReference q (Text.trim left)) failure
    return .comparison item op (.value .null)
  | none => match cutFirst? comparisonSpellings text with
    | some (left, op, right) =>
      let item ← makeFound (resolveReference q (Text.trim left)) failure
      let operand ← readOperand q failure item op (Text.trim right)
      return .comparison item op operand
    | none => throw failure

/-! ## Filters -/

/-- The parts of a text between ORs, or else between ANDs, if there is more than one. -/
def connectedParts? (text : List Char) : Option (Connective × List (List Char)) :=
  let alternatives := splitOn " OR ".toList text
  let conditions := splitOn " AND ".toList text
  if 1 < alternatives.length then some (.or, alternatives)
  else if 1 < conditions.length then some (.and, conditions)
  else none

/-- One filter.  `depth` bounds the nesting, which is never deeper than the text is long. -/
def readFilter (q : Query) (clause : String) : (depth : Nat) → List Char → Reader Filter
  | 0, text => readComparison q clause text
  | depth + 1, text =>
    match unwrap? text with
    | some inner => readFilter q clause depth inner
    | none => match connectedParts? text with
      | some (op, parts) => do return .group op (← parts.mapM (readFilter q clause depth))
      | none => readComparison q clause text

/-- The filters of a clause. -/
def readFilters (q : Query) (clause : String) (text : List Char) : Reader (List Filter) :=
  (splitOn " AND ".toList text).mapM (readFilter q clause text.length)

end DocQuery.Grammar
