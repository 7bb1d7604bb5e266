import DocQuery.Error
import DocQuery.Query.Item

/-!
# DocQuery.Query.Filter — predicates on rows

A filter compares an item with an operand or combines other filters by AND or OR.  An operand may be
a parameter, a place that a value is bound to later (`Filter.withParameters`).  What a filter says
of a row is defined where rows are.
-/

namespace DocQuery

/-- How a filter compares. -/
inductive Comparison where
  | equal | different | less | atMost | greater | atLeast
  | like | notLike | isIn | notIn
deriving DecidableEq

namespace Comparison

/-- All comparisons. -/
def all : List Comparison :=
  [.equal, .different, .less, .atMost, .greater, .atLeast, .like, .notLike, .isIn, .notIn]

/-- How a comparison is written. -/
def sql : Comparison → String
  | .equal => "="
  | .different => "<>"
  | .less => "<"
  | .atMost => "<="
  | .greater => ">"
  | .atLeast => ">="
  | .like => "LIKE"
  | .notLike => "NOT LIKE"
  | .isIn => "IN"
  | .notIn => "NOT IN"

/-- Whether the comparison is with a list of values. -/
def isList : Comparison → Bool
  | .isIn | .notIn => true
  | _ => false

/-- Whether the comparison is with a pattern. -/
def isPattern : Comparison → Bool
  | .like | .notLike => true
  | _ => false

end Comparison

/-- How filters are combined. -/
inductive Connective where
  | and | or
deriving DecidableEq

/-- How a connective is written. -/
def Connective.sql : Connective → String
  | .and => "AND"
  | .or => "OR"

/-- What an item is compared with.  Parameters are counted from zero. -/
inductive Operand where
  | value (v : Value)
  | list (vs : List Value)
  | item (i : Item)
  | parameter (index : Nat)

namespace Operand

/-- The text of an operand. -/
def sql : Operand → String
  | .value v => v.literal
  | .list vs => "(" ++ Text.joinWith ", " (vs.map Value.literal) ++ ")"
  | .item i => i.sqlWithoutAlias
  | .parameter _ => "?"

/-- Whether two operands are equal. -/
def same : Operand → Operand → Bool
  | .value a, .value b => a.same b
  | .list a, .list b => Item.sameParameters a b
  | .item a, .item b => a.same b
  | .parameter a, .parameter b => a == b
  | _, _ => false

end Operand

/-- A predicate on rows. -/
inductive Filter where
  | comparison (item : Item) (op : Comparison) (operand : Operand)
  | group (op : Connective) (children : List Filter)

namespace Filter

/-! ## Texts -/

/-- The text of a comparison; comparisons with null have a form of their own. -/
def comparisonSql (item : Item) (op : Comparison) (operand : Operand) : String :=
  let left := item.sqlWithoutAlias
  match op, operand with
  | .equal, .value .null => left ++ " IS NULL"
  | .different, .value .null => left ++ " IS NOT NULL"
  | .isIn, .value v | .notIn, .value v => left ++ " " ++ op.sql ++ " (" ++ v.literal ++ ")"
  | _, _ => left ++ " " ++ op.sql ++ " " ++ operand.sql

mutual

/-- The text of a filter; a group stands in parentheses. -/
def sql : Filter → String
  | .comparison item op operand => comparisonSql item op operand
  | .group op children => "(" ++ Text.joinWith (" " ++ op.sql ++ " ") (sqls children) ++ ")"

/-- The texts of filters. -/
def sqls : List Filter → List String
  | [] => []
  | f :: rest => sql f :: sqls rest

end

/-! ## Items and parameters -/

/-- The items of a comparison. -/
def comparisonItems (item : Item) : Operand → List Item
  | .item other => [item, other]
  | _ => [item]

mutual

/-- The items that a filter reads, from left to right. -/
def items : Filter → List Item
  | .comparison item _ operand => comparisonItems item operand
  | .group _ children => itemsOf children

/-- The items that filters read. -/
def itemsOf : List Filter → List Item
  | [] => []
  | f :: rest => items f ++ itemsOf rest

end

mutual

/-- One more than the highest parameter of a filter; zero without parameters. -/
def parameterCount : Filter → Nat
  | .comparison _ _ (.parameter index) => index + 1
  | .comparison .. => 0
  | .group _ children => parameterCountOf children

/-- One more than the highest parameter of filters. -/
def parameterCountOf : List Filter → Nat
  | [] => 0
  | f :: rest => max (parameterCount f) (parameterCountOf rest)

end

/-- The operand that a value becomes: an array compared by membership is a list. -/
def boundOperand (op : Comparison) (v : Value) : Operand :=
  match op.isList, v with
  | true, .nested (.array items) => .list (items.map Value.ofJson)
  | _, v => .value v

mutual

/-- The filter with every parameter replaced by its value. -/
def withParameters (values : List Value) : Filter → Except QueryError Filter
  | .comparison item op (.parameter index) =>
    match values[index]? with
    | some v => .ok (.comparison item op (boundOperand op v))
    | none => .error (.missingParameter (index + 1) (comparisonSql item op (.parameter index)))
  | .comparison item op operand => .ok (.comparison item op operand)
  | .group op children => (allWithParameters values children).map (.group op)

/-- Filters with every parameter replaced by its value. -/
def allWithParameters (values : List Value) : List Filter → Except QueryError (List Filter)
  | [] => .ok []
  | f :: rest => do
    let f ← withParameters values f
    let rest ← allWithParameters values rest
    return f :: rest

end

mutual

/-- Whether two filters are equal. -/
def same : Filter → Filter → Bool
  | .comparison a op x, .comparison b op' y => a.same b && op == op' && x.same y
  | .group op as, .group op' bs => op == op' && allSame as bs
  | _, _ => false

/-- Whether two lists hold equal filters. -/
def allSame : List Filter → List Filter → Bool
  | [], [] => true
  | a :: as, b :: bs => same a b && allSame as bs
  | _, _ => false

end

end Filter

end DocQuery
