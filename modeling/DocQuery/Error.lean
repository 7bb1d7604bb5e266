/-!
# DocQuery.Error — what can go wrong with a query

One constructor per cause.  Causes fall into kinds by the stage that finds them; the message of an
error names its kind and then says what is wrong.
-/

namespace DocQuery

/-- The kinds of errors of queries. -/
inductive ErrorKind where
  | parse | configuration | execution | tableNotFound
deriving DecidableEq

/-- Why a query cannot be read, planned or executed. -/
inductive QueryError where
  /-- A quote in the text of a query is left open. -/
  | unterminatedQuote (query : String)
  /-- The parentheses of a query do not match. -/
  | unbalancedParentheses (query : String)
  /-- A part of a clause is none of the forms the clause admits. -/
  | unparsable (clause token : String)
  /-- A required clause is missing. -/
  | clauseNotFound (keyword query : String)
  /-- A clause has a keyword and no text. -/
  | emptyClause (keyword query : String)
  /-- The count of rows to skip leaves no first row. -/
  | offsetTooLarge (text : String)
  /-- No table has this name. -/
  | noSuchTable (name : String)
  /-- A join has no conditions in the text. -/
  | missingOn (token : String)
  /-- A join of a kind that is not supported. -/
  | unsupportedJoin (word token : String)
  /-- An unqualified name that several from items have. -/
  | ambiguousColumn (name : String)
  /-- An expression without alias. -/
  | aliasRequired
  /-- A reference into a from item that is no subquery. -/
  | notSubquery (source : String)
  /-- A reference to an item that the subquery does not select. -/
  | notSelected (source item : String)
  /-- A join with unequal counts of items on its sides. -/
  | unevenJoin (left right : Nat)
  /-- A join without conditions. -/
  | joinWithoutConditions (left right : String)
  /-- A query without from items. -/
  | noFromItems (query : String)
  /-- A product of no data sets. -/
  | nothingToJoin
  /-- A from item that rows cannot be read from. -/
  | unreadableSource (text : String)
  /-- A parameter without a value when values are bound. -/
  | missingParameter (number : Nat) (filter : String)
  /-- A parameter without a value when a filter is evaluated. -/
  | unboundParameter (number : Nat)
  /-- An item of a filter that the rows do not have. -/
  | filterItemMissing (item : String)
  /-- A select item that the rows do not have. -/
  | selectItemMissing (item : String)
  /-- A scalar function stage was given an item without scalar function. -/
  | notScalar (item : String)
  /-- The input of a scalar function that the rows do not have. -/
  | scalarInputMissing (item : String)
  /-- The input of an aggregate that the rows do not have. -/
  | aggregateInputMissing (item : String)
  /-- An aggregate of an expression. -/
  | aggregatedExpression (item : String)
  /-- A select item that is neither grouped by nor aggregated. -/
  | notGrouped (item : String)
  /-- An item to group by that the rows do not have. -/
  | groupItemMissing (item : String)
  /-- An item to order by that the rows do not have. -/
  | orderItemMissing (item : String)
  /-- A compiled query was given another count of values than it has parameters. -/
  | parameterMismatch (expected given : Nat)
  /-- A data set failed while it was read. -/
  | sourceFailure (text : String)
  /-- The row source has no table of this name. -/
  | tableNotFound (name : String)
deriving DecidableEq

/-- The words that the message of a kind begins with. -/
def ErrorKind.heading : ErrorKind → String
  | .parse => "Parse error"
  | .configuration => "Configuration error"
  | .execution => "Execution error"
  | .tableNotFound => "Table not found"

namespace QueryError

/-- The kind of an error. -/
def kind : QueryError → ErrorKind
  | .unterminatedQuote _ | .unbalancedParentheses _ | .unparsable .. | .clauseNotFound ..
  | .emptyClause .. | .offsetTooLarge _ | .noSuchTable _ | .missingOn _ | .unsupportedJoin ..
  | .ambiguousColumn _ => .parse
  | .aliasRequired | .notSubquery _ | .notSelected .. | .unevenJoin .. | .joinWithoutConditions ..
  | .noFromItems _ | .nothingToJoin | .unreadableSource _ => .configuration
  | .missingParameter .. | .unboundParameter _ | .filterItemMissing _ | .selectItemMissing _
  | .notScalar _ | .scalarInputMissing _ | .aggregateInputMissing _ | .aggregatedExpression _
  | .notGrouped _ | .groupItemMissing _ | .orderItemMissing _ | .parameterMismatch ..
  | .sourceFailure _ => .execution
  | .tableNotFound _ => .tableNotFound

/-- What is wrong, without the kind. -/
def detail : QueryError → String
  | .unterminatedQuote query => "Unterminated quoted text in query: " ++ query
  | .unbalancedParentheses query => "Unbalanced parentheses in query: " ++ query
  | .unparsable clause token => "Not capable of parsing " ++ clause ++ " token: " ++ token
  | .clauseNotFound keyword query => keyword ++ " clause not found in query: " ++ query
  | .emptyClause keyword query => "Empty " ++ keyword ++ " clause in query: " ++ query
  | .offsetTooLarge text => "OFFSET " ++ text ++ " is too large"
  | .noSuchTable name => "No such table: " ++ name
  | .missingOn token => "Join is missing an ON clause: " ++ token
  | .unsupportedJoin word token => "Unsupported join type " ++ word ++ ": " ++ token
  | .ambiguousColumn name => "Ambiguous column reference: " ++ name
  | .aliasRequired => "Expression-based select items require an alias"
  | .notSubquery source => source ++ " is not a subquery"
  | .notSelected source item => "Subquery " ++ source ++ " does not select " ++ item
  | .unevenJoin left right =>
    "Join has " ++ toString left ++ " left ON items but " ++ toString right ++ " right ON items"
  | .joinWithoutConditions left right =>
    "Join between " ++ left ++ " and " ++ right ++ " has no ON conditions"
  | .noFromItems query => "Query has no FROM items: " ++ query
  | .nothingToJoin => "Cartesian product needs at least one data set"
  | .unreadableSource text =>
    "Cannot post-process FROM item that is neither table, join nor subquery: " ++ text
  | .missingParameter number filter =>
    "No value supplied for parameter " ++ toString number ++ " in filter: " ++ filter
  | .unboundParameter number =>
    "Parameter " ++ toString number ++ " is not bound; compile the query and supply values"
  | .filterItemMissing item => "Filter references " ++ item ++ " which is not part of the row"
  | .selectItemMissing item => "Select item " ++ item ++ " is not available"
  | .notScalar item => item ++ " is not a scalar function item"
  | .scalarInputMissing item => "Input of " ++ item ++ " is not available in the data set"
  | .aggregateInputMissing item => "Input of " ++ item ++ " is not available"
  | .aggregatedExpression item => "Aggregating expressions is not supported: " ++ item
  | .notGrouped item => item ++ " must appear in GROUP BY or be used in an aggregate function"
  | .groupItemMissing item => "GROUP BY item " ++ item ++ " is not available"
  | .orderItemMissing item => "ORDER BY item " ++ item ++ " is not available"
  | .parameterMismatch expected given =>
    "Query expects " ++ toString expected ++ " parameters but " ++ toString given ++ " were given"
  | .sourceFailure text => text
  | .tableNotFound name => name

/-- The message of an error: its kind and what is wrong. -/
def message (e : QueryError) : String := e.kind.heading ++ ": " ++ e.detail

end QueryError

end DocQuery
