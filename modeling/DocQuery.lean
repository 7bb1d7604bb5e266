import DocQuery.Engine.Memory
import DocQuery.Main
import DocQuery.Rows.Cursor
import DocQuery.Proofs.Number.Order
import DocQuery.Proofs.Value.Order
import DocQuery.Proofs.Json.Sameness
import DocQuery.Proofs.Value.Sameness
import DocQuery.Proofs.Rows.Outcomes
import DocQuery.Proofs.Rows.Planning
import DocQuery.Proofs.Rows.Join
import DocQuery.Proofs.Rows.Reading
import DocQuery.Proofs.Rows.Cursor
import DocQuery.Proofs.Query.Items
import DocQuery.Proofs.Rows.Columns
import DocQuery.Proofs.Rows.Selection
import DocQuery.Proofs.Engine.TableRead
import DocQuery.Proofs.Engine.SingleTable
import DocQuery.Proofs.Number.Sameness
import DocQuery.Proofs.Json.Text
import DocQuery.Proofs.Text.Chars
import DocQuery.Proofs.Grammar.Scanner
import DocQuery.Proofs.Grammar.Splitting
import DocQuery.Proofs.Grammar.Reader
import DocQuery.Proofs.Grammar.Parentheses
import DocQuery.Proofs.Grammar.Clauses
import DocQuery.Proofs.Grammar.Words
import DocQuery.Proofs.Grammar.Parts
import DocQuery.Proofs.Grammar.Literal
import DocQuery.Proofs.Grammar.Location
import DocQuery.Proofs.Grammar.Reference
import DocQuery.Proofs.Grammar.Predicate
import DocQuery.Proofs.Query.Resolution
import DocQuery.Proofs.Grammar.Statement
import DocQuery.Proofs.Documents.Store
import DocQuery.Proofs.Documents.Loaded
import DocQuery.Proofs.Documents.Names
import DocQuery.Proofs.Engine.KeyLookup
import DocQuery.Proofs.Grammar.Pending
import DocQuery.Proofs.Grammar.ReadQueries
import DocQuery.Proofs.Rows.Distinct
import DocQuery.Proofs.Engine.Asking
import DocQuery.Proofs.Engine.CountPushdown
import DocQuery.Proofs.Rows.Aggregating
import DocQuery.Proofs.Documents.Counting
import DocQuery.Proofs.Documents.Keys
import DocQuery.Proofs.Engine.Totals
import DocQuery.Proofs.Rows.Headed
import DocQuery.Proofs.Engine.Headers
import DocQuery.Proofs.Engine.Everything
import DocQuery.Proofs.Rows.Cleanup
import DocQuery.Proofs.Rows.Closing
import DocQuery.Proofs.Engine.Closing
import DocQuery.Proofs.Engine.Binding
import DocQuery.Proofs.Engine.Paging
import DocQuery.Proofs.Engine.Offers
import DocQuery.Proofs.Rows.Sections
import DocQuery.Proofs.Engine.Sides
import DocQuery.Proofs.Engine.Product
import DocQuery.Proofs.Rows.LeftJoin
import DocQuery.Proofs.Query.Sameness
import DocQuery.Proofs.Rows.RightJoin
import DocQuery.Proofs.Query.Registry
import DocQuery.Proofs.Rows.Memos
import DocQuery.Proofs.Grammar.Placeholders
import DocQuery.Proofs.Grammar.FilledSearches
import DocQuery.Proofs.Grammar.Numbering
import DocQuery.Proofs.Query.Literals
import DocQuery.Proofs.Grammar.FilledFilters
import DocQuery.Proofs.Grammar.FilledQueries
import DocQuery.Proofs.Value.Coercion
import DocQuery.Proofs.Rows.Typing
import DocQuery.Proofs.Rows.Twins
import DocQuery.Proofs.Engine.Typing
import DocQuery.Proofs.Engine.Twins
import DocQuery.Proofs.Engine.Literals
import DocQuery.Proofs.Rows.Ordering
import DocQuery.Proofs.Rows.Reshaping
import DocQuery.Proofs.Rows.Grouping
import DocQuery.Proofs.Engine.Ungrouped
import DocQuery.Proofs.Rows.Turning
import DocQuery.Proofs.Rows.Ranges
import DocQuery.Proofs.Rows.Extremes
import DocQuery.Proofs.Builtin.Sums
import DocQuery.Proofs.Rows.Patterns
import DocQuery.Proofs.Grammar.Naming
import DocQuery.Proofs.Grammar.Yields
import DocQuery.Proofs.Grammar.Recall
import DocQuery.Proofs.Grammar.Chains
import DocQuery.Proofs.Grammar.Joins
import DocQuery.Proofs.Grammar.FromItems
import DocQuery.Proofs.Number.Decimals
import DocQuery.Proofs.Number.Texts
import DocQuery.Proofs.Time.Texts
import DocQuery.Proofs.Grammar.LiteralTexts
import DocQuery.Proofs.Grammar.Blanks
import DocQuery.Proofs.Grammar.Nesting
import DocQuery.Proofs.Grammar.ParameterOrder
import DocQuery.Proofs.Grammar.ClauseOrder
import DocQuery.Proofs.Query.Senses
import DocQuery.Proofs.Rows.Views
import DocQuery.Proofs.Rows.Showing
import DocQuery.Proofs.Rows.Counterparts
import DocQuery.Proofs.Rows.Following
import DocQuery.Proofs.Rows.FollowingGroups
import DocQuery.Proofs.Engine.FollowingSources
import DocQuery.Proofs.Engine.Following
import DocQuery.Proofs.Grammar.Placements
import DocQuery.Proofs.Engine.Resolving
import DocQuery.Proofs.Documents.Resolving
import DocQuery.Proofs.Documents.Refreshing
import DocQuery.Proofs.Documents.Cells
import DocQuery.Proofs.Value.Documents
import DocQuery.Proofs.Output.Documents
import DocQuery.Proofs.Builtin.Paths
import DocQuery.Proofs.Grammar.Lists
