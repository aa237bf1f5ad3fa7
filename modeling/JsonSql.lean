import JsonSql.Calendar.Moment
import JsonSql.Calendar.Printer
import JsonSql.Calendar.Reader
import JsonSql.CommandLine.Arguments
import JsonSql.CommandLine.Run
import JsonSql.Decimal.Binary64
import JsonSql.Decimal.Layout
import JsonSql.Decimal.Numeral
import JsonSql.Decimal.Shortest
import JsonSql.Json.Basic
import JsonSql.Json.Number
import JsonSql.Json.Printer
import JsonSql.Json.Quoted
import JsonSql.Json.Reader
import JsonSql.Json.Shape
import JsonSql.Json.Skip
import JsonSql.Main
import JsonSql.Proofs.Admission
import JsonSql.Proofs.Agreement
import JsonSql.Proofs.Aliases
import JsonSql.Proofs.Alongside
import JsonSql.Proofs.Alternatives
import JsonSql.Proofs.Answers
import JsonSql.Proofs.Asked
import JsonSql.Proofs.Attempts
import JsonSql.Proofs.Blanks
import JsonSql.Proofs.Bounded
import JsonSql.Proofs.ByPath
import JsonSql.Proofs.Carried
import JsonSql.Proofs.Columns
import JsonSql.Proofs.Comparisons
import JsonSql.Proofs.Compiled
import JsonSql.Proofs.Concealed
import JsonSql.Proofs.ConcealedRows
import JsonSql.Proofs.Concealment
import JsonSql.Proofs.Contributions
import JsonSql.Proofs.Copies
import JsonSql.Proofs.Corresponding
import JsonSql.Proofs.Counts
import JsonSql.Proofs.Dangling
import JsonSql.Proofs.DateLiterals
import JsonSql.Proofs.DayNumbers
import JsonSql.Proofs.Declared
import JsonSql.Proofs.Destinations
import JsonSql.Proofs.Dialects
import JsonSql.Proofs.Discriminators
import JsonSql.Proofs.DottedKeys
import JsonSql.Proofs.Draws
import JsonSql.Proofs.Dropped
import JsonSql.Proofs.Echoes
import JsonSql.Proofs.Encodings
import JsonSql.Proofs.ExactIntegers
import JsonSql.Proofs.Exchanges
import JsonSql.Proofs.Existential
import JsonSql.Proofs.Expansion
import JsonSql.Proofs.Failures
import JsonSql.Proofs.FewerClauses
import JsonSql.Proofs.FieldLists
import JsonSql.Proofs.FilterGrammar
import JsonSql.Proofs.Filtering
import JsonSql.Proofs.FinalSigmas
import JsonSql.Proofs.Followed
import JsonSql.Proofs.Formula
import JsonSql.Proofs.Grounded
import JsonSql.Proofs.IgnoredCase
import JsonSql.Proofs.Instants
import JsonSql.Proofs.Introductions
import JsonSql.Proofs.Issued
import JsonSql.Proofs.Joinable
import JsonSql.Proofs.JoinedRows
import JsonSql.Proofs.JoinedTables
import JsonSql.Proofs.Joins
import JsonSql.Proofs.KeyOrder
import JsonSql.Proofs.Leaves
import JsonSql.Proofs.Legible
import JsonSql.Proofs.Lexer
import JsonSql.Proofs.LinkedRows
import JsonSql.Proofs.Links
import JsonSql.Proofs.Lockstep
import JsonSql.Proofs.Lookups
import JsonSql.Proofs.Meaning
import JsonSql.Proofs.Merging
import JsonSql.Proofs.Mirrored
import JsonSql.Proofs.Nesting
import JsonSql.Proofs.NumeralValues
import JsonSql.Proofs.Numerals
import JsonSql.Proofs.Opposites
import JsonSql.Proofs.Ordering
import JsonSql.Proofs.Pages
import JsonSql.Proofs.Parallel
import JsonSql.Proofs.ParallelRequests
import JsonSql.Proofs.Parts
import JsonSql.Proofs.Paths
import JsonSql.Proofs.Patterns
import JsonSql.Proofs.Portable
import JsonSql.Proofs.Precedence
import JsonSql.Proofs.Prefixes
import JsonSql.Proofs.Projected
import JsonSql.Proofs.Projections
import JsonSql.Proofs.Provenance
import JsonSql.Proofs.Quoting
import JsonSql.Proofs.Reached
import JsonSql.Proofs.ReadBack
import JsonSql.Proofs.Reading
import JsonSql.Proofs.Recorded
import JsonSql.Proofs.References
import JsonSql.Proofs.Relabelled
import JsonSql.Proofs.RelatedRows
import JsonSql.Proofs.Relations
import JsonSql.Proofs.ReloadedSchemas
import JsonSql.Proofs.Renamed
import JsonSql.Proofs.Reordered
import JsonSql.Proofs.Reorderings
import JsonSql.Proofs.Replacements
import JsonSql.Proofs.Respelled
import JsonSql.Proofs.RespelledFilters
import JsonSql.Proofs.RespelledRequests
import JsonSql.Proofs.ResultNames
import JsonSql.Proofs.Rounding
import JsonSql.Proofs.RowsBelow
import JsonSql.Proofs.Run
import JsonSql.Proofs.Scoping
import JsonSql.Proofs.Segments
import JsonSql.Proofs.Segmentwise
import JsonSql.Proofs.Selection
import JsonSql.Proofs.Selects
import JsonSql.Proofs.Semantics
import JsonSql.Proofs.Senses
import JsonSql.Proofs.Settled
import JsonSql.Proofs.SeveralRows
import JsonSql.Proofs.Shape
import JsonSql.Proofs.ShortNumbers
import JsonSql.Proofs.ShorterTexts
import JsonSql.Proofs.ShortestDecimals
import JsonSql.Proofs.SpelledOut
import JsonSql.Proofs.Spelling
import JsonSql.Proofs.Subqueries
import JsonSql.Proofs.Tallies
import JsonSql.Proofs.Tidy
import JsonSql.Proofs.Truth
import JsonSql.Proofs.Twins
import JsonSql.Proofs.Unambiguous
import JsonSql.Proofs.Unquoting
import JsonSql.Proofs.Unsorted
import JsonSql.Proofs.Validated
import JsonSql.Proofs.ValueLists
import JsonSql.Proofs.Vocabulary
import JsonSql.Proofs.Walks
import JsonSql.Proofs.WholeRows
import JsonSql.Proofs.Windows
import JsonSql.Proofs.WrittenJson
import JsonSql.Proofs.WrittenMoments
import JsonSql.Proofs.WrittenNumbers
import JsonSql.Proofs.WrittenSchemas
import JsonSql.Request.Aggregation
import JsonSql.Request.Basic
import JsonSql.Request.Error
import JsonSql.Request.Filter
import JsonSql.Request.FilterReader
import JsonSql.Request.Operator
import JsonSql.Request.Reader
import JsonSql.Request.Unfold
import JsonSql.Schema.Basic
import JsonSql.Schema.Field
import JsonSql.Schema.Link
import JsonSql.Schema.Reader
import JsonSql.Schema.Validity
import JsonSql.Settings.Basic
import JsonSql.Settings.Reader
import JsonSql.Settings.Variables
import JsonSql.Sql.DateLiteral
import JsonSql.Sql.Dialect
import JsonSql.Sql.Expr
import JsonSql.Sql.Function
import JsonSql.Sql.Quote
import JsonSql.Sql.Render
import JsonSql.Sql.Token
import JsonSql.Sql.Window
import JsonSql.Statement.Alias
import JsonSql.Statement.Column
import JsonSql.Statement.Compile
import JsonSql.Statement.Condition
import JsonSql.Statement.Context
import JsonSql.Statement.Join
import JsonSql.Statement.Predicate
import JsonSql.Statement.Search
import JsonSql.Statement.Summary
import JsonSql.Statement.Value
import JsonSql.Text.Alphanumeric
import JsonSql.Text.Blank
import JsonSql.Text.Case
import JsonSql.Text.CaseTable
import JsonSql.Text.Hex
import JsonSql.Text.Split
import JsonSql.Toml.Basic
import JsonSql.Toml.DateTime
import JsonSql.Toml.Outline
import JsonSql.Toml.Reader
import JsonSql.Toml.Scalar
