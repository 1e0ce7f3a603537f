import QuerySql.Text.Blank
import QuerySql.Text.Quoted
import QuerySql.Json.Writer
import QuerySql.Json.Document
import QuerySql.Json.Numeral
import QuerySql.Json.Inside
import QuerySql.Json.Scan
import QuerySql.Json.Reader
import QuerySql.Operator.Basic
import QuerySql.Operator.Argument
import QuerySql.Operator.Placeholder
import QuerySql.Operator.Items
import QuerySql.Operator.Expression
import QuerySql.Filter.Basic
import QuerySql.Json.Decoder
import QuerySql.Schema.Json
import QuerySql.Request.Json
import QuerySql.Compiler
import QuerySql.Settings.Document
import QuerySql.Proofs.Chain
import QuerySql.Proofs.Outline
import QuerySql.Proofs.Reading
import QuerySql.Proofs.Precedence
import QuerySql.Proofs.Vacuous
import QuerySql.Proofs.Clauses
import QuerySql.Proofs.Groups
import QuerySql.Proofs.Grammar
import QuerySql.Proofs.Scanner
import QuerySql.Proofs.Paths
import QuerySql.Proofs.Visits
import QuerySql.Proofs.Unambiguous
import QuerySql.Proofs.Expansion
import QuerySql.Proofs.Aliases
import QuerySql.Proofs.TreeLeaves
import QuerySql.Proofs.Counting
import QuerySql.Proofs.Placeholders
import QuerySql.Proofs.Calls
import QuerySql.Proofs.Matching
import QuerySql.Proofs.JsonArguments
import QuerySql.Proofs.WrittenLists
import QuerySql.Proofs.Columns
import QuerySql.Proofs.Leaves
import QuerySql.Proofs.Pruning
import QuerySql.Proofs.JoinOrder
import QuerySql.Proofs.Restriction
import QuerySql.Proofs.Termination
import QuerySql.Proofs.ByteOrder
import QuerySql.Proofs.Records
import QuerySql.Proofs.SchemaJson
import QuerySql.Proofs.Pages
import QuerySql.Proofs.Escapes
import QuerySql.Proofs.FirstItems
import QuerySql.Proofs.RequestJson
import QuerySql.Proofs.Overrides
