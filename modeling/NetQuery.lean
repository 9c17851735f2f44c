import NetQuery.Dialect.Backend
import NetQuery.Dialect.Basic
import NetQuery.Json.Basic
import NetQuery.Json.Reader
import NetQuery.Json.Token
import NetQuery.Number.Decimal
import NetQuery.Number.Layout
import NetQuery.Number.Nearest
import NetQuery.Number.Scaled
import NetQuery.Number.Shortest
import NetQuery.Paging.Cursor
import NetQuery.Paging.Plan
import NetQuery.Proofs.Aliases
import NetQuery.Proofs.Binding
import NetQuery.Proofs.Calendar
import NetQuery.Proofs.Casing
import NetQuery.Proofs.Checks
import NetQuery.Proofs.Clock
import NetQuery.Proofs.Compiling
import NetQuery.Proofs.Cursors
import NetQuery.Proofs.Days
import NetQuery.Proofs.Emission
import NetQuery.Proofs.Engines
import NetQuery.Proofs.Evaluation
import NetQuery.Proofs.Exposure
import NetQuery.Proofs.Expressions
import NetQuery.Proofs.Failures
import NetQuery.Proofs.Faults
import NetQuery.Proofs.Fields
import NetQuery.Proofs.FieldTexts
import NetQuery.Proofs.FirstFault
import NetQuery.Proofs.Folding
import NetQuery.Proofs.Formed
import NetQuery.Proofs.Grammar
import NetQuery.Proofs.Graph
import NetQuery.Proofs.Instants
import NetQuery.Proofs.Integers
import NetQuery.Proofs.Lexing
import NetQuery.Proofs.Limits
import NetQuery.Proofs.Meaning
import NetQuery.Proofs.Pages
import NetQuery.Proofs.Parsing
import NetQuery.Proofs.Pieces
import NetQuery.Proofs.Placeholders
import NetQuery.Proofs.Plans
import NetQuery.Proofs.Positions
import NetQuery.Proofs.Printing
import NetQuery.Proofs.Prompt
import NetQuery.Proofs.Quoting
import NetQuery.Proofs.Readback
import NetQuery.Proofs.Recasing
import NetQuery.Proofs.Rules
import NetQuery.Proofs.Spacing
import NetQuery.Proofs.SqlFilter
import NetQuery.Proofs.TimeTexts
import NetQuery.Proofs.Timestamps
import NetQuery.Proofs.Transfer
import NetQuery.Proofs.Typing
import NetQuery.Proofs.Views
import NetQuery.Proofs.Words
import NetQuery.Query.Basic
import NetQuery.Query.Catalog
import NetQuery.Query.Entity
import NetQuery.Query.Field
import NetQuery.Query.Operator
import NetQuery.Query.Parser
import NetQuery.Query.Value
import NetQuery.Query.Viz
import NetQuery.Rows
import NetQuery.Service.Address
import NetQuery.Service.Compile
import NetQuery.Service.Failure
import NetQuery.Service.Http
import NetQuery.Service.Media
import NetQuery.Service.Request
import NetQuery.Service.Session
import NetQuery.Service.Settings
import NetQuery.Service.Target
import NetQuery.Service.Wire
import NetQuery.Statement.Basic
import NetQuery.Statement.Compile
import NetQuery.Statement.Param
import NetQuery.Text.Base64
import NetQuery.Text.Basic
import NetQuery.Text.Blank
import NetQuery.Text.Letter
import NetQuery.Text.Position
import NetQuery.Text.Utf8
import NetQuery.Time.Date
import NetQuery.Time.Timestamp
import NetQuery.Token.Basic
import NetQuery.Token.Lexer
