import Workflow.Bundle.Basic
import Workflow.Bundle.Build
import Workflow.Bundle.Environment
import Workflow.Bundle.Header
import Workflow.Bundle.Import
import Workflow.Bundle.Installed
import Workflow.Bundle.Link
import Workflow.Bundle.Registry
import Workflow.Bundle.Settings
import Workflow.Bundle.Shipped.CodeNode
import Workflow.Bundle.Shipped.Context
import Workflow.Bundle.Shipped.Expressions
import Workflow.Bundle.Shipped.HttpRequest
import Workflow.Bundle.Shipped.Logger
import Workflow.Bundle.Shipped.NodeBase
import Workflow.Bundle.Shipped.SendEmail
import Workflow.Bundle.Standard
import Workflow.Compile.Basic
import Workflow.Compile.Deploy
import Workflow.Compile.Report
import Workflow.Digest.Sha256
import Workflow.Execution.Context
import Workflow.Execution.Form
import Workflow.Execution.Log
import Workflow.Execution.Raised
import Workflow.Execution.Request
import Workflow.Execution.Response
import Workflow.Execution.Run
import Workflow.Execution.Signature
import Workflow.Formula.Basic
import Workflow.Formula.Evaluate
import Workflow.Formula.Marker
import Workflow.Graph.Basic
import Workflow.Graph.Cycle
import Workflow.Graph.Depth
import Workflow.Graph.Kind
import Workflow.Graph.Node
import Workflow.Graph.Order
import Workflow.Graph.Plan
import Workflow.Graph.Reach
import Workflow.Handler.Basic
import Workflow.Handler.Flow
import Workflow.Handler.Guard
import Workflow.Handler.Identifier
import Workflow.Handler.Literal
import Workflow.Handler.Reading
import Workflow.Handler.Text
import Workflow.Handler.Writer
import Workflow.Json.Read
import Workflow.Json.Write
import Workflow.Node.Behaviour
import Workflow.Node.Code
import Workflow.Node.Email
import Workflow.Node.Exchange
import Workflow.Node.Http
import Workflow.Node.Snippet
import Workflow.Number.Binary
import Workflow.Number.Fixed
import Workflow.Number.Read
import Workflow.Number.Shortest
import Workflow.Proofs.Admission
import Workflow.Proofs.Agreement
import Workflow.Proofs.Binding
import Workflow.Proofs.Blame
import Workflow.Proofs.Configuration
import Workflow.Proofs.Containment
import Workflow.Proofs.Continuations
import Workflow.Proofs.Dangling
import Workflow.Proofs.Depth
import Workflow.Proofs.Embedding
import Workflow.Proofs.Emission
import Workflow.Proofs.Interleaving
import Workflow.Proofs.Interpolation
import Workflow.Proofs.Interpretation
import Workflow.Proofs.Leaves
import Workflow.Proofs.Linearity
import Workflow.Proofs.Moments
import Workflow.Proofs.Naming
import Workflow.Proofs.Ordering
import Workflow.Proofs.Outcome
import Workflow.Proofs.Outline
import Workflow.Proofs.Reachability
import Workflow.Proofs.Registration
import Workflow.Proofs.Repetition
import Workflow.Proofs.Reporting
import Workflow.Proofs.Resumption
import Workflow.Proofs.Secrets
import Workflow.Proofs.Shaking
import Workflow.Proofs.Walk
import Workflow.Schema.Check
import Workflow.Schema.Integer
import Workflow.Schema.Problem
import Workflow.Service.Basic
import Workflow.Service.Submission
import Workflow.Source.Escape
import Workflow.Source.Expression
import Workflow.Source.Lexer
import Workflow.Source.Mark
import Workflow.Source.Names
import Workflow.Source.Numeral
import Workflow.Source.Operator
import Workflow.Source.Parse
import Workflow.Source.PatternReading
import Workflow.Source.Printer
import Workflow.Source.Quoting
import Workflow.Source.Shake
import Workflow.Source.Statement
import Workflow.Source.Token
import Workflow.Source.Tree
import Workflow.Source.Validity
import Workflow.Table
import Workflow.Text.Blank
import Workflow.Text.Case
import Workflow.Text.CharSet
import Workflow.Text.Digits
import Workflow.Text.Letters
import Workflow.Text.Lines
import Workflow.Text.Normal
import Workflow.Text.Printable
import Workflow.Text.Quoted
import Workflow.Text.Search
import Workflow.Text.Utf8
import Workflow.Value.Arithmetic
import Workflow.Value.Attributes
import Workflow.Value.Basic
import Workflow.Value.Compare
import Workflow.Value.Fault
import Workflow.Value.Format
import Workflow.Value.Functions
import Workflow.Value.Methods
import Workflow.Value.Sequence
import Workflow.Value.Text
import Workflow.Proofs.Detection
import Workflow.Proofs.Liveness
import Workflow.Proofs.Places
import Workflow.Proofs.Substitution
import Workflow.Proofs.Visibility
import Workflow.Proofs.Stripping
import Workflow.Proofs.Batching
import Workflow.Proofs.Locals
import Workflow.Proofs.Distinctness
import Workflow.Proofs.Wrapping
