import Reckoner.Text.Blank
import Reckoner.Text.Line
import Reckoner.Text.Digit
import Reckoner.Text.Parts
import Reckoner.Text.Printable
import Reckoner.Text.Quoted
import Reckoner.Text.Utf8
import Reckoner.Number.Binary64
import Reckoner.Number.Basic
import Reckoner.Expr.Evaluate
import Reckoner.Datum.Arithmetic
import Reckoner.Datum.Display
import Reckoner.Json.Lexeme
import Reckoner.Json.Reader
import Reckoner.Json.Writer
import Reckoner.Field.Check
import Reckoner.Net.Address
import Reckoner.Service.Worker
import Reckoner.Service.Server
import Reckoner.Service.Client
import Reckoner.Files
import Reckoner.Log.Registry
import Reckoner.Command.Run
import Reckoner.Expr.Operator.Fields
import Reckoner.Main
import Reckoner.Expr.Grammar
import Reckoner.Service.Interleaving
import Reckoner.Service.Handling
import Reckoner.Proofs.Expr.Flat
import Reckoner.Proofs.Expr.Group
import Reckoner.Proofs.Expr.Tokens
import Reckoner.Proofs.Text.Digits
import Reckoner.Proofs.Number.Rounding
import Reckoner.Proofs.Number.Bounds
import Reckoner.Proofs.Expr.Bounds
import Reckoner.Proofs.Expr.Rendering
import Reckoner.Proofs.Expr.Counting
import Reckoner.Proofs.Expr.Acceptance
import Reckoner.Proofs.Expr.Failures
import Reckoner.Proofs.Service.Calculation
import Reckoner.Proofs.Json.Texts
import Reckoner.Proofs.Number.Decimals
import Reckoner.Proofs.Text.Lines
import Reckoner.Proofs.Text.Utf8
import Reckoner.Proofs.Json.Numbers
import Reckoner.Proofs.Json.Documents
import Reckoner.Proofs.Service.Messages
import Reckoner.Proofs.Service.Exchange
import Reckoner.Proofs.Service.Interleaving
import Reckoner.Expr.Passes
import Reckoner.Proofs.Expr.Passes
import Reckoner.Proofs.Expr.Substitution
import Reckoner.Proofs.Service.Printing
import Reckoner.Proofs.Service.ResultsFile
import Reckoner.Proofs.Service.Worker
import Reckoner.Proofs.Service.Handling
import Reckoner.Proofs.Service.Framing
import Reckoner.Proofs.Expr.ResultSize
import Reckoner.Expr.Chain
import Reckoner.Expr.Matching
import Reckoner.Expr.AnyOrder
import Reckoner.Proofs.Expr.Chain
import Reckoner.Proofs.Expr.Balance
import Reckoner.Proofs.Expr.Matching
import Reckoner.Proofs.Expr.AnyOrder
import Reckoner.Proofs.Expr.Flow
import Reckoner.Proofs.Expr.Lifting
import Reckoner.Proofs.Expr.Exactness
import Reckoner.Proofs.Log.Configuration
import Reckoner.Proofs.Number.Magnitude
import Reckoner.Proofs.Service.Pairing
import Reckoner.Proofs.Service.Serving
import Reckoner.Service.Serving
import Reckoner.Proofs.Expr.Printed
import Reckoner.Expr.Trace
import Reckoner.Proofs.Expr.Trace
import Reckoner.Service.Collection
import Reckoner.Proofs.Service.Collection
import Reckoner.Path.Suffix
import Reckoner.Proofs.Path
import Reckoner.Expr.Symbols
import Reckoner.Proofs.Expr.Symbols
import Reckoner.Expr.Runs
import Reckoner.Proofs.Expr.Runs
