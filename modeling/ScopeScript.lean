import ScopeScript.CommandLine
import ScopeScript.Decimal.Binary64
import ScopeScript.Decimal.Integer
import ScopeScript.Decimal.Reading
import ScopeScript.Decimal.Shortest
import ScopeScript.Diagnostic
import ScopeScript.Digest
import ScopeScript.Evaluator.Assignment
import ScopeScript.Evaluator.Basic
import ScopeScript.Evaluator.Call
import ScopeScript.Evaluator.Expression
import ScopeScript.Evaluator.Native
import ScopeScript.Evaluator.Prelude
import ScopeScript.Evaluator.Statement
import ScopeScript.Expr
import ScopeScript.File.Path
import ScopeScript.File.Tree
import ScopeScript.Interpreter
import ScopeScript.Lexer.Regex
import ScopeScript.Lexer.Regex.Reading
import ScopeScript.Lexer.Rule
import ScopeScript.Lexer.Vocabulary
import ScopeScript.Machine
import ScopeScript.Main
import ScopeScript.Operator
import ScopeScript.Outcome
import ScopeScript.Parser.Expression
import ScopeScript.Parser.Source
import ScopeScript.Parser.Statement
import ScopeScript.Parser.Stream
import ScopeScript.Proofs.Computation
import ScopeScript.Proofs.Course.Basic
import ScopeScript.Proofs.Course.Evaluation
import ScopeScript.Proofs.Decimal.Nearest
import ScopeScript.Proofs.Decimal.Numerals
import ScopeScript.Proofs.Decimal.ReadingBack
import ScopeScript.Proofs.Decimal.Rounding
import ScopeScript.Proofs.Decimal.Sign
import ScopeScript.Proofs.Diagnostic.Position
import ScopeScript.Proofs.Diagnostic.Report
import ScopeScript.Proofs.Evaluator.Balance
import ScopeScript.Proofs.Evaluator.Closure
import ScopeScript.Proofs.Evaluator.Forest
import ScopeScript.Proofs.Evaluator.Keeping
import ScopeScript.Proofs.Evaluator.Lifetime
import ScopeScript.Proofs.Evaluator.Nesting
import ScopeScript.Proofs.Evaluator.Prelude
import ScopeScript.Proofs.Evaluator.Writing
import ScopeScript.Proofs.Interpreter.Assigning
import ScopeScript.Proofs.Interpreter.Isolation
import ScopeScript.Proofs.Interpreter.Lifetime
import ScopeScript.Proofs.Interpreter.Locating
import ScopeScript.Proofs.Interpreter.Naming
import ScopeScript.Proofs.Interpreter.Nesting
import ScopeScript.Proofs.Interpreter.Session
import ScopeScript.Proofs.Interpreter.Teardown
import ScopeScript.Proofs.Interpreter.Termination
import ScopeScript.Proofs.Interpreter.Yielding
import ScopeScript.Proofs.Isolation.Evaluation
import ScopeScript.Proofs.Isolation.Isolated
import ScopeScript.Proofs.Isolation.Isolating
import ScopeScript.Proofs.Isolation.Steady
import ScopeScript.Proofs.Lexer.Expressions
import ScopeScript.Proofs.Lexer.Layout
import ScopeScript.Proofs.Lexer.Matching
import ScopeScript.Proofs.Lexer.Pieces
import ScopeScript.Proofs.Lexer.Quoting
import ScopeScript.Proofs.Lexer.Registration
import ScopeScript.Proofs.Lexer.Scanning
import ScopeScript.Proofs.Lexer.Spelling
import ScopeScript.Proofs.Lexer.Winning
import ScopeScript.Proofs.Locating.Evaluation
import ScopeScript.Proofs.Locating.Pointing
import ScopeScript.Proofs.Map.Finite
import ScopeScript.Proofs.Map.Instances
import ScopeScript.Proofs.Map.Methods
import ScopeScript.Proofs.Map.Refinement
import ScopeScript.Proofs.Map.Storage
import ScopeScript.Proofs.Parser.Covering
import ScopeScript.Proofs.Parser.CoveringStatements
import ScopeScript.Proofs.Parser.Grammar
import ScopeScript.Proofs.Parser.Juxtaposition
import ScopeScript.Proofs.Parser.Layout
import ScopeScript.Proofs.Parser.Nesting
import ScopeScript.Proofs.Parser.Nodes
import ScopeScript.Proofs.Parser.Offset
import ScopeScript.Proofs.Parser.Outline
import ScopeScript.Proofs.Parser.Precedence
import ScopeScript.Proofs.Parser.Provenance
import ScopeScript.Proofs.Parser.Reading
import ScopeScript.Proofs.Parser.Recovery
import ScopeScript.Proofs.Parser.Regrouping
import ScopeScript.Proofs.Parser.Relocation
import ScopeScript.Proofs.Parser.RenderedWords
import ScopeScript.Proofs.Parser.Rendering
import ScopeScript.Proofs.Parser.Spans
import ScopeScript.Proofs.Parser.Stance
import ScopeScript.Proofs.Parser.Trailing
import ScopeScript.Proofs.Parser.TrailingStatements
import ScopeScript.Proofs.Parser.Twin
import ScopeScript.Proofs.Parser.TwinExpressions
import ScopeScript.Proofs.Parser.TwinStatements
import ScopeScript.Proofs.Session.Completion
import ScopeScript.Proofs.Session.Tree
import ScopeScript.Proofs.Termination.Evaluation
import ScopeScript.Proofs.Termination.LoopFree
import ScopeScript.Proofs.Termination.Settling
import ScopeScript.Proofs.Termination.Store
import ScopeScript.Proofs.Text.Basic
import ScopeScript.Proofs.Text.Escaping
import ScopeScript.Proofs.Text.Order
import ScopeScript.Proofs.Text.Unquoting
import ScopeScript.Proofs.Value.Range
import ScopeScript.Proofs.Value.Size
import ScopeScript.Proofs.Vault.Bracketing
import ScopeScript.Proofs.Vault.Contents
import ScopeScript.Proofs.Vault.Editing
import ScopeScript.Proofs.Vault.Effect
import ScopeScript.Proofs.Vault.Failing
import ScopeScript.Proofs.Vault.Fingerprint
import ScopeScript.Proofs.Vault.Forest
import ScopeScript.Proofs.Vault.Frames
import ScopeScript.Proofs.Vault.Handles
import ScopeScript.Proofs.Vault.History
import ScopeScript.Proofs.Vault.Nested
import ScopeScript.Proofs.Vault.Operation
import ScopeScript.Proofs.Vault.Paths
import ScopeScript.Proofs.Vault.Postorder
import ScopeScript.Proofs.Vault.Release
import ScopeScript.Proofs.Vault.Restoring
import ScopeScript.Proofs.Vault.Reuse
import ScopeScript.Proofs.Vault.Rooted
import ScopeScript.Proofs.Vault.Slots
import ScopeScript.Proofs.Vault.Snapshot
import ScopeScript.Proofs.Vault.Territory
import ScopeScript.Proofs.Vault.Untouched
import ScopeScript.Proofs.Vault.Writing
import ScopeScript.Session
import ScopeScript.Session.Console
import ScopeScript.Session.Message
import ScopeScript.Session.Tree
import ScopeScript.Settings
import ScopeScript.Settings.Document
import ScopeScript.Span
import ScopeScript.Stmt
import ScopeScript.Text.Blank
import ScopeScript.Text.Bytes
import ScopeScript.Text.Printable
import ScopeScript.Text.Quoted
import ScopeScript.Text.Styled
import ScopeScript.Token
import ScopeScript.Token.Lexer
import ScopeScript.Value
import ScopeScript.Value.Operation
import ScopeScript.Vault.Basic
import ScopeScript.Vault.Frame
import ScopeScript.Vault.Handle
import ScopeScript.Vault.Snapshot
import ScopeScript.Vault.Table
