import Barista.Analysis.Error
import Barista.Analysis.Expression
import Barista.Analysis.Scope
import Barista.Analysis.Statement
import Barista.CommandLine
import Barista.Compile
import Barista.Core.Agree
import Barista.Core.Declared
import Barista.Core.Entity
import Barista.Core.Tree
import Barista.Diagnostic
import Barista.Double
import Barista.Double.Layout
import Barista.Double.Reader
import Barista.Double.Shortest
import Barista.Event
import Barista.Folder
import Barista.Main
import Barista.Operator
import Barista.Optimize.Expression
import Barista.Optimize.Fold
import Barista.Optimize.Statement
import Barista.Script.Expression
import Barista.Script.Line
import Barista.Script.Name
import Barista.Script.Tree
import Barista.Session
import Barista.Shell
import Barista.Span
import Barista.Surface.Error
import Barista.Surface.Expression
import Barista.Surface.Outcome
import Barista.Surface.Statement
import Barista.Surface.Tree
import Barista.Text.Blank
import Barista.Text.FirstByte
import Barista.Text.Letter
import Barista.Text.Lines
import Barista.Text.Quoted
import Barista.Token
import Barista.Token.Lookahead
import Barista.Token.Munch
import Barista.Token.Stream
import Barista.Ty
import Barista.Whole
import Barista.Proofs.Analysis.Outcome
import Barista.Proofs.Scoping.Occurrence
import Barista.Proofs.Analysis.Arena
import Barista.Proofs.Core.Node
import Barista.Proofs.Core.Typing
import Barista.Proofs.Analysis.Soundness
import Barista.Proofs.Analysis.Tracking
import Barista.Proofs.Analysis.Resolution
import Barista.Proofs.Analysis.Numbering
import Barista.Proofs.Optimize.Occurrence
import Barista.Proofs.Optimize.Pruning
import Barista.Proofs.Analysis.LexicalScope
import Barista.Proofs.Script.Naming
import Barista.Proofs.Script.Sketch
import Barista.Proofs.Script.Hoisting
import Barista.Proofs.Script.Visibility
import Barista.Proofs.Script.Generated
import Barista.Proofs.Core.Evaluation
import Barista.Proofs.Optimize.Evaluation
import Barista.Proofs.Core.Rational
import Barista.Proofs.Optimize.Denotation
import Barista.Proofs.Core.Part
import Barista.Proofs.Core.Execution
import Barista.Proofs.Optimize.CallHistory
import Barista.Proofs.Optimize.Execution
import Barista.Proofs.Optimize.Closedness
import Barista.Proofs.Scoping.Thinning
import Barista.Proofs.Script.Capture
import Barista.Proofs.Double.Finite
import Barista.Proofs.Double.Nearest
import Barista.Proofs.Whole.Power
import Barista.Proofs.Optimize.Integer
import Barista.Proofs.Optimize.Idempotence
import Barista.Proofs.Token.Scan
import Barista.Proofs.Token.LineBreak
import Barista.Proofs.Token.Pattern
import Barista.Proofs.Token.Kind
import Barista.Proofs.Token.Longest
import Barista.Proofs.Token.Partition
import Barista.Proofs.Surface.Reading
import Barista.Proofs.Surface.Grammar
import Barista.Proofs.Surface.Soundness
import Barista.Proofs.Surface.Completeness
import Barista.Proofs.Surface.Transport
import Barista.Proofs.Surface.Acceptance
import Barista.Proofs.Surface.Concatenation
import Barista.Proofs.Analysis.Literal
import Barista.Proofs.Script.Composition
import Barista.Proofs.Optimize.Kind
import Barista.Proofs.Script.Separation
import Barista.Proofs.Session.Transcript
import Barista.Proofs.Double.Interval
import Barista.Proofs.Double.Literal
import Barista.Proofs.Text.Quoted
import Barista.Proofs.Script.Form
import Barista.Proofs.Script.Unambiguous
import Barista.Proofs.Token.Writing
import Barista.Proofs.Shell.Balance
import Barista.Proofs.Surface.Prediction
import Barista.Proofs.Surface.Descent
import Barista.Proofs.Surface.EarliestError
import Barista.Proofs.Surface.Nesting
import Barista.Proofs.Token.Fault
import Barista.Proofs.Text.Position
import Barista.Proofs.Analysis.ErrorSpan
import Barista.Proofs.Script.Identifier
import Barista.Proofs.Script.Indentation
import Barista.Proofs.Analysis.Renaming
import Barista.Proofs.Script.FreshName
import Barista.Proofs.Script.Comparison
import Barista.Proofs.Surface.Stopping
import Barista.Proofs.Surface.Workload
import Barista.Proofs.Surface.Progress
import Barista.Proofs.Text.IdentifierClass
import Barista.Proofs.Analysis.DeclaredName
import Barista.Proofs.Script.IdentifierName
import Barista.Proofs.Token.Lookahead
