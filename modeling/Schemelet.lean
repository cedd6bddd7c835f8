import Schemelet.CommandLine.Argument
import Schemelet.CommandLine.Options
import Schemelet.CommandLine.Run
import Schemelet.Error
import Schemelet.Evaluation.Basic
import Schemelet.Evaluation.Error
import Schemelet.Evaluation.Form
import Schemelet.Evaluation.Step
import Schemelet.File.Path
import Schemelet.File.Tree
import Schemelet.Limit
import Schemelet.Main
import Schemelet.Number.Basic
import Schemelet.Number.Decimal
import Schemelet.Number.Literal
import Schemelet.Number.Printer
import Schemelet.Primitive.Run
import Schemelet.Reader.Cursor
import Schemelet.Reader.Expression
import Schemelet.Session
import Schemelet.Settings
import Schemelet.Store.Basic
import Schemelet.Store.Update
import Schemelet.Text.Basic
import Schemelet.Text.Printable
import Schemelet.Text.Quoted
import Schemelet.Text.Utf8
import Schemelet.Token
import Schemelet.Value.Basic
import Schemelet.Value.Equality
import Schemelet.Value.Printer
import Schemelet.Proofs.Evaluation.Computation
import Schemelet.Proofs.Evaluation.Demand
import Schemelet.Proofs.Evaluation.Run
import Schemelet.Proofs.Evaluation.Transition
import Schemelet.Proofs.Evaluation.Agreement
import Schemelet.Proofs.Evaluation.OwnFrame
import Schemelet.Proofs.Session.Calls
import Schemelet.Proofs.Reader.Grammar
import Schemelet.Proofs.Reader.Recursion
import Schemelet.Proofs.Reader.Acceptance
import Schemelet.Proofs.Number.Literal
import Schemelet.Proofs.Number.Rounding
import Schemelet.Proofs.Number.Readback
import Schemelet.Proofs.Reader.Lexing
import Schemelet.Proofs.Reader.Tokenization
import Schemelet.Proofs.Reader.Counting
import Schemelet.Proofs.Reader.Ending
import Schemelet.Proofs.Text.Lines
import Schemelet.Proofs.Value.Printer
import Schemelet.Proofs.Value.Readback
import Schemelet.Proofs.Value.Equality
import Schemelet.Proofs.Value.Renaming
import Schemelet.Proofs.Store.Copy
import Schemelet.Proofs.Evaluation.Copy
import Schemelet.Proofs.Session.Repetition
import Schemelet.Proofs.Reader.Continuation
import Schemelet.Proofs.Evaluation.Raising
import Schemelet.Proofs.Reader.Raising
import Schemelet.Proofs.Session.Raising
import Schemelet.Proofs.Session.ReadLoop
import Schemelet.Proofs.Evaluation.Nesting
import Schemelet.Proofs.Evaluation.Fault
import Schemelet.Proofs.Evaluation.Invariant
import Schemelet.Proofs.Reader.Tree
import Schemelet.Proofs.Session.Expressions
import Schemelet.Proofs.Session.FrameGraph
import Schemelet.Proofs.Evaluation.Unmentioned
import Schemelet.Proofs.Session.SourceText
import Schemelet.Proofs.Reader.Concatenation
import Schemelet.Proofs.Session.Concatenation
import Schemelet.Proofs.Reader.Levels
import Schemelet.Proofs.Session.InTurn
import Schemelet.Proofs.Evaluation.Trail
import Schemelet.Proofs.Evaluation.ClosureFree
import Schemelet.Proofs.Session.LambdaFree
import Schemelet.Proofs.Number.Grammar
import Schemelet.Proofs.Number.Nearest
import Schemelet.Proofs.Reader.Classification
import Schemelet.Proofs.Evaluation.WellShaped
import Schemelet.Proofs.Evaluation.Flattening
import Schemelet.Proofs.Session.Application
import Schemelet.Proofs.Number.Shortest
import Schemelet.Proofs.Reader.PrintedNumber
import Schemelet.Proofs.Value.PrintedAlike
import Schemelet.Proofs.Text.Utf8
import Schemelet.Proofs.Session.Layout
import Schemelet.Proofs.Store.Rewriting
import Schemelet.Proofs.Store.History
import Schemelet.Proofs.Evaluation.Bounded
import Schemelet.Proofs.Evaluation.ListLoop
import Schemelet.Proofs.Value.Chain
import Schemelet.Proofs.CommandLine.FirstFailure
