import TableScript.Code.Basic
import TableScript.Code.Cells
import TableScript.Code.Compile
import TableScript.CommandLine
import TableScript.Eval.Basic
import TableScript.Eval.Call
import TableScript.Eval.Code
import TableScript.Eval.Loop
import TableScript.Eval.Operator
import TableScript.Eval.Range
import TableScript.Eval.Tree
import TableScript.Main
import TableScript.Number.Parts
import TableScript.Number.Reading
import TableScript.Number.Shortest
import TableScript.Number.Whole
import TableScript.Number.Written
import TableScript.Proofs.Alike
import TableScript.Proofs.Calls
import TableScript.Proofs.Commitment
import TableScript.Proofs.Compiled
import TableScript.Proofs.Completion
import TableScript.Proofs.Composition
import TableScript.Proofs.Coordinates
import TableScript.Proofs.Coupling
import TableScript.Proofs.DepthErrors
import TableScript.Proofs.Derivation
import TableScript.Proofs.Engines
import TableScript.Proofs.Foresight
import TableScript.Proofs.FreshCells
import TableScript.Proofs.Incomplete
import TableScript.Proofs.Invariant
import TableScript.Proofs.KeptLists
import TableScript.Proofs.Layout
import TableScript.Proofs.Limit
import TableScript.Proofs.LineFeed
import TableScript.Proofs.Lookahead
import TableScript.Proofs.LoopSignals
import TableScript.Proofs.Matching
import TableScript.Proofs.Numbering
import TableScript.Proofs.Occurrence
import TableScript.Proofs.Onward
import TableScript.Proofs.OrderedTable
import TableScript.Proofs.Parsed
import TableScript.Proofs.Places
import TableScript.Proofs.Precedence
import TableScript.Proofs.Primitive
import TableScript.Proofs.ReadBack
import TableScript.Proofs.Reading
import TableScript.Proofs.Resumption
import TableScript.Proofs.Segmentation
import TableScript.Proofs.Spelling
import TableScript.Proofs.Uniform
import TableScript.Proofs.WrittenTokens
import TableScript.Proofs.Yield
import TableScript.Session
import TableScript.Store.Basic
import TableScript.Store.Container
import TableScript.Store.Inspect
import TableScript.Store.Scope
import TableScript.Store.Text
import TableScript.Syntax.Complaint
import TableScript.Syntax.Expr
import TableScript.Syntax.Grammar
import TableScript.Syntax.Operator
import TableScript.Syntax.Program
import TableScript.Syntax.Rejection
import TableScript.Syntax.Rule
import TableScript.Text.Blank
import TableScript.Text.CodePoints
import TableScript.Text.Invisible
import TableScript.Text.Letter
import TableScript.Text.Numeral
import TableScript.Text.Quoted
import TableScript.Token.Basic
import TableScript.Token.Error
import TableScript.Token.Lexer
import TableScript.Token.Span
import TableScript.Value.Basic
import TableScript.Value.Fault
import TableScript.Value.Key
import TableScript.Value.Signal
import TableScript.Value.Table
import TableScript.Proofs.Spacing
import TableScript.Proofs.NoNulls
import TableScript.Proofs.Renaming
import TableScript.Proofs.World
import TableScript.Proofs.LaterWorlds
import TableScript.Proofs.Mirror
import TableScript.Proofs.Equivariance
import TableScript.Proofs.Separation
import TableScript.Proofs.Magnitude
import TableScript.Proofs.Rounding
import TableScript.Proofs.ShortestDecimal
import TableScript.Proofs.Numerals
import TableScript.Proofs.DataText
import TableScript.Proofs.DataSyntax
import TableScript.Proofs.DataValue
import TableScript.Proofs.Demand
import TableScript.Proofs.Nesting
import TableScript.Proofs.Formula
import TableScript.Proofs.Recogniser
import TableScript.Proofs.Rewinding
import TableScript.Proofs.JoinedLines
import TableScript.Proofs.Failures
import TableScript.Proofs.NumberLiterals
import TableScript.Proofs.Steps
import TableScript.Proofs.Sums
import TableScript.Proofs.Ranks
import TableScript.Proofs.Keys
import TableScript.Proofs.Iteration
import TableScript.Proofs.Ranges
import TableScript.Proofs.Positions
import TableScript.Proofs.Containers
import TableScript.Proofs.CallScopes
import TableScript.Proofs.Meanings
import TableScript.Proofs.Regrouping
import TableScript.Proofs.Updates
import TableScript.Proofs.TableLiterals
import TableScript.Proofs.Diagnoses
import TableScript.Proofs.ScopeWrites
