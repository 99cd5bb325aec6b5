import Reckoner.Binary64.Arithmetic
import Reckoner.Binary64.Basic
import Reckoner.Binary64.Rounding
import Reckoner.CommandLine.Arguments
import Reckoner.CommandLine.Program
import Reckoner.CommandLine.Usage
import Reckoner.Decimal.Basic
import Reckoner.Decimal.Layout
import Reckoner.Decimal.Numeral
import Reckoner.Decimal.Reading
import Reckoner.Decimal.Selection
import Reckoner.Infix.Conversion
import Reckoner.Infix.Marking
import Reckoner.Log.Event
import Reckoner.Log.Level
import Reckoner.Log.Logger
import Reckoner.Main
import Reckoner.Nearest
import Reckoner.Operator.Operation
import Reckoner.Operator.Table
import Reckoner.Outcome.Assignment
import Reckoner.Outcome.Basic
import Reckoner.Outcome.Fields
import Reckoner.Postfix.Evaluation
import Reckoner.Powers
import Reckoner.Proofs.Binary64.Between
import Reckoner.Proofs.Binary64.Correct
import Reckoner.Proofs.Binary64.Division
import Reckoner.Proofs.Binary64.Places
import Reckoner.Proofs.Binary64.Representable
import Reckoner.Proofs.Binary64.Whole
import Reckoner.Proofs.CommandLine.Expressions
import Reckoner.Proofs.CommandLine.Lines
import Reckoner.Proofs.CommandLine.Requests
import Reckoner.Proofs.CommandLine.Runs
import Reckoner.Proofs.CommandLine.Transcripts
import Reckoner.Proofs.Decimal.Characters
import Reckoner.Proofs.Decimal.Faithful
import Reckoner.Proofs.Decimal.General
import Reckoner.Proofs.Decimal.Grid
import Reckoner.Proofs.Decimal.Rounded
import Reckoner.Proofs.Decimal.Shortest
import Reckoner.Proofs.Decimal.Significant
import Reckoner.Proofs.Decimal.Value
import Reckoner.Proofs.Decimal.Written
import Reckoner.Proofs.Infix.Adjacency
import Reckoner.Proofs.Infix.Contexts
import Reckoner.Proofs.Infix.Emission
import Reckoner.Proofs.Infix.Grammar
import Reckoner.Proofs.Infix.Grouping
import Reckoner.Proofs.Infix.Groups
import Reckoner.Proofs.Infix.Kinds
import Reckoner.Proofs.Infix.Levels
import Reckoner.Proofs.Infix.Moves
import Reckoner.Proofs.Infix.Precedence
import Reckoner.Proofs.Infix.Ranking
import Reckoner.Proofs.Infix.Rearrangement
import Reckoner.Proofs.Infix.Refusals
import Reckoner.Proofs.Infix.Release
import Reckoner.Proofs.Infix.Responses
import Reckoner.Proofs.Infix.Segments
import Reckoner.Proofs.Infix.Stacking
import Reckoner.Proofs.Infix.Tokens
import Reckoner.Proofs.Infix.Written
import Reckoner.Proofs.Log.Settings
import Reckoner.Proofs.Nearest
import Reckoner.Proofs.Outcome.Acceptance
import Reckoner.Proofs.Outcome.Blanks
import Reckoner.Proofs.Outcome.Composition
import Reckoner.Proofs.Outcome.Failures
import Reckoner.Proofs.Outcome.Faults
import Reckoner.Proofs.Outcome.LeftToRight
import Reckoner.Proofs.Outcome.Messages
import Reckoner.Proofs.Outcome.Records
import Reckoner.Proofs.Outcome.Soundness
import Reckoner.Proofs.Outcome.Streams
import Reckoner.Proofs.Outcome.Totality
import Reckoner.Proofs.Outcome.WholeNumbers
import Reckoner.Proofs.Postfix.Holding
import Reckoner.Proofs.Postfix.Leftovers
import Reckoner.Proofs.Postfix.Literals
import Reckoner.Proofs.Postfix.Parts
import Reckoner.Proofs.Postfix.Reduction
import Reckoner.Proofs.Results
import Reckoner.Proofs.Session.Calls
import Reckoner.Proofs.Stack.Matching
import Reckoner.Proofs.Text.Lines
import Reckoner.Session
import Reckoner.Stack.Basic
import Reckoner.Stack.Run
import Reckoner.Text.Blank
import Reckoner.Text.CodePoints
import Reckoner.Text.DecimalDigit
import Reckoner.Text.Printable
import Reckoner.Text.Quoted
import Reckoner.Text.Word
