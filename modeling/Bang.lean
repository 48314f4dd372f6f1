import Bang.Proofs.Simulation
import Bang.Service.Compile
import Bang.Proofs.Limits
import Bang.Proofs.Token.Dialects
import Bang.Proofs.Dialects
import Bang.Proofs.Watch
import Bang.Proofs.Typing
import Bang.Proofs.Usage
import Bang.Proofs.Leftover
import Bang.Proofs.Replay
import Bang.Proofs.Isolation
import Bang.Proofs.Alike
import Bang.Proofs.Branching
import Bang.Proofs.Formula.Lexing
import Bang.Proofs.Formula.Spelling
import Bang.Proofs.Formula.Quoted
import Bang.Proofs.Segments
import Bang.Proofs.Chain
import Bang.Proofs.Formula.Chain
import Bang.Proofs.Expression
import Bang.Proofs.Strings
import Bang.Proofs.Token.Scan
import Bang.Proofs.Text.Digit
import Bang.Proofs.Token.Pieces
import Bang.Proofs.Token.Shape
import Bang.Proofs.Token.Minified
import Bang.Proofs.Calls
import Bang.Proofs.Text.Numeral
import Bang.Proofs.Guard
import Bang.Proofs.Faults
import Bang.Proofs.Uncaught
import Bang.Proofs.Token.Lossless
import Bang.Proofs.Arity
import Bang.Proofs.Framing
import Bang.Proofs.Token.Breaks
import Bang.Proofs.Renumber.Functions
import Bang.Proofs.Comments
import Bang.Proofs.Lines
import Bang.Proofs.Contract
import Bang.Proofs.Targets
import Bang.Proofs.Cuts
import Bang.Proofs.Counting
import Bang.Proofs.Token.Places
import Bang.Proofs.Token.Stuck
import Bang.Proofs.Formula.Numeral
import Bang.Proofs.Literals
import Bang.Proofs.Token.Agreement
import Bang.Proofs.Trimming
import Bang.Proofs.Scopes
import Bang.Proofs.Course
import Bang.Proofs.Warnings
import Bang.Proofs.Declarations
import Bang.Proofs.Refusals
import Bang.Proofs.Arguments
import Bang.Proofs.FunctionWarnings
import Bang.Proofs.Bracketing
import Bang.Proofs.Descent
import Bang.Proofs.Growth
