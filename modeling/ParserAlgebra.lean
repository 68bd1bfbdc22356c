import ParserAlgebra.Main
import ParserAlgebra.Parser.Operator
import ParserAlgebra.Script.Machine
import ParserAlgebra.Proofs.Ensures
import ParserAlgebra.Proofs.Building
import ParserAlgebra.Proofs.Combinators
import ParserAlgebra.Proofs.Conversions
import ParserAlgebra.Proofs.WellTyped
import ParserAlgebra.Proofs.Steps
import ParserAlgebra.Proofs.Truthful
import ParserAlgebra.Proofs.Choice
import ParserAlgebra.Proofs.Scanning
import ParserAlgebra.Proofs.Entries
import ParserAlgebra.Proofs.Flaws
import ParserAlgebra.Proofs.Grammar
import ParserAlgebra.Proofs.Written
import ParserAlgebra.Proofs.Offending
import ParserAlgebra.Proofs.Progress
import ParserAlgebra.Proofs.Infallible
import ParserAlgebra.Proofs.Agreement
import ParserAlgebra.Proofs.Declarations
import ParserAlgebra.Proofs.Failing
import ParserAlgebra.Proofs.Unions
import ParserAlgebra.Proofs.Tree
import ParserAlgebra.Proofs.Backtracking
import ParserAlgebra.Proofs.SideBySide
import ParserAlgebra.Proofs.Distributing
import ParserAlgebra.Proofs.CursorCalls
import ParserAlgebra.Proofs.Keeping
import ParserAlgebra.Proofs.Confinement
import ParserAlgebra.Proofs.Composed
import ParserAlgebra.Proofs.Onward
import ParserAlgebra.Proofs.Shift
import ParserAlgebra.Proofs.Shifting
import ParserAlgebra.Proofs.Finishing
import ParserAlgebra.Proofs.Observed
import ParserAlgebra.Proofs.Sequencing
import ParserAlgebra.Proofs.Alternation
import ParserAlgebra.Proofs.InStep
import ParserAlgebra.Proofs.Valued
import ParserAlgebra.Proofs.Naturality
import ParserAlgebra.Proofs.Unchecked
import ParserAlgebra.Proofs.Lossless
import ParserAlgebra.Proofs.Unrolled
import ParserAlgebra.Proofs.Equality
import ParserAlgebra.Proofs.Hashing
import ParserAlgebra.Proofs.Courses
import ParserAlgebra.Proofs.Exceptions
import ParserAlgebra.Proofs.Grouping
import ParserAlgebra.Proofs.Refusals
import ParserAlgebra.Proofs.Words
import ParserAlgebra.Proofs.Following
import ParserAlgebra.Proofs.Tracing
import ParserAlgebra.Proofs.Lines
import ParserAlgebra.Proofs.Caret
import ParserAlgebra.Proofs.Nested
import ParserAlgebra.Proofs.Signs
import ParserAlgebra.Proofs.Contents
import ParserAlgebra.Proofs.Primitives
import ParserAlgebra.Proofs.Pieces
