import Bella.Main
import Bella.Session
import Bella.Proofs.Grammar.Derivation
import Bella.Proofs.Grammar.Unambiguity
import Bella.Proofs.Grammar.Completion
import Bella.Proofs.Grammar.Pending
import Bella.Proofs.Grammar.Ending
import Bella.Proofs.Grammar.Continuation
import Bella.Proofs.Grammar.Viability
import Bella.Proofs.Grammar.Acceptance
import Bella.Proofs.Grammar.Numeral
import Bella.Proofs.Grammar.Spelling
import Bella.Proofs.Grammar.Scanning
import Bella.Proofs.Grammar.Gap
import Bella.Proofs.Grammar.Reading
import Bella.Proofs.Grammar.Lookahead
import Bella.Proofs.Grammar.Passage
import Bella.Proofs.Grammar.Joining
import Bella.Proofs.Grammar.Rejection
import Bella.Proofs.Guards
import Bella.Proofs.Outcome
import Bella.Proofs.Rules.Judgement
import Bella.Proofs.Rules.Primitive
import Bella.Proofs.Rules.Faults
import Bella.Proofs.Rules.Soundness
import Bella.Proofs.Rules.Parameters
import Bella.Proofs.Rules.Completeness
import Bella.Proofs.Rules.Realisation
import Bella.Proofs.Rules.Budgets
import Bella.Proofs.Shape
import Bella.Proofs.Safety
import Bella.Proofs.Grammar.Language
import Bella.Proofs.Programs
import Bella.Proofs.Alike
import Bella.Proofs.Names
import Bella.Proofs.Correspondence
import Bella.Proofs.Locality
import Bella.Proofs.LexicalScope
import Bella.Proofs.Store
import Bella.Proofs.StraightLine
import Bella.Proofs.Success
import Bella.Proofs.Sequence
import Bella.Proofs.Hoisting
import Bella.Proofs.Exchange.Relation
import Bella.Proofs.Exchange.Values
import Bella.Proofs.Exchange.Evaluation
import Bella.Proofs.Exchange.Programs
import Bella.Proofs.Exact
import Bella.Proofs.Grammar.Literal
import Bella.Proofs.Grammar.SourceTree
import Bella.Proofs.Grammar.Writing
import Bella.Proofs.Codec.Schema
import Bella.Proofs.Codec.RoundTrip
import Bella.Proofs.Codec.Acceptance
import Bella.Proofs.Origin.Activity
import Bella.Proofs.Origin.Functions
import Bella.Proofs.Origin.Events
import Bella.Proofs.Decimal.Interval
import Bella.Proofs.Decimal.Shortest
import Bella.Proofs.Decimal.Written
import Bella.Proofs.Document.Reading
import Bella.Proofs.Document.Programs
import Bella.Proofs.Command.Arguments
import Bella.Proofs.Command.Directory
import Bella.Proofs.Command.Path
import Bella.Proofs.Command.Emission
import Bella.Proofs.Trace.Levels
import Bella.Proofs.Trace.Writing
import Bella.Proofs.Trace.Overflow
import Bella.Proofs.Trace.Uses
import Bella.Proofs.Trace.Completions
import Bella.Proofs.Trace.Replay
import Bella.Proofs.Grammar.SourceNames
import Bella.Proofs.Command.Reporting
import Bella.Proofs.Arithmetic.Rational
import Bella.Proofs.Arithmetic.Remainder
import Bella.Proofs.Arithmetic.Power
import Bella.Proofs.Decimal.Fewest
import Bella.Proofs.Decimal.Printed
import Bella.Proofs.Printing
import Bella.Proofs.Calls.Order
import Bella.Proofs.Calls.Ending
import Bella.Proofs.Arithmetic.Nearest
import Bella.Proofs.Literals
