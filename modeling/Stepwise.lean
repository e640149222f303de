import Stepwise.Text.Blank
import Stepwise.Text.Lines
import Stepwise.Text.Quoted
import Stepwise.Number.Shortest
import Stepwise.Number.Layout
import Stepwise.Number.Reading
import Stepwise.Number.Remainder
import Stepwise.Token.Lexer
import Stepwise.Tree.Parser
import Stepwise.Fault
import Stepwise.Value
import Stepwise.Heap.Equality
import Stepwise.Scope
import Stepwise.Interrupt
import Stepwise.Text.Case
import Stepwise.Text.Search
import Stepwise.State
import Stepwise.Operation.Sequence
import Stepwise.Operation.Effect
import Stepwise.Program
import Stepwise.Proofs.Steps
import Stepwise.Proofs.Faults
import Stepwise.Proofs.Plans
import Stepwise.Proofs.Resuming
import Stepwise.Proofs.Evaluator
import Stepwise.Proofs.Running
import Stepwise.Proofs.Constructs
import Stepwise.Proofs.Refinement
import Stepwise.Proofs.Holding
import Stepwise.Proofs.Ownership
import Stepwise.Proofs.Readers
import Stepwise.Proofs.Grammar
import Stepwise.Proofs.Unwinding
import Stepwise.Proofs.WellFormed
import Stepwise.Proofs.Storage
import Stepwise.Proofs.Effects
import Stepwise.Proofs.Preservation
import Stepwise.Proofs.Safety
import Stepwise.Proofs.Catching
import Stepwise.Proofs.Identity
import Stepwise.Proofs.Bisimilarity
import Stepwise.Proofs.Rendering
import Stepwise.Proofs.Relabelling
import Stepwise.Proofs.References
import Stepwise.Proofs.Regular
import Stepwise.Proofs.Negation
import Stepwise.Proofs.Printing
import Stepwise.Proofs.RoundTrip
import Stepwise.Proofs.StackBound
import Stepwise.Proofs.Spelling
import Stepwise.Proofs.Partition
import Stepwise.Proofs.Writing
import Stepwise.Proofs.Driving
import Stepwise.Proofs.Lines
import Stepwise.Proofs.Located
import Stepwise.Proofs.Blame
import Stepwise.Proofs.Footprint
import Stepwise.Proofs.Refitting
import Stepwise.Proofs.Limits
import Stepwise.Proofs.Loops
import Stepwise.Proofs.Termination
import Stepwise.Proofs.Locality
import Stepwise.Proofs.Precedence
import Stepwise.Proofs.CallForms
import Stepwise.Proofs.Branching
import Stepwise.Proofs.ElseChains
import Stepwise.Proofs.Exactness
import Stepwise.Proofs.Paths
import Stepwise.Proofs.Ranges
import Stepwise.Proofs.Indexing
import Stepwise.Proofs.Slices
import Stepwise.Proofs.Searching
import Stepwise.Proofs.Numerals
import Stepwise.Proofs.InsertionOrder
import Stepwise.Proofs.Truncation
import Stepwise.Proofs.Refusals
import Stepwise.Proofs.Progress
import Stepwise.Proofs.Numbering
import Stepwise.Proofs.Closure
import Stepwise.Proofs.Conveyance
import Stepwise.Proofs.Provenance
