import MarkovCheck.StateSet.Lemmas
import MarkovCheck.Session.Registers
import MarkovCheck.Session.Workbench
import MarkovCheck.Session.Run
import MarkovCheck.Main
import MarkovCheck.Proofs.Reachability.System
import MarkovCheck.Proofs.Formula.Allowance
import MarkovCheck.Proofs.Formula.Content
import MarkovCheck.Proofs.Formula.Remembering
import MarkovCheck.Proofs.Chain.Changes
import MarkovCheck.Proofs.Session.Changes
import MarkovCheck.Proofs.Session.Transparency
import MarkovCheck.Proofs.Rational
import MarkovCheck.Proofs.StateSet.Members
import MarkovCheck.Proofs.Chain.WellFormed
import MarkovCheck.Proofs.Chain.Search
import MarkovCheck.Proofs.Matrix.Elimination
import MarkovCheck.Proofs.Reachability.MaximumPrinciple
import MarkovCheck.Proofs.Reachability.LeastSolution
import MarkovCheck.Proofs.Reachability.PathWeight
import MarkovCheck.Proofs.Formula.Semantics
import MarkovCheck.Proofs.Decimal.Rounding
import MarkovCheck.Proofs.Decimal.Numerals
import MarkovCheck.Proofs.Interval
import MarkovCheck.Proofs.Formula.Grammar
import MarkovCheck.Proofs.Formula.Lexing
import MarkovCheck.Proofs.Formula.RoundTrip
import MarkovCheck.Proofs.Matrix.Power
import MarkovCheck.Proofs.Reachability.Convergence
import MarkovCheck.Proofs.Reachability.Forward
import MarkovCheck.StateSet.Cursor
import MarkovCheck.Proofs.StateSet.Listing
import MarkovCheck.Proofs.StateSet.Refinement
import MarkovCheck.Proofs.Session.Store
import MarkovCheck.Proofs.Formula.Tracing
import MarkovCheck.Proofs.Session.Writes
import MarkovCheck.Proofs.Reachability.Safety
import MarkovCheck.Proofs.Formula.Safety
import MarkovCheck.Proofs.Session.Safety
import MarkovCheck.Proofs.Reachability.Settled
import MarkovCheck.Proofs.Reachability.AlmostSure
import MarkovCheck.Proofs.Reachability.Accuracy
import MarkovCheck.Chain.Worklist
import MarkovCheck.Proofs.Chain.Walks
import MarkovCheck.Proofs.Chain.Components
import MarkovCheck.Proofs.Chain.Levels
import MarkovCheck.Proofs.Chain.Period
import MarkovCheck.Proofs.Chain.Ergodic
import MarkovCheck.Proofs.Reachability.Monotonicity
import MarkovCheck.Matrix.InPlace
import MarkovCheck.Proofs.Matrix.InPlace
import MarkovCheck.Proofs.Reachability.Stopping
import MarkovCheck.Proofs.Chain.Conservation
import MarkovCheck.Proofs.Formula.Sharing
import MarkovCheck.Proofs.Session.Sharing
import MarkovCheck.Formula.ByteLexer
import MarkovCheck.Proofs.Formula.Splitting
import MarkovCheck.Proofs.Formula.Complaints
import MarkovCheck.Proofs.Formula.Spacing
import MarkovCheck.Proofs.Formula.Bytes
import MarkovCheck.Proofs.Formula.Positions
import MarkovCheck.Proofs.Chain.Drawing
import MarkovCheck.Proofs.Session.Keys
