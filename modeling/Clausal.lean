import Clausal.Blank
import Clausal.CaseTables
import Clausal.Catalog
import Clausal.CodeRanges
import Clausal.Construction
import Clausal.Dependents
import Clausal.Diagnostic
import Clausal.Document
import Clausal.Failure
import Clausal.Frame
import Clausal.HornRule
import Clausal.Inputs
import Clausal.Inspection
import Clausal.Instantiation
import Clausal.Ledger
import Clausal.Lowercase
import Clausal.Matching
import Clausal.Plan
import Clausal.Policy
import Clausal.Position
import Clausal.PrintTables
import Clausal.Proof
import Clausal.Prover
import Clausal.Quoted
import Clausal.Relocation
import Clausal.Search
import Clausal.Selection
import Clausal.Term
import Clausal.TermOrder
import Clausal.Variable
import Clausal.Proofs.Affected
import Clausal.Proofs.Alignment
import Clausal.Proofs.Ambiguity
import Clausal.Proofs.Answering
import Clausal.Proofs.Assignments
import Clausal.Proofs.Attempts
import Clausal.Proofs.Backing
import Clausal.Proofs.Blurring
import Clausal.Proofs.Building
import Clausal.Proofs.CallOrder
import Clausal.Proofs.CallTree
import Clausal.Proofs.Calls
import Clausal.Proofs.Candidates
import Clausal.Proofs.Causes
import Clausal.Proofs.Chains
import Clausal.Proofs.Closing
import Clausal.Proofs.Containment
import Clausal.Proofs.Course
import Clausal.Proofs.Cutting
import Clausal.Proofs.DepthReports
import Clausal.Proofs.Ending
import Clausal.Proofs.FirstMismatch
import Clausal.Proofs.Following
import Clausal.Proofs.Groundness
import Clausal.Proofs.Grounds
import Clausal.Proofs.Height
import Clausal.Proofs.Hindrances
import Clausal.Proofs.Instances
import Clausal.Proofs.Invariance
import Clausal.Proofs.Justification
import Clausal.Proofs.Knots
import Clausal.Proofs.Lingering
import Clausal.Proofs.Lowlinks
import Clausal.Proofs.Making
import Clausal.Proofs.Marking
import Clausal.Proofs.Mirroring
import Clausal.Proofs.Moves
import Clausal.Proofs.Occurrences
import Clausal.Proofs.Overriding
import Clausal.Proofs.Placement
import Clausal.Proofs.PlainChoice
import Clausal.Proofs.PlainRecursion
import Clausal.Proofs.Popping
import Clausal.Proofs.ProofGraph
import Clausal.Proofs.ProofNodes
import Clausal.Proofs.Rechaining
import Clausal.Proofs.Refinement
import Clausal.Proofs.Registration
import Clausal.Proofs.Renaming
import Clausal.Proofs.Reordering
import Clausal.Proofs.Retractions
import Clausal.Proofs.Rivals
import Clausal.Proofs.Session
import Clausal.Proofs.Soundness
import Clausal.Proofs.Specificity
import Clausal.Proofs.Spreading
import Clausal.Proofs.Stability
import Clausal.Proofs.StackGoals
import Clausal.Proofs.Standing
import Clausal.Proofs.StrictCycles
import Clausal.Proofs.Surviving
import Clausal.Proofs.Termination
import Clausal.Proofs.Tidiness
import Clausal.Proofs.Unchained
import Clausal.Proofs.VariableOrder
import Clausal.Proofs.Verdicts
