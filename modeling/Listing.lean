import Listing.Request.Wire
import Listing.Schema.Check
import Listing.Settings
import Listing.Recording
import Listing.Proofs.Scripts
import Listing.Proofs.Assembly
import Listing.Proofs.Drafting
import Listing.Proofs.Recorders
import Listing.Proofs.Simulation
import Listing.Proofs.Database
import Listing.Proofs.Existence
import Listing.Proofs.Steps
import Listing.Proofs.Clauses
import Listing.Proofs.Correlation
import Listing.Proofs.Places
import Listing.Proofs.Leaves
import Listing.Proofs.Readings
import Listing.Proofs.Operators
import Listing.Proofs.Runs
import Listing.Proofs.Routing
import Listing.Proofs.Meaning
import Listing.Proofs.Grammar
import Listing.Proofs.Nesting
import Listing.Proofs.NormalForm
import Listing.Proofs.Rendering
import Listing.Proofs.Counting
import Listing.Proofs.Failures
import Listing.Proofs.Chains
import Listing.Proofs.Blank
import Listing.Proofs.Values
import Listing.Proofs.Answers
import Listing.Proofs.Windows
import Listing.Proofs.Totals
import Listing.Proofs.Segments
import Listing.Proofs.Walks
import Listing.Proofs.Standing
import Listing.Proofs.Loading
import Listing.Proofs.Orders
import Listing.Proofs.Qualified
import Listing.Proofs.Loads
import Listing.Proofs.Narrowing
import Listing.Proofs.Interleaving
import Listing.Proofs.Replay
import Listing.Proofs.Independence
import Listing.Proofs.JsonTexts
import Listing.Proofs.Wire
import Listing.Proofs.Checks
import Listing.Proofs.Inclusions
import Listing.Proofs.Keyed
import Listing.Proofs.Patterns
import Listing.Proofs.Fields
import Listing.Proofs.Membership
import Listing.Proofs.Literals
import Listing.Proofs.Paths
import Listing.Proofs.Hops
import Listing.Proofs.Reports
import Listing.Proofs.Scopes
import Listing.Proofs.CamelCase
import Listing.Proofs.EmptySegments
import Listing.Proofs.WhereClauses
