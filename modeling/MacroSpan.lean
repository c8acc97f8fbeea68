import MacroSpan.Position
import MacroSpan.Position.Listing
import MacroSpan.Location
import MacroSpan.ExpansionTable
import MacroSpan.Expansion
import MacroSpan.Matching
import MacroSpan.Relocation
import MacroSpan.Grouping
import MacroSpan.TableStore
import MacroSpan.Workspace
import MacroSpan.Proofs.Chain
import MacroSpan.Proofs.Resolution
import MacroSpan.Proofs.Failure
import MacroSpan.Proofs.Verdict
import MacroSpan.Proofs.Lineage
import MacroSpan.Proofs.Script
import MacroSpan.Proofs.Settled
import MacroSpan.Proofs.Framing
import MacroSpan.Proofs.Renumbering
import MacroSpan.Proofs.OrderedRegistration
import MacroSpan.Proofs.Locality
import MacroSpan.Proofs.Registration
import MacroSpan.Proofs.Alignment
import MacroSpan.Proofs.Hull
import MacroSpan.Proofs.Concatenation
import MacroSpan.Proofs.Subsumption
import MacroSpan.Proofs.Selection
import MacroSpan.Proofs.Budget
import MacroSpan.Proofs.Containment
