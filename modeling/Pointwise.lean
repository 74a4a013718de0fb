import Pointwise.Proofs.Dispatch.Balance
import Pointwise.Proofs.Domain.Replanning
import Pointwise.Proofs.Kernel.DataPointers
import Pointwise.Proofs.Kernel.Reuse
import Pointwise.Proofs.Offset.Address
import Pointwise.Proofs.Program.Acceptance
import Pointwise.Proofs.Program.Pressure
import Pointwise.Proofs.Region.Course.Visits
import Pointwise.Proofs.Region.Effect
import Pointwise.Proofs.Region.Levels
import Pointwise.Proofs.Region.Lowered
import Pointwise.Proofs.Shape.Alignment
import Pointwise.Proofs.Subgraph.AllOrNothing
import Pointwise.Proofs.Subgraph.Bounds
import Pointwise.Proofs.Subgraph.Convention
import Pointwise.Proofs.Subgraph.Fallback
import Pointwise.Proofs.Subgraph.Faultless
import Pointwise.Proofs.Subgraph.InPlace
import Pointwise.Proofs.Subgraph.Preparation
import Pointwise.Proofs.Subgraph.Reference
