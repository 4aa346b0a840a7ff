import Valkeyop.Proofs.SingleWriter
import Valkeyop.Proofs.RepairSlots
import Valkeyop.Controller.Reconcile
import Valkeyop.Proofs.OpenSlots
import Valkeyop.Cluster.Fake
import Valkeyop.Controller.Deployment
import Valkeyop.Proofs.ScaleInSafety
import Valkeyop.Proofs.StabilityGate
import Valkeyop.Proofs.Wiring
import Valkeyop.Proofs.FakeScaling
import Valkeyop.Proofs.Convergence
import Valkeyop.Proofs.Formation
import Valkeyop.Proofs.Conditions
import Valkeyop.Proofs.Ownership
import Valkeyop.Proofs.PassCalls
import Valkeyop.Proofs.Generation
import Valkeyop.Proofs.ScaleInProgress
import Valkeyop.Proofs.HandOff
import Valkeyop.Proofs.Healing
import Valkeyop.Proofs.Quiescence
import Valkeyop.Proofs.Storage
import Valkeyop.Proofs.NodeLines
import Valkeyop.Proofs.Interruption
import Valkeyop.Proofs.Readiness
import Valkeyop.Proofs.Recipients
import Valkeyop.Proofs.Attachment
import Valkeyop.Proofs.Teardown
import Valkeyop.Proofs.ScaleOut
import Valkeyop.Proofs.SlotRanges
import Valkeyop.Proofs.Rendering
import Valkeyop.Proofs.ConditionLaws
import Valkeyop.Proofs.FakeSlots
import Valkeyop.Proofs.LiveMove
import Valkeyop.Proofs.MoveSlotsRun
import Valkeyop.Cluster.Printed
import Valkeyop.Proofs.Observation
import Valkeyop.Proofs.RepairRun
import Valkeyop.Proofs.Halfway
import Valkeyop.Proofs.Recovery
import Valkeyop.Lib.Versions
import Valkeyop.Controller.Registry
import Valkeyop.Proofs.UserEdits
import Valkeyop.Proofs.Reclaim
import Valkeyop.Controller.Site
import Valkeyop.Proofs.Refinement
import Valkeyop.Proofs.LiveScaling
import Valkeyop.Proofs.LiveDraining
