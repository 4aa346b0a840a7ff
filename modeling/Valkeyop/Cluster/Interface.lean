import Mathlib.Data.List.AList
import Valkeyop.Cluster.Types

/-!
# What the controller asks of a cluster

The `ClusterAdmin` interface of `internal/cluster/admin.go`, one constructor per
method. Which cluster answers is left open: the in-memory `Fake`, or Valkey
servers behind `go-redis`.
-/

namespace Valkeyop.Cluster

/-- The errors the controller tells apart. -/
inductive Reason where
  | notFound
  | conflict
  | other
deriving DecidableEq, Repr

structure Err where
  reason : Reason
  text : String
deriving DecidableEq, Repr

/-- `fmt.Errorf("<context>: %w", err)`: the reason shows through. -/
def Err.wrap (context : String) (e : Err) : Err :=
  { e with text := context ++ ": " ++ e.text }

structure RebalanceOpts where
  useEmptyMasters : Bool := false
  weightZeroIDs : List String := []
deriving DecidableEq, Repr

inductive AdminCall where
  | state (seed : Endpoint)
  | myID (ep : Endpoint)
  | meet (source target : Endpoint)
  | addSlots (primary : Endpoint) (ranges : List SlotRange)
  | replicate (replica : Endpoint) (primaryID : String)
  | forget (source : Endpoint) (nodeID : String)
  | failover (replica : Endpoint)
  | rebalance (seed : Endpoint) (opts : RebalanceOpts)
  | reshard (seed : Endpoint) (fromNodeID toNodeID : String) (n : Int)
  | moveSlots (seed : Endpoint) (fromNodeID toNodeID : String) (n : Int)
  | fix (seed : Endpoint)
  | repairSlots (seed : Endpoint)

/-- The two slot movers report how far they got next to their error. -/
@[reducible] def AdminCall.Reply : AdminCall → Type
  | .state _ => Except Err ClusterState
  | .myID _ => Except Err String
  | .moveSlots .. | .repairSlots _ => Int × Option Err
  | .meet .. | .addSlots .. | .replicate .. | .forget .. | .failover _ | .rebalance ..
  | .reshard .. | .fix _ => Except Err Unit

/-- The commands that change a cluster. -/
def AdminCall.Changes : AdminCall → Prop
  | .state _ | .myID _ => False
  | _ => True

/-- A Go map from node IDs or hosts to node records. -/
abbrev NodeMap := AList fun _ : String => NodeInfo

/-- Indexing a Go map: the zero value for a key that is not there. -/
def NodeMap.get (m : NodeMap) (key : String) : NodeInfo := (m.lookup key).getD .zero

end Valkeyop.Cluster
