import Mathlib.Data.Int.Order.Basic

/-!
# The `ValkeyCluster` resource

`api/v1alpha1/valkeycluster_types.go`, with the metadata the controller reads.
The two counts of the topology are natural numbers, as the CRD admits them; the
settings that are only rendered may be any number. Texts that are only copied into
other objects (the image, the storage class, the storage request) are left out.
-/

namespace Valkeyop.Api

/-! ## Spec -/

inductive AppendFsync where
  | always
  | everysec
  | no
deriving DecidableEq, Repr

inductive PersistenceMode where
  | aof
  | rdb
  | aofAndRDB
  | none
deriving DecidableEq, Repr

structure PersistenceSpec where
  mode : Option PersistenceMode := none
  appendFsync : Option AppendFsync := none
deriving DecidableEq, Repr

structure HAPolicy where
  minReplicasToWrite : Int := 0
  requireFullCoverage : Option Bool := none
  clusterNodeTimeoutMillis : Int := 0
deriving DecidableEq, Repr

inductive MaxmemoryPolicy where
  | noeviction
  | allkeysLRU
  | allkeysLFU
  | allkeysRandom
  | volatileLRU
  | volatileLFU
  | volatileRandom
  | volatileTTL
deriving DecidableEq, Repr

structure PerformanceSpec where
  ioThreads : Int := 0
  maxmemoryPolicy : Option MaxmemoryPolicy := none
deriving DecidableEq, Repr

/-- `resource.Quantity`: a number of units, exact to a billionth. -/
structure Quantity where
  nanos : Int
deriving DecidableEq, Repr

def Quantity.isZero (q : Quantity) : Bool := q.nanos == 0

/-- The units, rounded away from zero. -/
def Quantity.value (q : Quantity) : Int :=
  q.nanos.sign * (((q.nanos.natAbs + 999999999) / 1000000000 : Nat) : Int)

/-- An unset field of an enumeration is `none`; `memoryLimit` is the memory
entry of `resources.limits`, in bytes. -/
structure ValkeyClusterSpec where
  shards : Nat
  replicasPerShard : Nat
  memoryLimit : Option Quantity := none
  persistence : PersistenceSpec := {}
  performance : PerformanceSpec := {}
  haPolicy : HAPolicy := {}
deriving DecidableEq, Repr

/-- What the CRD admits of the topology: one shard, or enough for a failover
quorum, and at most five replicas. -/
def ValkeyClusterSpec.Admitted (s : ValkeyClusterSpec) : Prop :=
  (s.shards = 1 ∨ 3 ≤ s.shards) ∧ s.shards ≤ 16 ∧ s.replicasPerShard ≤ 5

instance (s : ValkeyClusterSpec) : Decidable s.Admitted :=
  inferInstanceAs (Decidable (_ ∧ _))

/-! ## Status -/

inductive ValkeyClusterPhase where
  | pending
  | provisioning
  | forming
  | ready
  | resharding
  | scalingReplicas
  | degraded
  | failed
deriving DecidableEq, Repr

inductive ConditionStatus where
  | true
  | false
  | unknown
deriving DecidableEq, Repr

def conditionAvailable : String := "Available"
def conditionProgressing : String := "Progressing"
def conditionDegraded : String := "Degraded"

/-- `metav1.Condition`; times are seconds. -/
structure Condition where
  type : String
  status : ConditionStatus
  reason : String
  message : String
  observedGeneration : Nat
  lastTransitionTime : Nat
deriving DecidableEq, Repr

structure ShardStatus where
  index : Nat
  primaryPod : String := ""
  primaryNodeID : String := ""
  slots : String := ""
  readyReplicas : Nat := 0
  nodeIDs : List String := []
deriving DecidableEq, Repr

/-- An empty phase, before the first write, is `none`. -/
structure ValkeyClusterStatus where
  phase : Option ValkeyClusterPhase := none
  observedGeneration : Nat := 0
  readyShards : Nat := 0
  shards : List ShardStatus := []
  conditions : List Condition := []
deriving DecidableEq, Repr

/-! ## The resource -/

structure ValkeyCluster where
  name : String
  nspace : String
  generation : Nat := 1
  resourceVersion : Nat := 1
  deletionTimestamp : Option Nat := none
  finalizers : List String := []
  spec : ValkeyClusterSpec
  status : ValkeyClusterStatus := {}
deriving DecidableEq, Repr

end Valkeyop.Api
