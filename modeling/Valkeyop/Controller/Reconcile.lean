import Valkeyop.Controller.Scaling

/-!
# The reconcile pass

`reconcile.go` and `valkeycluster_controller.go`: make sure of the Kubernetes
objects, wait for the pods, then observe, decide, act and publish.
-/

namespace Valkeyop.Controller

open Valkeyop.Lib Valkeyop.Cluster Valkeyop.Api Valkeyop.Resources Valkeyop.Topology

/-! ## Forming -/

/-- Meet everyone, give each ordinal 0 its slots, attach the replicas. -/
def formCluster (cr : ValkeyCluster) : Act Unit := do
  (allEndpoints cr).forM fun ep =>
    if ep.host = (seed cr).host then pure ()
    else wrap ("meet " ++ ep.host) (Admin.meet (seed cr) ep)
  (Slots.distribute cr.spec.shards).zipIdx.forM fun (r, i) =>
    wrap ("addslots shard " ++ toString i) (Admin.addSlots (endpoint cr i 0) [r])
  let state ← Admin.state (seed cr)
  attachReplicas cr state

/-! ## Observe, decide, act -/

def desired (cr : ValkeyCluster) : Desired where
  shards := cr.spec.shards
  replicasPerShard := cr.spec.replicasPerShard

/-- The plan for an observation. As long as a StatefulSet beyond the desired
shards exists, everything but forming and scaling out gives way to scaling in. -/
def choosePlan (cr : ValkeyCluster) (observed : Observed) : Act Plan := do
  let plan := Topology.decide (desired cr) observed
  if plan.kind ≠ .form ∧ plan.kind ≠ .scaleOutShards then
    let excess ← hasExcessShardStatefulSets cr
    pure (if excess then { kind := .scaleInShards } else plan)
  else pure plan

/-- Whether more passes are needed soon. -/
def isProgressing (kind : ActionKind) : Bool :=
  kind == .form || kind == .repair || kind == .scaleOutShards || kind == .scaleInShards

/-- A phase is announced as well as it can be; its error is dropped. -/
def announce (cr : ValkeyCluster) (phase : ValkeyClusterPhase) (reason msg : String) :
    Ctl Unit := do
  let _ ← (setPhase cr phase reason msg).run

def act (cr : ValkeyCluster) (state : ClusterState) (observed : Observed) :
    ActionKind → Act Unit
  | .form => do
      announce cr .forming "Forming" "bootstrapping cluster"
      formCluster cr
  | .repair => do
      announce cr .resharding "Repairing" "fixing open slots"
      -- the count and the error are only logged
      let _ ← Admin.repairSlots (seed cr)
  | .scaleOutShards => do
      announce cr .resharding "Resharding" "adding shards"
      scaleOut cr observed.primaryCount
  | .scaleInShards => do
      announce cr .resharding "Resharding" "removing shards"
      scaleIn cr
  | .scaleReplicas => do
      announce cr .scalingReplicas "ScalingReplicas" "adjusting replicas"
      reconcileMembership cr state
  | .none => reconcileMembership cr state

def reconcileCluster (cr : ValkeyCluster) : Act Bool := do
  let state ← wrap "observe cluster" (Admin.state (seed cr))
  let observed := summarize cr state
  let plan ← choosePlan cr observed
  act cr state observed plan.kind
  let state ← wrap "observe cluster (post-action)" (Admin.state (seed cr))
  updateStatus cr state
  pure (isProgressing plan.kind)

/-! ## Reconcile -/

def finalizer : String := "cache.razkevich.dev/finalizer"

/-- `ctrl.Result`, in seconds; zero is "do not requeue". -/
structure Result where
  requeueAfter : Nat := 0
deriving DecidableEq, Repr

def requeueAfter : Nat := 15
def reshardRequeue : Nat := 1

def reconcileDelete (cr : ValkeyCluster) : Act Result := do
  if finalizer ∈ cr.finalizers then
    deleteOwnedPVCs cr
    let _ ← Kube.updateCluster { cr with finalizers := cr.finalizers.filter (· != finalizer) }
  pure {}

/-- The cluster resource with the finalizer, stored if it was not there. -/
def ensureFinalizer (cr : ValkeyCluster) : Act ValkeyCluster :=
  if finalizer ∈ cr.finalizers then pure cr
  else Kube.updateCluster { cr with finalizers := cr.finalizers ++ [finalizer] }

def reconcileLive (cr : ValkeyCluster) : Act Result := do
  let cr ← ensureFinalizer cr
  ensureConfigMap cr
  ensureHeadlessService cr
  ensureStatefulSets cr
  let ready ← shardsReady cr
  if !ready then
    announce cr .provisioning "Provisioning" "waiting for shard pods"
    pure { requeueAfter := requeueAfter }
  else
    match ← (reconcileCluster cr).attempt with
    | .error _ => pure { requeueAfter := requeueAfter }
    | .ok progressing =>
        pure { requeueAfter := if progressing then reshardRequeue else requeueAfter }

def reconcile (name nspace : String) : Act Result := do
  match ← (Kube.getCluster name nspace).attempt with
  | .error e => if e.reason = .notFound then pure {} else throw e
  | .ok cr =>
      if cr.deletionTimestamp.isSome then reconcileDelete cr else reconcileLive cr

end Valkeyop.Controller
