import Valkeyop.Controller.Endpoints
import Valkeyop.Controller.Status

/-!
# Membership

`internal/controller/membership.go`, with `existingShardIndexes` of `scaling.go`,
which it relies on: who replicates whom, and who is no longer part of the
cluster. A shard's primary is found by dialling its pods, not by their names in
gossip, because a failover may have moved it.
-/

namespace Valkeyop.Controller

open Valkeyop.Lib Valkeyop.Lib.Text Valkeyop.Cluster Valkeyop.Api Valkeyop.Resources

/-! ## Finding primaries -/

/-- The first of the ordinals whose pod answers and is listed as a primary with
slots. -/
def findSlotOwner (cr : ValkeyCluster) (shard : Nat) (idx : NodeMap) :
    List Nat → Ctl (Option (String × Nat))
  | [] => pure none
  | j :: rest => do
      match ← (Admin.myID (endpoint cr shard j)).run with
      | .error _ => findSlotOwner cr shard idx rest
      | .ok id =>
          match idx.lookup id with
          | some n =>
              if ownsSlots n then pure (some (id, j)) else findSlotOwner cr shard idx rest
          | none => findSlotOwner cr shard idx rest

/-- The primary's node ID and ordinal, falling back to ordinal 0; an empty ID
when nobody answers. -/
def findShardPrimary (cr : ValkeyCluster) (shard : Nat) (idx : NodeMap) :
    Ctl (String × Int) := do
  match ← findSlotOwner cr shard idx (List.range (cr.spec.replicasPerShard + 1)) with
  | some (id, j) => pure (id, (j : Int))
  | none =>
      match ← (Admin.myID (endpoint cr shard 0)).run with
      | .ok id => pure (id, 0)
      | .error _ => pure ("", -1)

section

variable {cr : ValkeyCluster} {idx : NodeMap} {P : Call → Prop}

theorem only_findSlotOwner (hP : ∀ ep, P (.admin (.myID ep))) (shard : Nat) :
    ∀ js, (findSlotOwner cr shard idx js).Only P := by
  intro js
  induction js with
  | nil => exact Prog.only_pure _
  | cons j js ih =>
      refine Prog.Only.bind (Prog.only_op.2 (hP _)) fun r => ?_
      cases r with
      | error e => exact ih
      | ok id =>
          simp only []
          split
          · split
            · exact Prog.only_pure _
            · exact ih
          · exact ih

theorem only_findShardPrimary (hP : ∀ ep, P (.admin (.myID ep))) (shard : Nat) :
    (findShardPrimary cr shard idx).Only P := by
  refine Prog.Only.bind (only_findSlotOwner hP shard _) fun r => ?_
  cases r with
  | some found => exact Prog.only_pure _
  | none =>
      refine Prog.Only.bind (Prog.only_op.2 (hP _)) fun r => ?_
      cases r with
      | ok id => exact Prog.only_pure _
      | error e => exact Prog.only_pure _

end

/-! ## Attaching replicas -/

def attachReplica (cr : ValkeyCluster) (idx : NodeMap) (shard : Nat) (primaryID : String)
    (primaryOrd : Int) (j : Nat) : Act Unit := do
  if (j : Int) = primaryOrd then pure () else
  match ← (Admin.myID (endpoint cr shard j)).attempt with
  | .error _ => pure ()
  | .ok id =>
      -- one that replicates the right primary already is left alone
      if (idx.lookup id).any fun n => n.masterID == primaryID then pure ()
      else
        wrap ("replicate " ++ (endpoint cr shard j).host)
          (Admin.replicate (endpoint cr shard j) primaryID)

def attachShardReplicas (cr : ValkeyCluster) (idx : NodeMap) (shard : Nat) : Act Unit := do
  let (primaryID, primaryOrd) ← findShardPrimary cr shard idx
  if primaryID = "" then pure () else
  (List.range (cr.spec.replicasPerShard + 1)).forM
    (attachReplica cr idx shard primaryID primaryOrd)

def attachReplicas (cr : ValkeyCluster) (state : ClusterState) : Act Unit :=
  (List.range cr.spec.shards).forM (attachShardReplicas cr (byID state))

/-! ## Forgetting -/

/-- The shard a StatefulSet is labelled with; a label that is not a number is
passed over. -/
def shardIndex (sts : StatefulSet) : Option Int := do
  let v ← sts.labels.lookup labelShard
  atoi v

def instanceSelector (cr : ValkeyCluster) : Labels := [(labelInstance, cr.name)]

/-- The shards that have a StatefulSet, in ascending order. -/
def existingShardIndexes (cr : ValkeyCluster) : Act (List Int) := do
  let list ← Kube.listStatefulSets cr.nspace (instanceSelector cr)
  pure ((list.filterMap shardIndex).mergeSort)

/-- `PodFQDN`, for a shard that is read off a label and may be below zero. -/
def labelledPodFQDN (cr : ValkeyCluster) (shard : Int) (ordinal : Nat) : String :=
  cr.name ++ "-shard-" ++ toString shard ++ "-" ++ toString ordinal ++ "." ++
    headlessServiceName cr ++ "." ++ cr.nspace ++ ".svc"

theorem labelledPodFQDN_natCast (cr : ValkeyCluster) (i : Nat) :
    labelledPodFQDN cr i = podFQDN cr i := rfl

/-- The names of the pods of all StatefulSets that exist, as far as the replica
count of the spec reaches. -/
def existingPodHosts (cr : ValkeyCluster) : Act (List String) := do
  let idxs ← existingShardIndexes cr
  pure (idxs.flatMap fun i =>
    (List.range (cr.spec.replicasPerShard + 1)).map (labelledPodFQDN cr i))

/-- `CLUSTER FORGET` is per node, so it is sent to every desired pod; errors are
ignored. -/
def forgetEverywhere (cr : ValkeyCluster) (nodeID : String) : Ctl Unit :=
  (allEndpoints cr).forM fun ep => do
    let _ ← (Admin.forget ep nodeID).run

/-- Forget the nodes whose announced host is not a pod of a StatefulSet. -/
def forgetStaleNodes (cr : ValkeyCluster) (state : ClusterState) : Ctl Unit := do
  match ← (existingPodHosts cr).run with
  | .error _ => pure ()
  | .ok want =>
      state.nodes.forM fun n =>
        if n.host ≠ "" ∧ n.host ∉ want then forgetEverywhere cr n.id else pure ()

/-! ## Membership -/

def reconcileMembership (cr : ValkeyCluster) (state : ClusterState) : Act Unit := do
  (allEndpoints cr).forM fun ep =>
    if ep.host ∈ hostIndex state then pure () else Admin.meet (seed cr) ep
  attachReplicas cr state
  forgetStaleNodes cr state

end Valkeyop.Controller
