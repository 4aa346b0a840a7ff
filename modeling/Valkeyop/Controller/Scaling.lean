import Valkeyop.Controller.Membership

/-!
# Scaling out and in

`internal/controller/scaling.go`. New shards are joined and get their share of
the slots from the fattest primaries; departing shards are drained a batch per
pass onto a survivor, and forgotten and deleted once they look empty.
-/

namespace Valkeyop.Controller

open Valkeyop.Lib Valkeyop.Cluster Valkeyop.Api Valkeyop.Resources

/-- How many slots one pass drains at most. -/
def drainBatchSlots : Int := 1024

/-! ## Scaling out -/

/-- One entry of the search: a strictly fatter primary takes over. -/
def fatter (excludeID : String) (best : String × Int) (e : Σ _ : String, NodeInfo) :
    String × Int :=
  if e.1 = excludeID ∨ e.2.isPrimary = false then best
  else if e.2.slotCount > best.2 then (e.1, e.2.slotCount) else best

/-- The primary with the most slots; ties go by the order of the map. -/
def fattestPrimary (idx : NodeMap) (excludeID : String) : Ctl (String × Int) := do
  let entries ← rangeOver idx
  pure (entries.1.foldl (fatter excludeID) ("", 0))

/-- The loop that fills a new primary. Every round but the last moves at least a
slot, so the slots still needed bound the rounds: `fuel` never runs out. -/
def fillShard (seed : Endpoint) (shard : Nat) (id : String) :
    Nat → Int → NodeMap → Act Unit
  | 0, _, _ => pure ()
  | fuel + 1, need, idx => do
      if need ≤ 0 then pure () else
      let (srcID, srcSlots) ← fattestPrimary idx id
      if srcID = "" ∨ srcSlots = 0 then pure () else
      match ← Admin.moveSlots seed srcID id (min need srcSlots) with
      | (_, some e) => throw (e.wrap ("fill shard " ++ toString shard))
      | (moved, none) =>
          if moved = 0 then pure () else
          let st ← Admin.state seed
          fillShard seed shard id fuel (need - moved) (byID st)

def joinShard (cr : ValkeyCluster) (shard : Nat) : Act Unit :=
  (List.range (cr.spec.replicasPerShard + 1)).forM fun j =>
    Admin.meet (seed cr) (endpoint cr shard j)

/-- `%!w(<nil>)` is how Go prints a missing error. -/
def newPrimaryID (cr : ValkeyCluster) (shard : Nat) : Act String := do
  let context := "resolve new primary " ++ toString shard ++ " id"
  let id ← wrap context (Admin.myID (endpoint cr shard 0))
  if id = "" then throw ⟨.other, context ++ ": %!w(<nil>)"⟩ else pure id

def fillNewShard (cr : ValkeyCluster) (shard : Nat) : Act Unit := do
  let id ← newPrimaryID cr shard
  let st ← Admin.state (seed cr)
  let idx := byID st
  let need := totalSlots / cr.spec.shards - (NodeMap.get idx id).slotCount
  fillShard (seed cr) shard id need.toNat need idx

/-- Join the new shards and attach their replicas before any slot moves, so that
`MIGRATE` finds in-sync replicas; then fill them one after the other. -/
def scaleOut (cr : ValkeyCluster) (oldShards : Nat) : Act Unit := do
  let new := List.range' oldShards (cr.spec.shards - oldShards)
  new.forM (joinShard cr)
  let state ← Admin.state (seed cr)
  attachReplicas cr state
  new.forM (fillNewShard cr)
  let state ← Admin.state (seed cr)
  attachReplicas cr state

/-! ## Teardown -/

def deletePVCs (cr : ValkeyCluster) (selector : Labels) : Act Unit := do
  let pvcs ← Kube.listPVCs cr.nspace selector
  pvcs.forM fun pvc => ignoreNotFound (Kube.deletePVC pvc)

def deleteShardPVCs (cr : ValkeyCluster) (shard : Nat) : Act Unit :=
  deletePVCs cr [(labelShard, toString shard), (labelInstance, cr.name)]

def deleteOwnedPVCs (cr : ValkeyCluster) : Act Unit := deletePVCs cr (instanceSelector cr)

def deleteShard (cr : ValkeyCluster) (shard : Nat) : Act Unit := do
  ignoreNotFound (Kube.deleteStatefulSet (statefulSetName cr shard) cr.nspace)
  deleteShardPVCs cr shard

/-! ## Scaling in -/

/-- The primary of the first surviving shard that has one other than
`excludeID`. -/
def firstSurvivorPrimary (cr : ValkeyCluster) (idx : NodeMap) (excludeID : String) :
    List Nat → Ctl String
  | [] => pure ""
  | s :: rest => do
      let (id, _) ← findShardPrimary cr s idx
      if id ≠ "" ∧ id ≠ excludeID then pure id
      else firstSurvivorPrimary cr idx excludeID rest

/-- Forget whatever answers at the pods of a shard. -/
def forgetShard (cr : ValkeyCluster) (shard : Nat) : Ctl Unit :=
  (List.range (cr.spec.replicasPerShard + 1)).forM fun j => do
    match ← (Admin.myID (endpoint cr shard j)).run with
    | .ok id => if id ≠ "" then forgetEverywhere cr id else pure ()
    | .error _ => pure ()

/-- Drain one batch of a departing primary onto a survivor. -/
def drainShard (cr : ValkeyCluster) (shard : Nat) (idx : NodeMap) (departID : String) :
    Act Unit := do
  let survID ← firstSurvivorPrimary cr idx departID (List.range cr.spec.shards)
  if survID = "" then
    throw ⟨.other, "no surviving primary to drain shard " ++ toString shard ++ " into"⟩
  else
    let batch := min drainBatchSlots (NodeMap.get idx departID).slotCount
    match ← Admin.moveSlots (seed cr) departID survID batch with
    | (moved, some e) => throw (e.wrap ("drain shard " ++ toString shard ++
        " (moved " ++ toString moved ++ " before error)"))
    | (_, none) => pure ()

/-- The departing shards in turn: the first that still owns slots is drained and
ends the pass, the ones before it are torn down. -/
def removeShards (cr : ValkeyCluster) : List Nat → Act Unit
  | [] => pure ()
  | i :: rest => do
      if i < cr.spec.shards then removeShards cr rest else
      let st ← Admin.state (seed cr)
      let idx := byID st
      let (departID, _) ← findShardPrimary cr i idx
      if departID ≠ "" ∧ (NodeMap.get idx departID).slotCount > 0 then
        drainShard cr i idx departID
      else
        forgetShard cr i
        deleteShard cr i
        removeShards cr rest

/-- Forget the nodes of shards that are already gone, if the seed can be observed. -/
def sweep (cr : ValkeyCluster) : Act Unit := do
  match ← (Admin.state (seed cr)).attempt with
  | .ok st => forgetStaleNodes cr st
  | .error _ => pure ()

def scaleIn (cr : ValkeyCluster) : Act Unit := do
  sweep cr
  let idxs ← existingShardIndexes cr
  -- An index below zero is below the desired shards, and is skipped like those.
  removeShards cr (idxs.filterMap Int.toNat?)

/-- Whether a StatefulSet beyond the desired shards is still there. -/
def hasExcessShardStatefulSets (cr : ValkeyCluster) : Act Bool := do
  let idxs ← existingShardIndexes cr
  pure (idxs.any fun i => decide (i ≥ cr.spec.shards))

end Valkeyop.Controller
