import Valkeyop.Controller.Calls
import Valkeyop.Slots
import Valkeyop.Topology

/-!
# Reading the cluster, publishing the status

`internal/controller/status.go`. The observed state is reduced to what the
decision needs, and at the end of a pass to a status. Every status write reads
the resource afresh, changes it and tries again on a conflict.
-/

namespace Valkeyop.Controller

open Valkeyop.Lib Valkeyop.Cluster Valkeyop.Api Valkeyop.Resources Valkeyop.Topology

/-! ## Indexes -/

/-- The map a loop of assignments `m[key(n)] = n` builds: the last node wins. -/
def indexBy (key : NodeInfo → String) (nodes : List NodeInfo) : NodeMap :=
  nodes.foldl (fun m n => m.insert (key n) n) ∅

def byID (state : ClusterState) : NodeMap := indexBy NodeInfo.id state.nodes

def hostIndex (state : ClusterState) : NodeMap := indexBy NodeInfo.host state.nodes

theorem lookup_foldl_insert (key : NodeInfo → String) (a : String) :
    ∀ (nodes : List NodeInfo) (m : NodeMap), (nodes.map key).Nodup →
      (∀ n ∈ nodes, key n ∉ m) → ∀ n,
      (nodes.foldl (fun m n => m.insert (key n) n) m).lookup a = some n ↔
        n ∈ nodes ∧ key n = a ∨ m.lookup a = some n := by
  intro nodes
  induction nodes with
  | nil => simp
  | cons x nodes ih =>
      intro m hnodup hfresh n
      obtain ⟨hx, hnodup⟩ := List.nodup_cons.1 hnodup
      rw [List.foldl_cons, ih _ hnodup]
      · by_cases ha : a = key x
        · subst ha
          have hm : m.lookup (key x) = none := AList.lookup_eq_none.2 (hfresh x (by simp))
          rw [AList.lookup_insert, hm]
          grind
        · rw [AList.lookup_insert_ne ha]
          grind
      · intro y hy
        rw [AList.mem_insert, not_or]
        exact ⟨fun h => hx (h ▸ List.mem_map_of_mem hy), hfresh y (by simp [hy])⟩

/-- When no two nodes share a key, the map finds each node by its own. -/
theorem lookup_indexBy {key : NodeInfo → String} {nodes : List NodeInfo}
    (hnodup : (nodes.map key).Nodup) {a : String} {n : NodeInfo} :
    (indexBy key nodes).lookup a = some n ↔ n ∈ nodes ∧ key n = a := by
  rw [indexBy, lookup_foldl_insert key a nodes ∅ hnodup (fun _ _ => AList.notMem_empty _)]
  simp

def podNameFromHost (host : String) : String :=
  String.ofList (host.toList.takeWhile (· != '.'))

/-- A shard, to the controller: a primary that owns slots. -/
def ownsSlots (n : NodeInfo) : Bool := n.isPrimary && decide (n.slotCount > 0)

theorem ownsSlots_iff {n : NodeInfo} :
    ownsSlots n = true ↔ n.isPrimary = true ∧ n.slotCount > 0 := by
  simp [ownsSlots]

/-! ## Summarizing -/

/-- How many nodes name `id` as their primary. -/
def replicaByPrimary (state : ClusterState) (id : String) : Nat :=
  state.nodes.countP fun n => !n.isPrimary && n.masterID != "" && n.masterID == id

/-- An open slot leaves the cluster unstable, so it counts as not covered. -/
def summarize (_cr : ValkeyCluster) (state : ClusterState) : Observed where
  formed := state.formed
  slotsCovered := state.slotsCovered && !state.openSlots
  primaryCount := (state.nodes.filter ownsSlots).length
  replicaCounts := (state.nodes.filter ownsSlots).map fun n => replicaByPrimary state n.id

/-! ## Conditions -/

/-- The time a condition is stamped with: that of its last change of status. -/
def transitionTime (conditions : List Condition) (type : String) (status : ConditionStatus)
    (time : Nat) : Nat :=
  match conditions.find? fun c => c.type == type with
  | some c => if c.status = status then c.lastTransitionTime else time
  | none => time

/-- Replace the first condition of the same type, or append. -/
def putCondition (new : Condition) : List Condition → List Condition
  | [] => [new]
  | c :: rest => if c.type = new.type then new :: rest else c :: putCondition new rest

def setCond (cr : ValkeyCluster) (type : String) (status : ConditionStatus)
    (reason msg : String) : Ctl ValkeyCluster := do
  let time ← Kube.now
  let new : Condition := {
    type, status, reason
    message := msg
    observedGeneration := cr.generation
    lastTransitionTime := transitionTime cr.status.conditions type status time }
  pure { cr with status := { cr.status with
    conditions := putCondition new cr.status.conditions } }

def setPhase (cr : ValkeyCluster) (phase : ValkeyClusterPhase) (reason msg : String) :
    Act Unit :=
  retryOnConflict defaultRetry do
    let latest ← Kube.getCluster cr.name cr.nspace
    let latest := { latest with status := { latest.status with phase := some phase } }
    let latest ← setCond latest conditionProgressing .true reason msg
    let _ ← Kube.updateClusterStatus latest
    pure ()

/-! ## Publishing -/

/-- The nodes of a shard the state knows by their pods' names. -/
def shardNodes (cr : ValkeyCluster) (state : ClusterState) (shard : Nat) : List NodeInfo :=
  (List.range (cr.spec.replicasPerShard + 1)).filterMap fun j =>
    (hostIndex state).lookup (podFQDN cr shard j)

/-- The last of them that owns slots. -/
def shardPrimary (cr : ValkeyCluster) (state : ClusterState) (shard : Nat) :
    Option NodeInfo :=
  (shardNodes cr state shard).reverse.find? ownsSlots

def shardStatus (cr : ValkeyCluster) (state : ClusterState) (shard : Nat) : ShardStatus :=
  let nodeIDs := (shardNodes cr state shard).map NodeInfo.id
  match shardPrimary cr state shard with
  | none => { index := shard, nodeIDs }
  | some primary =>
      { index := shard
        primaryPod := podNameFromHost primary.host
        primaryNodeID := primary.id
        slots := Slots.formatRanges primary.slots
        readyReplicas := state.nodes.countP fun n => n.masterID == primary.id && n.connected
        nodeIDs }

def readyShards (cr : ValkeyCluster) (state : ClusterState) : Nat :=
  (List.range cr.spec.shards).countP fun i => (shardPrimary cr state i).isSome

/-- The slot-owning primaries of the whole cluster. -/
def actualShards (state : ClusterState) : Nat := state.nodes.countP ownsSlots

def allReady (cr : ValkeyCluster) (state : ClusterState) : Bool :=
  readyShards cr state == cr.spec.shards && actualShards state == cr.spec.shards &&
    state.slotsCovered && !state.openSlots

/-- The phase and the conditions for a state. -/
def setVerdict (cr : ValkeyCluster) (state : ClusterState) (latest : ValkeyCluster) :
    Ctl ValkeyCluster := do
  let phase (p : ValkeyClusterPhase) :=
    { latest with status := { latest.status with phase := some p } }
  if allReady cr state then
    let latest ← setCond (phase .ready) conditionAvailable .true "Ready"
      "all shards serving, full keyspace covered"
    let latest ← setCond latest conditionProgressing .false "Ready" "converged"
    setCond latest conditionDegraded .false "Ready" "healthy"
  else if actualShards state > cr.spec.shards ∧ readyShards cr state > 0 then
    -- scale-in: the extra shards are not drained and removed yet
    let latest ← setCond (phase .resharding) conditionProgressing .true "Resharding"
      "removing shards"
    setCond latest conditionAvailable .true "Serving" "primaries serving during scale-in"
  else if state.openSlots ∧ readyShards cr state > 0 then
    let latest ← setCond (phase .resharding) conditionProgressing .true "Resharding"
      "slot migration in progress"
    setCond latest conditionAvailable .true "Serving" "primaries serving during migration"
  else if readyShards cr state = 0 then
    let latest ← setCond (phase .degraded) conditionAvailable .false "NoPrimaries"
      "no shard has a reachable primary"
    setCond latest conditionDegraded .true "NoPrimaries" "no shard has a reachable primary"
  else
    let latest ← setCond (phase .degraded) conditionAvailable .false "PartialCoverage"
      "not all shards serving or keyspace not fully covered"
    setCond latest conditionDegraded .true "PartialCoverage" "degraded"

def updateStatus (cr : ValkeyCluster) (state : ClusterState) : Act Unit :=
  retryOnConflict defaultRetry do
    let latest ← Kube.getCluster cr.name cr.nspace
    let latest := { latest with status := { latest.status with
      shards := (List.range cr.spec.shards).map (shardStatus cr state)
      readyShards := readyShards cr state
      observedGeneration := latest.generation } }
    let latest ← setVerdict cr state latest
    let _ ← Kube.updateClusterStatus latest
    pure ()

end Valkeyop.Controller
