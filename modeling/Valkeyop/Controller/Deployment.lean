import Valkeyop.Controller.ApiServer
import Valkeyop.Controller.Reconcile

/-!
# A running cluster

The world one pass of the controller meets when its cluster is in an arbitrary
state: StatefulSets left over from any number of earlier specs, with as many pods
as each of them has, in every pod a node with whatever slots and role it has, and
a `CLUSTER MYID` that fails when it likes.

The answers that decide what the controller takes for an empty or a departed node
are modelled: `State`, which lists the nodes the seed has not forgotten, `MyID`,
which answers only where there is a pod, and `Forget`. Every other command may
answer and do anything at all; `rest` stands for it.
-/

namespace Valkeyop.Controller

open Valkeyop.Lib Valkeyop.Cluster Valkeyop.Api Valkeyop.Resources

structure Deployment where
  kube : ApiServer
  /-- The cluster, as the seed reports it as long as it forgets nobody. -/
  state : ClusterState
  /-- The node that answers at a host. -/
  serving : String → Option String
  /-- What the seed was told to forget. -/
  forgotten : List String
  /-- How often each host was asked for its ID. -/
  asked : String → Nat

namespace Deployment

/-- What the seed reports. -/
def seen (d : Deployment) : ClusterState :=
  { d.state with nodes := d.state.nodes.filter fun n => !d.forgotten.contains n.id }

def unreachable : Err := ⟨.other, "dial tcp: no such host"⟩

/-- The node a host answers with, on its `k`-th call. -/
def reply (fails : String → Nat → Bool) (d : Deployment) (host : String) (k : Nat) :
    Option String :=
  if fails host k then none else d.serving host

/-- Count a call. -/
def ask (d : Deployment) (host : String) : Deployment :=
  { d with asked := Function.update d.asked host (d.asked host + 1) }

theorem asked_ask_ne (d : Deployment) {host host' : String} (hne : host' ≠ host) :
    (d.ask host).asked host' = d.asked host' := by
  rw [ask]
  exact Function.update_of_ne hne ..

/-- The seed drops a node from its view; no node forgets itself. -/
def forget (seedHost : String) (d : Deployment) (host nodeID : String) : Deployment :=
  if host = seedHost ∧ d.serving seedHost ≠ some nodeID then
    { d with forgotten := nodeID :: d.forgotten }
  else d

def putKube (k : ApiServer) (d : Deployment) : Deployment := { d with kube := k }

section

variable (seedHost : String) (fails : String → Nat → Bool)
  (rest : (c : AdminCall) → Deployment → c.Reply × Deployment)
  (order : (m : NodeMap) → RangeOrder m)

def answer : Handler Call Call.Reply Deployment
  | .admin (.state _), d => (Except.ok d.seen, d)
  | .admin (.myID ep), d =>
      (match d.reply fails ep.host (d.asked ep.host) with
        | some id => Except.ok id
        | none => Except.error unreachable, d.ask ep.host)
  | .admin (.forget ep nodeID), d => (Except.ok (), d.forget seedHost ep.host nodeID)
  | .admin c, d => rest c d
  | .kube c, d => ((d.kube.answer c).1, d.putKube (d.kube.answer c).2)
  | .rangeOver m, d => (order m, d)

end

/-- Pod `j` of shard `i` exists. -/
def HasPod (cr : ValkeyCluster) (d : Deployment) (i j : Nat) : Prop :=
  ∃ s ∈ d.kube.statefulSets, s.name = statefulSetName cr i ∧ j < s.replicas

end Deployment

/-- A deployment of `cr`: its StatefulSets are the cluster's, there is a node in
each of their pods and nowhere else, no two pods run the same node, no node is listed
twice, and none has been forgotten. -/
structure Deployed (cr : ValkeyCluster) (d : Deployment) : Prop where
  sets : OwnSets cr d.kube.statefulSets
  pods : ∀ i j, (d.serving (podFQDN cr i j)).isSome ↔ d.HasPod cr i j
  ids : ∀ i j i' j' id, d.serving (podFQDN cr i j) = some id →
    d.serving (podFQDN cr i' j') = some id → i = i' ∧ j = j'
  nonempty : ∀ host, d.serving host ≠ some ""
  nodes : (d.state.nodes.map NodeInfo.id).Nodup
  fresh : d.forgotten = []

namespace Deployment

/-- The node with this ID owns a slot. -/
def Owner (d : Deployment) (id : String) : Prop :=
  ∃ n ∈ d.state.nodes, n.id = id ∧ 0 < n.slotCount

/-- The node runs in a pod. -/
def InPod (cr : ValkeyCluster) (d : Deployment) (id : String) : Prop :=
  ∃ i j, d.serving (podFQDN cr i j) = some id

/-- Some node in a pod of shard `i` owns a slot. -/
def ShardOwns (cr : ValkeyCluster) (d : Deployment) (i : Nat) : Prop :=
  ∃ j id, d.serving (podFQDN cr i j) = some id ∧ d.Owner id

/-- The host is the name of a pod of a StatefulSet that exists, as far as the
replica count of the spec reaches. -/
def KnownHost (cr : ValkeyCluster) (d : Deployment) (host : String) : Prop :=
  ∃ i j, HasSet cr d.kube.statefulSets i ∧ j ≤ cr.spec.replicasPerShard ∧
    host = podFQDN cr i j

/-! ## Deployments on paper

A deployment from a list of shards with the pods each has, and a name for the node
in each pod. -/

def podsOf (shards : List (Nat × Nat)) : List (Nat × Nat) :=
  shards.flatMap fun s => (List.range s.2).map fun j => (s.1, j)

def setOf (cr : ValkeyCluster) (s : Nat × Nat) : StatefulSet :=
  { statefulSet cr s.1 with replicas := s.2, readyReplicas := s.2 }

def onPaper (cr : ValkeyCluster) (shards : List (Nat × Nat)) (id : Nat × Nat → String)
    (state : ClusterState) : Deployment where
  kube := { cluster := some cr, statefulSets := shards.map (setOf cr) }
  state := state
  serving host := ((podsOf shards).find? fun p => podFQDN cr p.1 p.2 == host).map id
  forgotten := []
  asked _ := 0

/-- Commands that are acknowledged and do nothing. -/
def idle : (c : AdminCall) → Deployment → c.Reply × Deployment
  | .state _, d => (Except.ok d.state, d)
  | .myID _, d => (Except.error unreachable, d)
  | .moveSlots .., d | .repairSlots _, d => ((0, none), d)
  | .meet .., d | .addSlots .., d | .replicate .., d | .forget .., d | .failover _, d
  | .rebalance .., d | .reshard .., d | .fix _, d => (Except.ok (), d)

section

variable {cr : ValkeyCluster} {shards : List (Nat × Nat)} {id : Nat × Nat → String}
  {state : ClusterState}

theorem serving_onPaper {i j : Nat} {x : String} :
    (onPaper cr shards id state).serving (podFQDN cr i j) = some x ↔
      (i, j) ∈ podsOf shards ∧ id (i, j) = x := by
  change ((podsOf shards).find? _).map id = some x ↔ _
  cases hf : (podsOf shards).find? (fun p => podFQDN cr p.1 p.2 == podFQDN cr i j) with
  | none =>
      have hnone := List.find?_eq_none.1 hf (i, j)
      simp only [beq_self_eq_true, not_true_eq_false, imp_false] at hnone
      simp [hnone]
  | some p =>
      obtain rfl : p = (i, j) := by
        have hp : podFQDN cr p.1 p.2 = podFQDN cr i j := by simpa using List.find?_some hf
        exact Prod.ext (podFQDN_inj hp).1 (podFQDN_inj hp).2
      simp [List.mem_of_find?_eq_some hf]

theorem mem_podsOf {i j : Nat} : (i, j) ∈ podsOf shards ↔ ∃ k, (i, k) ∈ shards ∧ j < k := by
  simp only [podsOf, List.mem_flatMap, List.mem_map, List.mem_range, Prod.mk.injEq]
  constructor
  · rintro ⟨⟨a, k⟩, hs, b, hb, rfl, rfl⟩
    exact ⟨k, hs, hb⟩
  · rintro ⟨k, hs, hj⟩
    exact ⟨(i, k), hs, j, hj, rfl, rfl⟩

theorem hasPod_onPaper {i j : Nat} :
    (onPaper cr shards id state).HasPod cr i j ↔ (i, j) ∈ podsOf shards := by
  rw [mem_podsOf]
  constructor
  · rintro ⟨s, hs, hname, hj⟩
    obtain ⟨p, hp, rfl⟩ := List.mem_map.1 hs
    obtain rfl := statefulSetName_injective hname
    exact ⟨p.2, hp, hj⟩
  · rintro ⟨k, hk, hj⟩
    exact ⟨setOf cr (i, k), List.mem_map_of_mem hk, rfl, hj⟩

theorem setIndexes_onPaper (hfits : ∀ s ∈ shards, (s.1 : Int) ≤ Text.maxInt)
    (h : (shards.map Prod.fst).Pairwise (· < ·)) :
    setIndexes (onPaper cr shards id state).kube.statefulSets = shards.map Prod.fst := by
  have hidx : (shards.map (setOf cr)).filterMap shardIndex =
      (shards.map Prod.fst).map Nat.cast := by
    rw [List.filterMap_map, List.map_map, ← List.filterMap_eq_map]
    exact List.filterMap_congr fun s hs => shardIndex_of_labels (hfits s hs) rfl
  have hsorted : labelIndexes (shards.map (setOf cr)) = (shards.map Prod.fst).map Nat.cast := by
    rw [labelIndexes, hidx]
    refine List.mergeSort_of_pairwise (List.pairwise_map.2 (h.imp fun hlt => ?_))
    simpa using Nat.le_of_lt hlt
  change (labelIndexes (shards.map (setOf cr))).filterMap Int.toNat? = _
  rw [hsorted, List.filterMap_map]
  exact List.filterMap_some

theorem deployed_onPaper (hfits : ∀ s ∈ shards, (s.1 : Int) ≤ Text.maxInt)
    (hshards : (shards.map Prod.fst).Nodup)
    (hids : ∀ p ∈ podsOf shards, ∀ q ∈ podsOf shards, id p = id q → p = q)
    (hne : ∀ p ∈ podsOf shards, id p ≠ "") (hnodes : (state.nodes.map NodeInfo.id).Nodup) :
    Deployed cr (onPaper cr shards id state) where
  sets := .map (fun _ => rfl) (fun _ => rfl) (fun _ => rfl) hshards hfits
  pods i j := by
    rw [hasPod_onPaper, Option.isSome_iff_exists]
    simp [serving_onPaper]
  ids i j i' j' x h h' := by
    rw [serving_onPaper] at h h'
    have hp := hids _ h.1 _ h'.1 (h.2.trans h'.2.symm)
    exact ⟨congrArg Prod.fst hp, congrArg Prod.snd hp⟩
  nonempty host h := by
    obtain ⟨p, hp, hid⟩ := Option.map_eq_some_iff.1 h
    exact hne p (List.mem_of_find?_eq_some hp) hid
  nodes := hnodes
  fresh := rfl

end

end Deployment

end Valkeyop.Controller
