import Valkeyop.Cluster.Parse
import Valkeyop.Controller.Deployment
import Valkeyop.Proofs.Workloads

/-!
# Who is forgotten

`forgetStaleNodes` takes a node for stale when its announced host is not the name
of a pod of an existing StatefulSet. Two things it does not know: a host that is
still an IP, because the announced name has not reached the seed, and a pod beyond
the replica count of a spec that was just lowered. Both make a live node stale, and
what it owns is not asked.
-/

namespace Valkeyop.Controller

open Valkeyop.Lib Valkeyop.Lib.Fallible Valkeyop.Cluster Valkeyop.Api Valkeyop.Resources

/-- The sweep takes the node for stale. -/
def Stale (cr : ValkeyCluster) (sets : List StatefulSet) (n : NodeInfo) : Prop :=
  n.host ≠ "" ∧ n.host ∉ podHosts cr sets

instance (cr : ValkeyCluster) (sets : List StatefulSet) (n : NodeInfo) :
    Decidable (Stale cr sets n) :=
  inferInstanceAs (Decidable (_ ∧ _))

section

variable {S : Type} {h : Handler Call Call.Reply S} {kube : S → ApiServer}
  {put : ApiServer → S → S} {cr : ValkeyCluster}

/-- Every desired pod is told, whatever the others answer. -/
theorem forgetEverywhere_calls (nodeID : String) (s : S) :
    ((forgetEverywhere cr nodeID).trace h s).map Prod.fst =
      (allEndpoints cr).map fun ep => .admin (.forget ep nodeID) := by
  refine (Prog.map_trace_forM h (fun ep _ s => ?_) s).trans List.map_eq_flatMap.symm
  rfl

/-- The sweep lists the StatefulSets and sends a stale node's ID to every desired
pod. -/
theorem forgetStaleNodes_calls (hk : KubeBacked h kube put) {s : S}
    (hsets : OwnSets cr (kube s).statefulSets) (state : ClusterState) :
    ((forgetStaleNodes cr state).trace h s).map Prod.fst =
      .kube (.listStatefulSets cr.nspace (instanceSelector cr)) ::
        state.nodes.flatMap fun n =>
          if Stale cr (kube s).statefulSets n then
            (allEndpoints cr).map fun ep => .admin (.forget ep n.id)
          else [] := by
  have hhosts := exec_existingPodHosts hk hsets
  have hcalls := calls_existingPodHosts hk hsets
  rw [exec] at hhosts
  rw [calls] at hcalls
  rw [forgetStaleNodes, Prog.trace_bind, hhosts, hcalls, List.map_append]
  refine congrArg (List.cons _) (Prog.map_trace_forM h (fun n _ s' => ?_) s)
  by_cases hn : Stale cr (kube s).statefulSets n
  · rw [if_pos hn]
    refine (congrArg (fun p => (Prog.trace h p s').map Prod.fst) (if_pos hn)).trans ?_
    exact forgetEverywhere_calls n.id s'
  · rw [if_neg hn]
    exact congrArg (fun p => (Prog.trace h p s').map Prod.fst) (if_neg hn)

theorem forget_mem_forgetStaleNodes (hk : KubeBacked h kube put) {s : S}
    (hsets : OwnSets cr (kube s).statefulSets) (state : ClusterState) (ep : Endpoint)
    (id : String) :
    .admin (.forget ep id) ∈ ((forgetStaleNodes cr state).trace h s).map Prod.fst ↔
      ep ∈ allEndpoints cr ∧ ∃ n ∈ state.nodes, Stale cr (kube s).statefulSets n ∧
        n.id = id := by
  rw [forgetStaleNodes_calls hk hsets, List.mem_cons, List.mem_flatMap]
  constructor
  · rintro (hlist | ⟨n, hn, hmem⟩)
    · exact nomatch hlist
    · split at hmem
      · next hstale =>
          obtain ⟨ep', hep, heq⟩ := List.mem_map.1 hmem
          obtain ⟨rfl, rfl⟩ : ep' = ep ∧ n.id = id := by simpa using heq
          exact ⟨hep, n, hn, hstale, rfl⟩
      · exact nomatch hmem
  · rintro ⟨hep, n, hn, hstale, rfl⟩
    refine Or.inr ⟨n, hn, ?_⟩
    rw [if_pos hstale]
    exact List.mem_map.2 ⟨ep, hep, rfl⟩

theorem seed_mem_allEndpoints (hshards : 0 < cr.spec.shards) : seed cr ∈ allEndpoints cr :=
  List.mem_flatMap.2 ⟨0, List.mem_range.2 hshards,
    List.mem_map.2 ⟨0, List.mem_range.2 (Nat.succ_pos _), rfl⟩⟩

end

theorem Deployment.kubeBacked (seedHost : String) (fails : String → Nat → Bool)
    (rest : (c : AdminCall) → Deployment → c.Reply × Deployment)
    (order : (m : NodeMap) → RangeOrder m) :
    KubeBacked (Deployment.answer seedHost fails rest order) Deployment.kube
      Deployment.putKube :=
  ⟨fun _ _ => rfl, fun _ _ => rfl, fun _ => rfl, fun _ _ _ => rfl⟩

section

variable {cr : ValkeyCluster} {d : Deployment} {seedHost : String}
  {fails : String → Nat → Bool} {rest : (c : AdminCall) → Deployment → c.Reply × Deployment}
  {order : (m : NodeMap) → RangeOrder m}

theorem stale_iff (hd : Deployed cr d) (n : NodeInfo) :
    Stale cr d.kube.statefulSets n ↔ ¬ (n.host = "" ∨ d.KnownHost cr n.host) := by
  rw [Stale, mem_podHosts hd.sets, not_or]
  rfl

/-- No slot owner that runs in a pod is forgotten, exactly when every such node is
listed without a host or under the name of a pod the sweep knows. -/
theorem forgetStaleNodes_spares_owners_iff (hd : Deployed cr d) (hcr : cr.spec.Admitted) :
    (∀ ep id, .admin (.forget ep id) ∈ ((forgetStaleNodes cr d.state).trace
        (Deployment.answer seedHost fails rest order) d).map Prod.fst →
      ¬ (d.Owner id ∧ d.InPod cr id)) ↔
    ∀ n ∈ d.state.nodes, 0 < n.slotCount → d.InPod cr n.id →
      n.host = "" ∨ d.KnownHost cr n.host := by
  have hshards : 0 < cr.spec.shards := by
    rcases hcr.1 with h | h <;> omega
  have hmem := forget_mem_forgetStaleNodes
    (Deployment.kubeBacked seedHost fails rest order) hd.sets d.state
  constructor
  · intro hspared n hn hslots hpod
    by_contra hknown
    refine hspared (seed cr) n.id ((hmem _ _).2 ⟨seed_mem_allEndpoints hshards, n, hn,
      (stale_iff hd n).2 hknown, rfl⟩) ⟨⟨n, hn, rfl, hslots⟩, hpod⟩
  · rintro hknown ep id hforget ⟨⟨m, hm, hid, hslots⟩, hpod⟩
    obtain ⟨-, n, hn, hstale, rfl⟩ := (hmem _ _).1 hforget
    -- the IDs are distinct, so the owner is the stale node itself
    obtain rfl : m = n := List.inj_on_of_nodup_map hd.nodes hm hn hid
    exact (stale_iff hd m).1 hstale (hknown m hm hslots hpod)

end

/-! ## A cluster of one pod -/

/-- One shard without replicas. -/
def loneCluster : ValkeyCluster where
  name := "c"
  nspace := "n"
  spec := { shards := 1, replicasPerShard := 0 }

/-- Its pod runs node `a`, which the seed lists as `nodes`. -/
def loneDeployment (nodes : List NodeInfo) : Deployment :=
  .onPaper loneCluster [(0, 1)] (fun _ => "a") ⟨true, true, false, nodes⟩

theorem loneDeployment_deployed {nodes : List NodeInfo}
    (hnodes : (nodes.map NodeInfo.id).Nodup) : Deployed loneCluster (loneDeployment nodes) :=
  Deployment.deployed_onPaper (by decide) (by decide) (by decide) (by decide) hnodes

theorem loneDeployment_inPod (nodes : List NodeInfo) :
    (loneDeployment nodes).InPod loneCluster "a" :=
  ⟨0, 0, Deployment.serving_onPaper.2 ⟨by decide, rfl⟩⟩

/-- The node under its announced name. -/
def loneNode : NodeInfo :=
  ⟨"a", podFQDN loneCluster 0 0, "10.0.0.1", 6379, ["myself", "master"], "", [⟨0, 16383⟩], true⟩

theorem forgetStaleNodes_spares_lone_owner :
    (loneDeployment [loneNode]).Owner "a" ∧
    (loneDeployment [loneNode]).InPod loneCluster "a" ∧
    ∀ ep, .admin (.forget ep "a") ∉ ((forgetStaleNodes loneCluster
      (loneDeployment [loneNode]).state).trace
        (Deployment.answer (podFQDN loneCluster 0 0) (fun _ _ => false) Deployment.idle
          asWritten) (loneDeployment [loneNode])).map Prod.fst := by
  have howner : (loneDeployment [loneNode]).Owner "a" :=
    ⟨loneNode, List.mem_singleton.2 rfl, rfl, by decide⟩
  have hpod := loneDeployment_inPod [loneNode]
  refine ⟨howner, hpod, fun ep hep => ?_⟩
  refine (forgetStaleNodes_spares_owners_iff (loneDeployment_deployed (by decide))
    ⟨Or.inl rfl, by decide, by decide⟩).2 (fun n hn _ _ => ?_) ep "a" hep ⟨howner, hpod⟩
  obtain rfl := List.mem_singleton.1 hn
  exact Or.inr ⟨0, 0, List.mem_singleton.2 rfl, by decide, rfl⟩

/-- The same node, listed before its announced name has reached the seed. -/
def namelessLine : String := "a 10.0.0.1:6379@16379 myself,master - 0 0 1 connected 0-16383"

theorem parseNodes_nameless : parseNodes namelessLine =
    [⟨"a", "10.0.0.1", "10.0.0.1", 6379, ["myself", "master"], "", [⟨0, 16383⟩], true⟩] := by
  decide +kernel

/-- The parser puts the IP into `Host`, the sweep knows no such pod, and the only
owner of the cluster is forgotten. -/
theorem forgetStaleNodes_forgets_owner :
    Deployed loneCluster (loneDeployment (parseNodes namelessLine)) ∧
    loneCluster.spec.Admitted ∧
    (loneDeployment (parseNodes namelessLine)).Owner "a" ∧
    (loneDeployment (parseNodes namelessLine)).InPod loneCluster "a" ∧
    .admin (.forget (seed loneCluster) "a") ∈ ((forgetStaleNodes loneCluster
      (loneDeployment (parseNodes namelessLine)).state).trace
        (Deployment.answer (podFQDN loneCluster 0 0) (fun _ _ => false) Deployment.idle
          asWritten) (loneDeployment (parseNodes namelessLine))).map Prod.fst := by
  rw [parseNodes_nameless]
  have hd : Deployed loneCluster (loneDeployment
      [⟨"a", "10.0.0.1", "10.0.0.1", 6379, ["myself", "master"], "", [⟨0, 16383⟩], true⟩]) :=
    loneDeployment_deployed (by decide)
  refine ⟨hd, ⟨Or.inl rfl, by decide, by decide⟩,
    ⟨_, List.mem_singleton.2 rfl, rfl, by decide⟩, loneDeployment_inPod _, ?_⟩
  refine (forget_mem_forgetStaleNodes (Deployment.kubeBacked ..) hd.sets _ _ _).2
    ⟨seed_mem_allEndpoints (by decide), _, List.mem_singleton.2 rfl, ?_, rfl⟩
  refine (stale_iff hd _).2 ?_
  rintro (hempty | ⟨i, j, -, -, hhost⟩)
  · exact absurd hempty (by decide)
  · have hl := congrArg String.toList hhost
    rw [podFQDN_toList] at hl
    simp [loneCluster] at hl

end Valkeyop.Controller
