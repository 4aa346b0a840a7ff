import Valkeyop.Proofs.Healing

/-!
# Fewer replicas

A spec that keeps its shards and asks for fewer replicas is met by forgetting: the
StatefulSets have been told, the pods that are left follow their owners as they did,
and the nodes beyond the new count are no pods any more. This holds where the owners
are among the pods that are left.
-/

namespace Valkeyop.Controller

open Valkeyop.Lib Valkeyop.Lib.Fallible Valkeyop.Cluster Valkeyop.Api Valkeyop.Resources

/-- The same shards with fewer replicas, but for none of the owners. -/
structure Lowers (c c' : ValkeyCluster) (owner : Nat → Nat) : Prop where
  name : c'.name = c.name
  nspace : c'.nspace = c.nspace
  shards : c'.spec.shards = c.spec.shards
  le : c'.spec.replicasPerShard ≤ c.spec.replicasPerShard
  owner_le : ∀ i < c.spec.shards, owner i ≤ c'.spec.replicasPerShard

section

variable {c c' cr : ValkeyCluster} {owner : Nat → Nat} {ranges : Nat → List SlotRange}
  {order : RangeOrders} {w : World} {i j : Nat} {id : String}

theorem Lowers.pods (h : Lowers c c' owner) : podFQDN c' = podFQDN c :=
  podFQDN_congr h.name h.nspace

theorem Lowers.endpoints (h : Lowers c c' owner) : endpoint c' = endpoint c := by
  funext i j
  simp only [endpoint, podName, statefulSetName, h.pods, h.name, h.nspace]

/-! ## The pods that are left -/

theorem findSlotOwner_congr (hpods : endpoint c' = endpoint c) (idx : NodeMap) (js : List Nat) :
    findSlotOwner c' i idx js = findSlotOwner c i idx js := by
  induction js with
  | nil => rfl
  | cons j js ih => rw [findSlotOwner, findSlotOwner, hpods, ih]

/-- They follow their owners already. -/
theorem Lowers.succeeds_attachReplicas (h : Lowers c c' owner)
    (hhealthy : Healthy c owner ranges w.fake) :
    Succeeds (World.answer order) (fun _ _ => True) (fun _ => (· = w))
      (attachReplicas c' w.fake.state) w := by
  refine Succeeds.forM_inv (fun i hi w₁ hw₁ => ?_) rfl
  subst hw₁
  have hi : i < c.spec.shards := h.shards ▸ List.mem_range.1 hi
  have hjs : ∀ j ∈ List.range (c'.spec.replicasPerShard + 1), j ≤ c.spec.replicasPerShard :=
    fun j hj => (Nat.lt_succ_iff.1 (List.mem_range.1 hj)).trans h.le
  have hfind : exec (World.answer order)
      (liftM (findShardPrimary c' i (byID w₁.fake.state)) : Act (String × Int)) w₁ =
        (.ok (podFQDN c i (owner i), (owner i : Int)), w₁) := by
    rw [exec_lift, findShardPrimary, findSlotOwner_congr h.endpoints, Prog.run_bind,
      run_findSlotOwner_sharded hhealthy hhealthy hi hjs
        (List.mem_range.2 (Nat.lt_succ_of_le (h.owner_le i hi)))]
    rfl
  refine succeeds_bind.2 (succeeds_of_exec hfind ?_)
  simp only [if_neg (podFQDN_ne_empty c i (owner i))]
  refine Succeeds.forM_inv (fun j hj w₂ hw₂ => ?_) rfl
  subst hw₂
  rw [attachReplica, h.endpoints]
  refine ((attaching_nothing hhealthy.loose).attachReplica hhealthy.loose hi (hjs j hj)).mono ?_
  exact fun _ _ hw => hw.same hhealthy

/-! ## The pods that are not -/

/-- A node that is forgotten by anybody is forgotten. -/
theorem runs_forgetEverywhere_gone (hn : 0 < cr.spec.shards) :
    Prog.Runs (World.answer order) (fun _ _ => True) (fun _ w' => w' = { w with fake := w'.fake } ∧
        w'.fake.nodes.lookup id = none ∧
        ∀ key, key ≠ id → w'.fake.nodes.lookup key = w.fake.nodes.lookup key)
      (forgetEverywhere cr id) w := by
  have hne : allEndpoints cr ≠ [] :=
    List.ne_nil_of_mem (mem_allEndpoints.2 ⟨0, hn, 0, Nat.zero_le _, rfl⟩)
  refine (Prog.Runs.forM (I := fun done w' => w' = { w with fake := w'.fake } ∧
    (done ≠ [] → w'.fake.nodes.lookup id = none) ∧
    ∀ key, key ≠ id → w'.fake.nodes.lookup key = w.fake.nodes.lookup key)
    (fun done ep todo hl w₁ hw₁ => ?_) ?_).mono ?_
  · refine Prog.runs_bind.2 ((Prog.runs_op (c := Call.admin (.forget ep id))).2 ⟨trivial, ?_⟩)
    refine Prog.runs_pure.2 ⟨?_, fun _ => lookup_forget_self, fun key hkey => ?_⟩
    · rw [hw₁.1]
      rfl
    · rw [← hw₁.2.2 key hkey]
      exact lookup_forget_ne hkey
  · exact ⟨rfl, fun hnil => absurd rfl hnil, fun _ _ => rfl⟩
  · exact fun _ w' hw' => ⟨hw'.1, hw'.2.1 hne, hw'.2.2⟩

/-- What forgetting leaves: of the nodes seen so far, those the new spec has. -/
structure Forgetting (c c' : ValkeyCluster) (w₀ : World) (seen : List NodeInfo) (w : World) :
    Prop where
  rest : w = { w₀ with fake := w.fake }
  kept : ∀ i, ∀ j ≤ c'.spec.replicasPerShard,
    w.fake.nodes.lookup (podFQDN c i j) = w₀.fake.nodes.lookup (podFQDN c i j)
  only : ∀ key ∈ w.fake.nodes, key ∈ w₀.fake.nodes
  gone : ∀ i j m, m ∈ seen → m.id = podFQDN c i j → c'.spec.replicasPerShard < j →
    w.fake.nodes.lookup (podFQDN c i j) = none

theorem Lowers.runs_forgetStaleNodes (h : Lowers c c' owner)
    (hhealthy : Healthy c owner ranges w.fake) (hsets : DesiredSets c' w.kube) :
    Prog.Runs (World.answer order) (fun _ _ => True)
      (fun _ => Forgetting c c' w w.fake.state.nodes) (forgetStaleNodes c' w.fake.state) w := by
  have hlist : (existingPodHosts c').run.run (World.answer order) w =
      (.ok (podHosts c' w.kube.statefulSets), w) :=
    exec_existingPodHosts (World.kubeBacked order) hsets.own
  refine Prog.runs_bind.2 (Prog.runs_iff.2 ⟨?_, fun _ _ => trivial⟩)
  rw [hlist]
  refine Prog.Runs.forM (fun seen m todo hl w₁ hw₁ => ?_)
    ⟨rfl, fun _ _ _ => rfl, fun _ => id, fun _ _ _ hm => absurd hm List.not_mem_nil⟩
  have hmem : m ∈ w.fake.state.nodes := by rw [hl]; simp
  obtain ⟨key, hkey⟩ := mem_state_nodes.1 hmem
  obtain ⟨i, hi, j, -, -, ⟨hid, hhost⟩, -⟩ := hhealthy.of_lookup hkey
  have hwant : m.host ∈ podHosts c' w.kube.statefulSets ↔ j ≤ c'.spec.replicasPerShard := by
    rw [mem_podHosts hsets.own, hhost, h.pods]
    constructor
    · intro ⟨i', j', _, hj', heq⟩
      rw [(podFQDN_inj heq).2]
      exact hj'
    · exact fun hj => ⟨i, j, (hsets.hasSet i).2 (h.shards ▸ hi), hj, rfl⟩
  split
  · next hstale =>
      have hj : ¬ j ≤ c'.spec.replicasPerShard := fun hj => hstale.2 (hwant.2 hj)
      refine (runs_forgetEverywhere_gone (h.shards ▸ Nat.zero_lt_of_lt hi)).mono ?_
      intro _ w₂ ⟨hrest, hnone, hother⟩
      rw [hid] at hnone hother
      refine ⟨?_, fun i' j' hj' => ?_, fun key hkey => ?_, fun i' j' m' hm' hid' hj' => ?_⟩
      · rw [hrest, hw₁.rest]
      · rw [← hw₁.kept i' j' hj']
        exact hother _ fun heq => hj ((podFQDN_inj heq).2 ▸ hj')
      · refine hw₁.only key ?_
        rw [← AList.lookup_isSome] at hkey ⊢
        by_cases heq : key = podFQDN c i j
        · rw [heq, hnone] at hkey
          cases hkey
        · rwa [hother key heq] at hkey
      · by_cases heq : podFQDN c i' j' = podFQDN c i j
        · rw [heq]
          exact hnone
        · rw [hother _ heq]
          refine hw₁.gone i' j' m' ((List.mem_append.1 hm').resolve_right fun hm => heq ?_) hid' hj'
          rw [← hid', List.mem_singleton.1 hm, hid]
  · next hkept =>
      have hj : j ≤ c'.spec.replicasPerShard := by
        by_contra hj
        refine hkept ⟨?_, fun hhosts => hj (hwant.1 hhosts)⟩
        rw [hhost]
        exact podFQDN_ne_empty c i j
      refine Prog.runs_pure.2 ⟨hw₁.rest, hw₁.kept, hw₁.only, fun i' j' m' hm' hid' hj' => ?_⟩
      refine hw₁.gone i' j' m' ((List.mem_append.1 hm').resolve_right fun hm => ?_) hid' hj'
      rw [List.mem_singleton.1 hm, hid] at hid'
      have hjj := (podFQDN_inj hid').2
      omega

/-- What is left is a healthy cluster for the new spec. -/
theorem Forgetting.healthy {w' : World} (hw' : Forgetting c c' w w.fake.state.nodes w')
    (h : Lowers c c' owner) (hhealthy : Healthy c owner ranges w.fake) :
    Healthy c' owner ranges w'.fake where
  owner_le := h.shards ▸ h.owner_le
  serving := h.shards ▸ hhealthy.serving
  total := h.shards ▸ hhealthy.total
  pod := by
    intro i hi j hj
    obtain ⟨m, hm, hrole⟩ := hhealthy.pod i (h.shards ▸ hi) j (hj.trans h.le)
    rw [← hw'.kept i j hj, ← h.pods] at hm
    refine ⟨m, hm, ?_⟩
    unfold InShard Follower
    rw [h.pods]
    exact hrole
  only := by
    intro key hkey
    obtain ⟨i, hi, j, -, rfl⟩ := hhealthy.only key (hw'.only key hkey)
    refine ⟨i, h.shards ▸ hi, j, ?_, by rw [h.pods]⟩
    by_contra hj
    obtain ⟨m, hm⟩ := Option.isSome_iff_exists.1 (AList.lookup_isSome.2 (hw'.only _ hkey))
    have hgone := hw'.gone i j m (mem_state_nodes.2 ⟨_, hm⟩) (hhealthy.named hm).1 (by omega)
    rw [← AList.lookup_isSome, hgone] at hkey
    cases hkey

/-! ## A pass -/

theorem Lowers.mends (h : Lowers c c' owner) (order : RangeOrders)
    (hhealthy : Healthy c owner ranges w.fake) (hsets : DesiredSets c' w.kube) :
    Mends order c' owner ranges w := by
  by_cases hhealthy' : Healthy c' owner ranges w.fake
  · exact mends_of_sharded order hhealthy'.loose hsets
  intro k hk
  have hmet : Succeeds (World.answer order) (fun _ _ => True) (fun _ => (· = w.putKube k))
      ((allEndpoints c').forM fun ep =>
        if ep.host ∈ hostIndex w.fake.state then pure () else Admin.meet (seed c') ep)
      (w.putKube k) := by
    refine Succeeds.forM_inv (fun ep hep w₁ hw₁ => ?_) rfl
    obtain ⟨i, hi, j, hj, rfl⟩ := mem_allEndpoints.1 hep
    obtain ⟨m, hm, -⟩ := hhealthy.pod i (h.shards ▸ hi) j (hj.trans h.le)
    rw [if_pos]
    · exact succeeds_pure.2 hw₁
    · refine AList.lookup_isSome.1 ?_
      rw [hhealthy.lookup_hostIndex, endpoint_host, h.pods, hm]
      rfl
  have hrun : Succeeds (World.answer order) (fun _ _ => True)
      (fun _ => Forgetting c c' (w.putKube k) w.fake.state.nodes)
      (reconcileMembership c' w.fake.state) (w.putKube k) := by
    refine succeeds_bind.2 (hmet.mono ?_)
    intro _ w₁ hw₁
    subst hw₁
    refine succeeds_bind.2 ((h.succeeds_attachReplicas (w := w.putKube k) hhealthy).mono ?_)
    intro _ w₂ hw₂
    subst hw₂
    exact succeeds_lift.2 (h.runs_forgetStaleNodes (w := w.putKube k) hhealthy
      (hsets.of_same hk))
  obtain ⟨_, w', hexec, hw'⟩ := hrun.exec
  exact ⟨w', hexec, hw'.rest, hw'.healthy (w := w.putKube k) h hhealthy,
    fun hhealthy'' => absurd hhealthy'' hhealthy'⟩

/-- One pass meets the new spec. -/
theorem Lowers.exec_reconcileCluster (h : Lowers c c' owner) (order : RangeOrders)
    (hhealthy : Healthy c owner ranges w.fake) (hc : w.kube.cluster = some c')
    (hsets : DesiredSets c' w.kube) :
    ∃ w' c₁, exec (World.answer order) (reconcileCluster c') w = (.ok false, w') ∧
      AtRest owner ranges w' c₁ ∧ SameCluster c' c₁ ∧ SameWorkloads w.kube w'.kube := by
  obtain ⟨hformed, hcovered, hcount⟩ := hhealthy.summarize
  obtain ⟨w', c₁, hexec, hrest, hsame, hwork, -⟩ := (h.mends order hhealthy hsets).reconcileCluster
    hc hsets hformed hcovered (hcount.trans h.shards.symm)
  exact ⟨w', c₁, hexec, hrest, hsame, hwork⟩

end

end Valkeyop.Controller
