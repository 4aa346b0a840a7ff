import Valkeyop.Proofs.Healing

/-!
# Forming a cluster, and leaving it alone

One pass over an empty cluster meets all pods, deals the slots to the first pod of
each shard and attaches the others. What it leaves behind is found healthy by the code
that looks after membership, so no later pass does anything to it.
-/

namespace Valkeyop.Controller

open Valkeyop.Lib Valkeyop.Lib.Fallible Valkeyop.Cluster Valkeyop.Api Valkeyop.Resources

/-- The slots shard `i` of `n` is formed with. -/
def dealtRanges (n i : Nat) : List SlotRange := (Slots.distribute n)[i]?.toList

/-- The cluster while it is formed: the nodes are desired pods and primaries, and the
first `k` shards have their slots. -/
def Forming (cr : ValkeyCluster) (k : Nat) (f : Fake) : Prop :=
  ∀ key m, f.nodes.lookup key = some m →
    ∃ i < cr.spec.shards, ∃ j ≤ cr.spec.replicasPerShard, key = podFQDN cr i j ∧
      (m.id = key ∧ m.host = key) ∧ m.masterID = "" ∧
      m.slots = if j = 0 ∧ i < k then dealtRanges cr.spec.shards i else []

section

variable {cr c : ValkeyCluster} {order : RangeOrders} {w w' : World} {f : Fake} {i j k : Nat}

/-! ## Meeting and dealing -/

theorem forming_empty (cr : ValkeyCluster) : Forming cr 0 .empty := fun _ _ hm => nomatch hm

theorem mem_ensure_of_mem {key : String} (e : Endpoint) (hkey : key ∈ f.nodes) :
    key ∈ (f.ensure e).nodes := by
  unfold Fake.ensure
  split
  · exact hkey
  · exact (AList.mem_insert _).2 (.inr hkey)

theorem Forming.ensure (h : Forming cr k f) (hi : i < cr.spec.shards)
    (hj : j ≤ cr.spec.replicasPerShard) (hnew : ¬ (j = 0 ∧ i < k)) :
    Forming cr k (f.ensure (endpoint cr i j)) := by
  intro key m hm
  by_cases hkey : key = podFQDN cr i j
  · subst hkey
    rw [← endpoint_host, lookup_ensure_self, Option.some.injEq, endpoint_host] at hm
    cases hold : f.nodes.lookup (podFQDN cr i j) with
    | some m' =>
        rw [hold] at hm
        obtain rfl : m' = m := hm
        exact h _ m' hold
    | none =>
        rw [hold] at hm
        obtain rfl : Fake.newNode (endpoint cr i j) = m := hm
        exact ⟨i, hi, j, hj, rfl, ⟨rfl, rfl⟩, rfl, by rw [if_neg hnew]; rfl⟩
  · rw [lookup_ensure_ne hkey] at hm
    exact h key m hm

/-- Dealing shard `k` its slots. -/
theorem Forming.addSlots (h : Forming cr k f) (hk : k < cr.spec.shards) {r : SlotRange}
    (hr : dealtRanges cr.spec.shards k = [r]) :
    Forming cr (k + 1) (f.addSlots (endpoint cr k 0) [r]) := by
  have h' := h.ensure hk (Nat.zero_le _) (by omega : ¬ (0 = 0 ∧ k < k))
  intro key m hm
  unfold Fake.addSlots at hm
  rw [endpoint_host] at hm
  by_cases hkey : key = podFQDN cr k 0
  · subst hkey
    rw [lookup_modify_self] at hm
    obtain ⟨m', hm', rfl⟩ := Option.map_eq_some_iff.1 hm
    obtain ⟨i, hi, j, hj, hkey, hnamed, -, hslots⟩ := h' _ m' hm'
    obtain ⟨rfl, rfl⟩ := podFQDN_inj hkey
    refine ⟨k, hk, 0, hj, rfl, hnamed, rfl, ?_⟩
    show m'.slots ++ [r] = _
    rw [hslots, if_neg (by omega), if_pos (by omega), hr]
    rfl
  · rw [lookup_modify_ne hkey] at hm
    obtain ⟨i, hi, j, hj, rfl, hnamed, hmaster, hslots⟩ := h' key m hm
    refine ⟨i, hi, j, hj, rfl, hnamed, hmaster, hslots.trans ?_⟩
    have hne : ¬ (j = 0 ∧ i = k) := fun ⟨hj, hi⟩ => hkey (by rw [hj, hi])
    have hiff : (j = 0 ∧ i < k) ↔ (j = 0 ∧ i < k + 1) := by omega
    simp only [hiff]

/-! ## The slots that are dealt -/

theorem dealtRanges_eq {n : Nat} (hi : i < n) :
    dealtRanges n i = [⟨(i : Int) * totalSlots / n, ((i : Int) + 1) * totalSlots / n - 1⟩] := by
  rw [dealtRanges, Slots.getElem?_distribute hi]
  rfl

theorem slotsIn_dealtRanges {n : Nat} (hi : i < n) :
    slotsIn (dealtRanges n i) = Placement.share n i := by
  rw [dealtRanges_eq hi, slotsIn, List.map_singleton, List.sum_singleton, size_distribute]

/-- Once every desired pod is there and the slots are dealt. -/
theorem Forming.sharded (h : Forming cr cr.spec.shards f) (hn : 0 < cr.spec.shards)
    (hle : cr.spec.shards ≤ slotSpace)
    (hall : ∀ i < cr.spec.shards, ∀ j ≤ cr.spec.replicasPerShard, podFQDN cr i j ∈ f.nodes) :
    Sharded cr (fun _ => 0) (dealtRanges cr.spec.shards) (Loose cr) f where
  owner_le := fun _ _ => Nat.zero_le _
  serving := fun i hi => by
    rw [slotsIn_dealtRanges hi]
    exact Int.natCast_pos.2 (Placement.share_pos hn hle i)
  total := by
    rw [Finset.sum_congr rfl fun i hi => slotsIn_dealtRanges (Finset.mem_range.1 hi),
      ← Nat.cast_sum, Placement.sum_share, Nat.mul_div_cancel_left _ hn]
    rfl
  pod := fun i hi j hj => by
    obtain ⟨m, hm⟩ := exists_lookup (hall i hi j hj)
    obtain ⟨i', -, j', -, hkey, hnamed, hmaster, hslots⟩ := h _ m hm
    obtain ⟨rfl, rfl⟩ := podFQDN_inj hkey
    refine ⟨m, hm, ?_⟩
    by_cases hfirst : j = 0
    · rw [if_pos ⟨hfirst, hi⟩] at hslots
      exact inShard_owner hnamed hfirst hmaster hslots
    · rw [if_neg fun hc => hfirst hc.1] at hslots
      exact inShard_rest hnamed hfirst hslots (.inl hmaster)
  only := fun key hkey => by
    obtain ⟨m, hm⟩ := exists_lookup hkey
    obtain ⟨i, hi, j, hj, rfl, -⟩ := h key m hm
    exact ⟨i, hi, j, hj, rfl⟩

/-! ## Forming -/

/-- Everybody but the seed is met, by the seed. -/
theorem succeeds_meetAll_forming (h : Forming cr 0 w.fake) (hn : 0 < cr.spec.shards) :
    Succeeds (World.answer order) (fun _ _ => True) (fun _ w' => w' = { w with fake := w'.fake } ∧
        Forming cr 0 w'.fake ∧ ∀ ep ∈ allEndpoints cr, ep.host ≠ (seed cr).host →
          ep.host ∈ w'.fake.nodes)
      ((allEndpoints cr).forM fun ep =>
        if ep.host = (seed cr).host then pure ()
        else wrap ("meet " ++ ep.host) (Admin.meet (seed cr) ep)) w := by
  refine Succeeds.forM (I := fun (done : List Endpoint) (w' : World) =>
    w' = { w with fake := w'.fake } ∧ Forming cr 0 w'.fake ∧
      ∀ ep ∈ done, ep.host ≠ (seed cr).host → ep.host ∈ w'.fake.nodes)
    (fun done ep todo hl w₁ hw₁ => ?_) ⟨rfl, h, by simp⟩
  obtain ⟨hrest, hforming, hmet⟩ := hw₁
  have hep : ep ∈ allEndpoints cr := by simp [hl]
  split
  · next hseed =>
      refine succeeds_pure.2 ⟨hrest, hforming, fun ep' hep' hne => ?_⟩
      rcases List.mem_append.1 hep' with hdone | hlast
      · exact hmet ep' hdone hne
      · rw [List.mem_singleton.1 hlast] at hne
        exact absurd hseed hne
  · obtain ⟨i, hi, j, hj, rfl⟩ := mem_allEndpoints.1 hep
    refine succeeds_wrap _ ((Prog.runs_op (c := Call.admin (.meet ..))).2 ⟨trivial, ?_⟩)
    refine ⟨by rw [hrest]; rfl, ?_, fun ep' hep' hne => ?_⟩
    · exact (hforming.ensure hn (Nat.zero_le _) (by omega)).ensure hi hj (by omega)
    · rcases List.mem_append.1 hep' with hdone | hlast
      · exact mem_ensure_of_mem _ (mem_ensure_of_mem _ (hmet ep' hdone hne))
      · rw [List.mem_singleton.1 hlast]
        exact mem_ensure _ _

theorem mem_addSlots_of_mem {key : String} (e : Endpoint) (r : List SlotRange)
    (hkey : key ∈ f.nodes) : key ∈ (f.addSlots e r).nodes :=
  mem_modify.2 (mem_ensure_of_mem e hkey)

theorem succeeds_deal_forming (h : Forming cr 0 w.fake) :
    Succeeds (World.answer order) (fun _ _ => True) (fun _ w' => w' = { w with fake := w'.fake } ∧
        Forming cr cr.spec.shards w'.fake ∧ (∀ key ∈ w.fake.nodes, key ∈ w'.fake.nodes) ∧
        ∀ i < cr.spec.shards, podFQDN cr i 0 ∈ w'.fake.nodes)
      ((Slots.distribute cr.spec.shards).zipIdx.forM fun (r, i) =>
        wrap ("addslots shard " ++ toString i) (Admin.addSlots (endpoint cr i 0) [r])) w := by
  have hlength : (Slots.distribute cr.spec.shards).zipIdx.length = cr.spec.shards := by
    rw [List.length_zipIdx, Slots.length_distribute]
  refine (Succeeds.forM (I := fun done w' => w' = { w with fake := w'.fake } ∧
    Forming cr done.length w'.fake ∧ (∀ key ∈ w.fake.nodes, key ∈ w'.fake.nodes) ∧
    ∀ i < done.length, podFQDN cr i 0 ∈ w'.fake.nodes) (fun done x todo hl w₁ hw₁ => ?_)
    ⟨rfl, h, fun _ => id, by simp⟩).mono fun _ w' hw' => ?_
  · obtain ⟨hrest, hforming, hkept, hdealt⟩ := hw₁
    have hx : (Slots.distribute cr.spec.shards).zipIdx[done.length]? = some x := by
      rw [hl]
      simp
    have hlt : done.length < cr.spec.shards := by
      rw [← hlength, hl]
      simp
    rw [List.getElem?_zipIdx, Nat.zero_add] at hx
    obtain ⟨r, hr, rfl⟩ := Option.map_eq_some_iff.1 hx
    have hranges : dealtRanges cr.spec.shards done.length = [r] := by
      rw [dealtRanges, hr]
      rfl
    refine succeeds_wrap _ ((Prog.runs_op (c := Call.admin (.addSlots ..))).2 ⟨trivial, ?_⟩)
    refine ⟨by rw [hrest]; rfl, ?_, fun key hkey => ?_, fun i hi => ?_⟩
    · rw [List.length_append]
      exact hforming.addSlots hlt hranges
    · exact mem_addSlots_of_mem _ _ (hkept key hkey)
    · rw [List.length_append, List.length_singleton] at hi
      by_cases hlast : i = done.length
      · rw [hlast]
        exact mem_modify.2 (mem_ensure _ _)
      · exact mem_addSlots_of_mem _ _ (hdealt i (by omega))
  · rw [hlength] at hw'
    exact hw'

theorem succeeds_formCluster_empty (order : RangeOrders) (hempty : w.fake = .empty)
    (hn : 0 < cr.spec.shards) (hle : cr.spec.shards ≤ slotSpace) :
    Succeeds (World.answer order) (fun _ _ => True) (fun _ w' => w' = { w with fake := w'.fake } ∧
        Healthy cr (fun _ => 0) (dealtRanges cr.spec.shards) w'.fake)
      (formCluster cr) w := by
  have hstart : Forming cr 0 w.fake := hempty ▸ forming_empty cr
  refine succeeds_bind.2 ((succeeds_meetAll_forming hstart hn).mono ?_)
  intro _ w₁ ⟨hrest₁, hforming₁, hmet⟩
  refine succeeds_bind.2 ((succeeds_deal_forming hforming₁).mono ?_)
  intro _ w₂ ⟨hrest₂, hforming₂, hkept, hdealt⟩
  have hall : ∀ i < cr.spec.shards, ∀ j ≤ cr.spec.replicasPerShard,
      podFQDN cr i j ∈ w₂.fake.nodes := by
    intro i hi j hj
    by_cases hfirst : j = 0
    · rw [hfirst]
      exact hdealt i hi
    · refine hkept _ (hmet (endpoint cr i j) (mem_allEndpoints.2 ⟨i, hi, j, hj, rfl⟩) ?_)
      exact fun heq => hfirst (podFQDN_inj heq).2
  have hobserve : exec (World.answer order) (Admin.state (seed cr)) w₂ =
      (.ok w₂.fake.state, w₂) := rfl
  refine succeeds_bind.2 (succeeds_of_exec hobserve ?_)
  refine (succeeds_attachReplicas_sharded (hforming₂.sharded hn hle hall)).mono ?_
  intro _ w₃ ⟨hrest₃, hhealthy, _⟩
  exact ⟨by rw [hrest₃, hrest₂, hrest₁], hhealthy⟩

/-! ## The pass -/

/-- A pass over an empty cluster forms it and publishes that. -/
theorem exec_reconcileCluster_empty (order : RangeOrders) (hc : w.kube.cluster = some c)
    (hempty : w.fake = .empty) (hsets : DesiredSets c w.kube) (hn : 0 < c.spec.shards)
    (hle : c.spec.shards ≤ slotSpace) :
    ∃ w' c', exec (World.answer order) (reconcileCluster c) w = (.ok true, w') ∧
      AtRest (fun _ => 0) (dealtRanges c.spec.shards) w' c' ∧ SameCluster c c' ∧
      SameWorkloads w.kube w'.kube := by
  have hform : Topology.decide (desired c) (summarize c w.fake.state) = { kind := .form } := by
    rw [hempty]
    rfl
  have hplan := exec_choosePlan (World.kubeBacked order) hsets.own (summarize c w.fake.state)
  rw [chosenPlan_of_none hsets.own fun i => (hsets.hasSet i).1, hform] at hplan
  have hobserve : ∀ context (w : World), exec (World.answer order)
      (wrap context (Admin.state (seed c))) w = (.ok w.fake.state, w) := fun context w =>
    exec_wrap_ok context rfl
  obtain ⟨k, c₁, hannounce, hc₁, hsame₁, hk⟩ := exec_announce order hc .forming "Forming"
    "bootstrapping cluster"
  obtain ⟨_, w₁, hexec, hrest, hhealthy⟩ :=
    (succeeds_formCluster_empty (w := w.putKube k) order hempty hn hle).exec
  have hkube : w₁.kube = k := by rw [hrest]; rfl
  have hsets₁ : DesiredSets c w₁.kube := by
    rw [hkube]
    exact hsets.of_same hk
  have hact : exec (World.answer order) (act c w.fake.state (summarize c w.fake.state) .form) w =
      (.ok (), w₁) := (exec_bind_ok hannounce).trans hexec
  obtain ⟨w₂, c₂, time, hpublish, hatrest, hsame₂, hfake, hsets₂, -⟩ :=
    exec_updateStatus_atRest order (hkube ▸ hc₁) hsame₁ hhealthy hsets₁
  refine ⟨w₂, c₂, ?_, hatrest, hsame₂, hk.trans (hkube ▸ hsets₂)⟩
  rw [reconcileCluster, exec_bind_ok (hobserve _ w), exec_bind_ok hplan, exec_bind_ok hact,
    exec_bind_ok (hobserve _ w₁), exec_bind_ok hpublish, exec_pure]
  rfl

/-- No pass disturbs a cluster at rest. -/
theorem AtRest.iterate {owner : Nat → Nat} {ranges : Nat → List SlotRange}
    (h : AtRest owner ranges w c) (order : RangeOrders) (k : Nat) :
    ∃ c', AtRest owner ranges ((World.clusterPass order)^[k] w) c' ∧ SameCluster c c' ∧
      ((World.clusterPass order)^[k] w).fake = w.fake ∧ c'.status = c.status := by
  induction k with
  | zero => exact ⟨c, h, ⟨rfl, rfl, rfl, rfl⟩, rfl, rfl⟩
  | succ k ih =>
      obtain ⟨c₁, hrest, hsame, hfake, hstatus⟩ := ih
      obtain ⟨c₂, hrest', hsame', hfake', -, hstatus'⟩ := hrest.clusterPass order
      rw [Function.iterate_succ_apply']
      exact ⟨c₂, hrest', hsame.trans hsame', hfake'.trans hfake, hstatus'.trans hstatus⟩

theorem AtRest.plan {owner : Nat → Nat} {ranges : Nat → List SlotRange}
    (h : AtRest owner ranges w c) (order : RangeOrders) :
    exec (World.answer order) (choosePlan c (summarize c w.fake.state)) w =
      (.ok { kind := .none }, w) := by
  rw [exec_choosePlan (World.kubeBacked order) h.sets.own,
    chosenPlan_of_none h.sets.own fun i => (h.sets.hasSet i).1, h.healthy.decide]

/-- The nodes are as many as the desired pods. -/
theorem Sharded.length_keys {owner : Nat → Nat} {ranges : Nat → List SlotRange}
    {Rest : Nat → Nat → NodeInfo → Prop} (h : Sharded cr owner ranges Rest f) :
    f.nodes.keys.length = cr.spec.shards * (1 + cr.spec.replicasPerShard) := by
  have hnodup : ((List.range cr.spec.shards ×ˢ List.range (1 + cr.spec.replicasPerShard)).map
      fun p => podFQDN cr p.1 p.2).Nodup := by
    refine List.Nodup.map (fun p q hpq => ?_) (List.nodup_range.product List.nodup_range)
    exact Prod.ext (podFQDN_inj hpq).1 (podFQDN_inj hpq).2
  have hperm := (List.perm_ext_iff_of_nodup f.nodes.keys_nodup hnodup).2 fun key => by
    rw [← AList.mem_keys, List.mem_map]
    constructor
    · intro hkey
      obtain ⟨i, hi, j, hj, rfl⟩ := h.only key hkey
      refine ⟨(i, j), List.mem_product.2 ⟨List.mem_range.2 hi, List.mem_range.2 ?_⟩, rfl⟩
      show j < 1 + cr.spec.replicasPerShard
      omega
    · intro ⟨p, hp, hkey⟩
      obtain ⟨hi, hj⟩ := List.mem_product.1 hp
      obtain ⟨m, hm, -⟩ := h.pod p.1 (List.mem_range.1 hi) p.2
        (by have := List.mem_range.1 hj; omega)
      exact AList.lookup_isSome.1 (by rw [← hkey, hm]; rfl)
  rw [hperm.length_eq, List.length_map, List.length_product, List.length_range,
    List.length_range]

theorem formation_quiescent (order : RangeOrders) (hc : w.kube.cluster = some c)
    (hempty : w.fake = .empty) (hsets : DesiredSets c w.kube) (hn : 1 ≤ c.spec.shards)
    (hle : c.spec.shards ≤ 16384) :
    ∃ c₁, (w.clusterPass order).kube.cluster = some c₁ ∧ SameCluster c c₁ ∧
      (w.clusterPass order).fake.nodes.keys.length =
        c.spec.shards * (1 + c.spec.replicasPerShard) ∧
      Healthy c (fun _ => 0) (fun i => (Slots.distribute c.spec.shards)[i]?.toList)
        (w.clusterPass order).fake ∧
      c₁.status.phase = some .ready ∧ c₁.status.readyShards = c.spec.shards ∧
      ∀ k, ∃ c₂, ((World.clusterPass order)^[k] (w.clusterPass order)).kube.cluster = some c₂ ∧
        SameCluster c₁ c₂ ∧
        exec (World.answer order)
            (choosePlan c₂ (summarize c₂ (w.clusterPass order).fake.state))
            ((World.clusterPass order)^[k] (w.clusterPass order)) =
          (.ok { kind := .none }, (World.clusterPass order)^[k] (w.clusterPass order)) ∧
        ((World.clusterPass order)^[k] (w.clusterPass order)).fake =
          (w.clusterPass order).fake ∧
        c₂.status = c₁.status := by
  obtain ⟨w₁, c₁, hexec, hrest, hsame, -⟩ :=
    exec_reconcileCluster_empty order hc hempty hsets hn hle
  rw [clusterPass_eq hc hexec]
  have hready := hrest.ready
  have hhealthy : Healthy c (fun _ => 0) (dealtRanges c.spec.shards) w₁.fake :=
    hrest.healthy.congr hsame.symm
  refine ⟨c₁, hrest.stored, hsame, hhealthy.length_keys, hhealthy, hready.1,
    hsame.spec ▸ hready.2, fun k => ?_⟩
  obtain ⟨c₂, hrest₂, hsame₂, hfake, hstatus⟩ := hrest.iterate order k
  refine ⟨c₂, hrest₂.stored, hsame₂, ?_, hfake, hstatus⟩
  have hplan := hrest₂.plan order
  rwa [hfake] at hplan

end

/-- One shard and its replica, from nothing. -/
theorem formation_quiescent_pair :
    ∃ c, (World.clusterPass (fun _ => asWritten) ⟨.empty, .provisioned pair, 0⟩).kube.cluster =
        some c ∧
      c.status.phase = some .ready ∧
      (World.clusterPass (fun _ => asWritten)
        ⟨.empty, .provisioned pair, 0⟩).fake.nodes.keys.length = 2 := by
  obtain ⟨c, hc, -, hlength, -, hphase, -⟩ := formation_quiescent (fun _ => asWritten)
    (w := ⟨.empty, .provisioned pair, 0⟩) (c := pair) rfl rfl desiredSets_pair
    (by decide) (by decide)
  exact ⟨c, hc, hphase, hlength⟩

end Valkeyop.Controller
