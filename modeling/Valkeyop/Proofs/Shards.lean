import Valkeyop.Proofs.Wiring

/-!
# A cluster of the desired pods

The shape of the cluster between two topology changes: the nodes are the pods of the
spec, and each shard has one that owns slots. After a failover the owner need not be
the first pod of its shard, and the other pods need not follow it yet; what they
follow, if anything, is a pod of the same shard.

Everything the controller reads off such a cluster, but for the number of replicas,
depends on the owners only.
-/

namespace Valkeyop.Controller

open Valkeyop.Lib Valkeyop.Cluster Valkeyop.Api Valkeyop.Resources

/-- How many slots some ranges list. -/
def slotsIn (ranges : List SlotRange) : Int := (ranges.map SlotRange.size).sum

/-- The record of pod `j` of shard `i`: the owner is a primary with the slots of the
shard, the others have none and are as `Rest` says. -/
def InShard (cr : ValkeyCluster) (owner : Nat → Nat) (ranges : Nat → List SlotRange)
    (Rest : Nat → Nat → NodeInfo → Prop) (i j : Nat) (m : NodeInfo) : Prop :=
  (m.id = podFQDN cr i j ∧ m.host = podFQDN cr i j) ∧
    if j = owner i then m.masterID = "" ∧ m.slots = ranges i else m.slots = [] ∧ Rest i j m

/-- The nodes are the desired pods, and the slots are with one owner in each shard. -/
structure Sharded (cr : ValkeyCluster) (owner : Nat → Nat) (ranges : Nat → List SlotRange)
    (Rest : Nat → Nat → NodeInfo → Prop) (f : Fake) : Prop where
  owner_le : ∀ i < cr.spec.shards, owner i ≤ cr.spec.replicasPerShard
  serving : ∀ i < cr.spec.shards, 0 < slotsIn (ranges i)
  total : ∑ i ∈ Finset.range cr.spec.shards, slotsIn (ranges i) = totalSlots
  pod : ∀ i < cr.spec.shards, ∀ j ≤ cr.spec.replicasPerShard, ∃ m,
    f.nodes.lookup (podFQDN cr i j) = some m ∧ InShard cr owner ranges Rest i j m
  only : ∀ key ∈ f.nodes, ∃ i < cr.spec.shards, ∃ j ≤ cr.spec.replicasPerShard,
    key = podFQDN cr i j

/-- A primary without slots, or a replica of another pod of the shard. -/
def Loose (cr : ValkeyCluster) (i j : Nat) (m : NodeInfo) : Prop :=
  m.masterID = "" ∨ m.isPrimary = false ∧ ∃ k, k ≠ j ∧ m.masterID = podFQDN cr i k

/-- A replica of the owner. -/
def Follower (cr : ValkeyCluster) (owner : Nat → Nat) (i : Nat) (_ : Nat) (m : NodeInfo) :
    Prop :=
  m.isPrimary = false ∧ m.masterID = podFQDN cr i (owner i)

/-- Every pod that is not an owner follows the one of its shard. -/
abbrev Healthy (cr : ValkeyCluster) (owner : Nat → Nat) (ranges : Nat → List SlotRange)
    (f : Fake) : Prop :=
  Sharded cr owner ranges (Follower cr owner) f

section

variable {cr : ValkeyCluster} {owner : Nat → Nat} {ranges : Nat → List SlotRange}
  {Rest Rest' : Nat → Nat → NodeInfo → Prop} {f : Fake} {key : String} {m : NodeInfo}
  {i j : Nat}

theorem slotsIn_slots (m : NodeInfo) : slotsIn m.slots = m.slotCount := rfl

theorem isPrimary_of_masterID (hm : m.masterID = "") : m.isPrimary = true := by
  simp [NodeInfo.isPrimary, hm]

theorem InShard.primary (h : InShard cr owner ranges Rest i j m) (hj : j = owner i) :
    m.masterID = "" ∧ m.slots = ranges i := by
  have hrole := h.2
  rwa [if_pos hj] at hrole

theorem InShard.rest (h : InShard cr owner ranges Rest i j m) (hj : j ≠ owner i) :
    m.slots = [] ∧ Rest i j m := by
  have hrole := h.2
  rwa [if_neg hj] at hrole

theorem inShard_owner (hnamed : m.id = podFQDN cr i j ∧ m.host = podFQDN cr i j)
    (hj : j = owner i) (hmaster : m.masterID = "") (hslots : m.slots = ranges i) :
    InShard cr owner ranges Rest i j m :=
  ⟨hnamed, by rw [if_pos hj]; exact ⟨hmaster, hslots⟩⟩

theorem inShard_rest (hnamed : m.id = podFQDN cr i j ∧ m.host = podFQDN cr i j)
    (hj : j ≠ owner i) (hslots : m.slots = []) (hrest : Rest i j m) :
    InShard cr owner ranges Rest i j m :=
  ⟨hnamed, by rw [if_neg hj]; exact ⟨hslots, hrest⟩⟩

namespace Sharded

/-- Pods that all have been given new records. -/
theorem renew {owner' : Nat → Nat} {f' : Fake} (h : Sharded cr owner ranges Rest f)
    (howner : ∀ i < cr.spec.shards, owner' i ≤ cr.spec.replicasPerShard)
    (hpod : ∀ i < cr.spec.shards, ∀ j ≤ cr.spec.replicasPerShard, ∀ m,
      f.nodes.lookup (podFQDN cr i j) = some m → InShard cr owner ranges Rest i j m →
      ∃ m', f'.nodes.lookup (podFQDN cr i j) = some m' ∧
        InShard cr owner' ranges Rest' i j m')
    (honly : ∀ key ∈ f'.nodes, key ∈ f.nodes) : Sharded cr owner' ranges Rest' f' where
  owner_le := howner
  serving := h.serving
  total := h.total
  pod := fun i hi j hj => by
    obtain ⟨m, hm, hrole⟩ := h.pod i hi j hj
    exact hpod i hi j hj m hm hrole
  only := fun key hkey => h.only key (honly key hkey)

theorem mono (h : Sharded cr owner ranges Rest f)
    (hrest : ∀ i < cr.spec.shards, ∀ j ≤ cr.spec.replicasPerShard, j ≠ owner i → ∀ m,
      f.nodes.lookup (podFQDN cr i j) = some m → Rest i j m → Rest' i j m) :
    Sharded cr owner ranges Rest' f := by
  refine h.renew h.owner_le (fun i hi j hj m hm hrole => ⟨m, hm, ?_⟩) fun _ => id
  by_cases howner : j = owner i
  · obtain ⟨hmaster, hslots⟩ := hrole.primary howner
    exact inShard_owner hrole.1 howner hmaster hslots
  · exact inShard_rest hrole.1 howner (hrole.rest howner).1
      (hrest i hi j hj howner m hm (hrole.rest howner).2)

/-- Whatever is found is the record of a desired pod. -/
theorem of_lookup (h : Sharded cr owner ranges Rest f) (hm : f.nodes.lookup key = some m) :
    ∃ i < cr.spec.shards, ∃ j ≤ cr.spec.replicasPerShard, key = podFQDN cr i j ∧
      InShard cr owner ranges Rest i j m := by
  obtain ⟨i, hi, j, hj, rfl⟩ := h.only key (AList.lookup_isSome.1 (by rw [hm]; rfl))
  obtain ⟨m', hm', hrole⟩ := h.pod i hi j hj
  obtain rfl : m = m' := Option.some.inj (hm.symm.trans hm')
  exact ⟨i, hi, j, hj, rfl, hrole⟩

theorem inShard (h : Sharded cr owner ranges Rest f)
    (hm : f.nodes.lookup (podFQDN cr i j) = some m) : InShard cr owner ranges Rest i j m := by
  obtain ⟨i', -, j', -, hkey, hrole⟩ := h.of_lookup hm
  obtain ⟨rfl, rfl⟩ := podFQDN_inj hkey
  exact hrole

theorem named (h : Sharded cr owner ranges Rest f) (hm : f.nodes.lookup key = some m) :
    m.id = key ∧ m.host = key := by
  obtain ⟨i, -, j, -, rfl, hrole⟩ := h.of_lookup hm
  exact hrole.1

theorem owner_lookup (h : Sharded cr owner ranges Rest f) (hi : i < cr.spec.shards) :
    ∃ m, f.nodes.lookup (podFQDN cr i (owner i)) = some m ∧ m.masterID = "" ∧
      m.slots = ranges i := by
  obtain ⟨m, hm, hrole⟩ := h.pod i hi (owner i) (h.owner_le i hi)
  exact ⟨m, hm, hrole.primary rfl⟩

theorem lookup_byID (h : Sharded cr owner ranges Rest f) (key : String) :
    (byID f.state).lookup key = f.nodes.lookup key :=
  lookup_indexBy_state (fun hm => (h.named hm).1) key

theorem lookup_hostIndex (h : Sharded cr owner ranges Rest f) (key : String) :
    (hostIndex f.state).lookup key = f.nodes.lookup key :=
  lookup_indexBy_state (fun hm => (h.named hm).2) key

/-! ## Slots -/

/-- Who owns slots is an owner. -/
theorem ownsSlots_iff (h : Sharded cr owner ranges Rest f) (hi : i < cr.spec.shards)
    (hm : f.nodes.lookup (podFQDN cr i j) = some m) : ownsSlots m = true ↔ j = owner i := by
  have hrole := h.inShard hm
  rw [Controller.ownsSlots_iff]
  by_cases hj : j = owner i
  · obtain ⟨hmaster, hslots⟩ := hrole.primary hj
    have hcount := h.serving i hi
    rw [← hslots, slotsIn_slots] at hcount
    exact ⟨fun _ => hj, fun _ => ⟨isPrimary_of_masterID hmaster, hcount⟩⟩
  · have hcount : m.slotCount = 0 := by rw [NodeInfo.slotCount, (hrole.rest hj).1]; rfl
    exact ⟨fun howns => absurd howns.2 (by omega), fun heq => absurd heq hj⟩

/-- A sum over the nodes, of something only nodes with slots have, is one over the
owners. -/
theorem sum_entries {M : Type} [AddCommMonoid M] (h : Sharded cr owner ranges Rest f)
    (φ : NodeInfo → M) (ψ : Nat → M) (hφ : ∀ m, m.slots = [] → φ m = 0)
    (hψ : ∀ i < cr.spec.shards, ∀ m, m.masterID = "" → m.slots = ranges i → φ m = ψ i) :
    (f.nodes.entries.map fun e => φ e.2).sum = ∑ i ∈ Finset.range cr.spec.shards, ψ i := by
  have hsupport : ∀ key m, f.nodes.lookup key = some m → φ m ≠ 0 →
      key ∈ (Finset.range cr.spec.shards).image fun i => podFQDN cr i (owner i) := by
    intro key m hm hne
    obtain ⟨i, hi, j, -, rfl, hrole⟩ := h.of_lookup hm
    by_cases hj : j = owner i
    · exact Finset.mem_image.2 ⟨i, Finset.mem_range.2 hi, by rw [hj]⟩
    · exact absurd (hφ m (hrole.rest hj).1) hne
  rw [Lib.sum_entries hsupport, Finset.sum_image fun i _ j _ hij => (podFQDN_inj hij).1]
  refine Finset.sum_congr rfl fun i hi => ?_
  obtain ⟨m, hm, hmaster, hslots⟩ := h.owner_lookup (Finset.mem_range.1 hi)
  rw [entryValue, hm]
  exact hψ i (Finset.mem_range.1 hi) m hmaster hslots

theorem assignedSlots (h : Sharded cr owner ranges Rest f) : f.assignedSlots = totalSlots := by
  rw [Fake.assignedSlots, h.sum_entries NodeInfo.slotCount (fun i => slotsIn (ranges i)) ?_ ?_,
    h.total]
  · intro m hslots
    rw [NodeInfo.slotCount, hslots]
    rfl
  · intro i _ m _ hslots
    rw [← slotsIn_slots, hslots]

theorem countP_ownsSlots (h : Sharded cr owner ranges Rest f) :
    f.state.nodes.countP ownsSlots = cr.spec.shards := by
  have hsum := h.sum_entries (fun m => if ownsSlots m then 1 else 0) (fun _ => 1) ?_ ?_
  · rw [Finset.sum_const, Finset.card_range, nsmul_eq_mul, Nat.mul_one, Nat.cast_id] at hsum
    rw [← hsum]
    change (List.mergeSort _ _).countP _ = _
    rw [(List.mergeSort_perm _ _).countP_eq, List.countP_map, countP_eq_sum]
    rfl
  · intro m hslots
    have hcount : m.slotCount = 0 := by rw [NodeInfo.slotCount, hslots]; rfl
    simp [ownsSlots, hcount]
  · intro i hi m hmaster hslots
    have hcount := h.serving i hi
    rw [← hslots, slotsIn_slots] at hcount
    rw [if_pos (Controller.ownsSlots_iff.2 ⟨isPrimary_of_masterID hmaster, hcount⟩)]

/-! ## What the controller reads -/

theorem summarize (h : Sharded cr owner ranges Rest f) :
    (summarize cr f.state).formed = true ∧ (summarize cr f.state).slotsCovered = true ∧
      (summarize cr f.state).primaryCount = cr.spec.shards := by
  have hentries : 0 < f.nodes.entries.length := by
    by_contra hnone
    have hnil : f.nodes.entries = [] := List.eq_nil_of_length_eq_zero (by omega)
    have hassigned := h.assignedSlots
    rw [Fake.assignedSlots, hnil] at hassigned
    exact absurd hassigned (by decide)
  refine ⟨?_, ?_, ?_⟩
  · change (decide _ && decide _) = true
    rw [h.assignedSlots, decide_eq_true hentries]
    rfl
  · change ((f.assignedSlots == totalSlots) && !false) = true
    rw [h.assignedSlots]
    rfl
  · change (f.state.nodes.filter ownsSlots).length = _
    rw [← List.countP_eq_length_filter, h.countP_ownsSlots]

theorem readyShards (h : Sharded cr owner ranges Rest f) :
    readyShards cr f.state = cr.spec.shards := by
  have hall : ∀ i ∈ List.range cr.spec.shards, (shardPrimary cr f.state i).isSome = true := by
    intro i hi
    have hi := List.mem_range.1 hi
    obtain ⟨m, hm, -⟩ := h.owner_lookup hi
    rw [shardPrimary, List.find?_isSome]
    refine ⟨m, List.mem_reverse.2 (List.mem_filterMap.2 ⟨owner i, ?_, ?_⟩), ?_⟩
    · exact List.mem_range.2 (Nat.lt_succ_of_le (h.owner_le i hi))
    · rw [h.lookup_hostIndex, hm]
    · exact (h.ownsSlots_iff hi hm).2 rfl
  rw [Controller.readyShards, List.countP_eq_length.2 hall, List.length_range]

theorem allReady (h : Sharded cr owner ranges Rest f) : allReady cr f.state = true := by
  have hcovered : f.state.slotsCovered = true := by
    change (f.assignedSlots == totalSlots) = true
    rw [h.assignedSlots]
    rfl
  simp only [Controller.allReady, h.readyShards, actualShards, h.countP_ownsSlots, hcovered,
    beq_self_eq_true, Bool.and_true, Bool.true_and]
  rfl

end Sharded

/-! ## Replicas -/

/-- The owner of each shard has the others for replicas. -/
theorem Healthy.replicaByPrimary (h : Healthy cr owner ranges f) (hi : i < cr.spec.shards) :
    replicaByPrimary f.state (podFQDN cr i (owner i)) = cr.spec.replicasPerShard := by
  let counts (m : NodeInfo) : Bool :=
    !m.isPrimary && m.masterID != "" && m.masterID == podFQDN cr i (owner i)
  have hcounts : ∀ {i' j' m}, f.nodes.lookup (podFQDN cr i' j') = some m →
      (counts m = true ↔ i' = i ∧ j' ≠ owner i) := by
    intro i' j' m hm
    have hrole := h.inShard hm
    simp only [counts, Bool.and_eq_true, Bool.not_eq_true', bne_iff_ne, beq_iff_eq]
    by_cases hj : j' = owner i'
    · obtain ⟨hmaster, -⟩ := hrole.primary hj
      exact ⟨fun hc => absurd hmaster hc.1.2, fun hc => absurd hj (hc.1 ▸ hc.2)⟩
    · obtain ⟨-, hreplica, hmaster⟩ := hrole.rest hj
      rw [hmaster]
      refine ⟨fun hc => ?_, fun hc => ⟨⟨hreplica, podFQDN_ne_empty cr i' _⟩, by rw [hc.1]⟩⟩
      obtain rfl := (podFQDN_inj hc.2).1
      exact ⟨rfl, hj⟩
  have hsupport : ∀ key m, f.nodes.lookup key = some m → (if counts m then 1 else 0) ≠ 0 →
      key ∈ ((Finset.range (cr.spec.replicasPerShard + 1)).erase (owner i)).image
        (podFQDN cr i) := by
    intro key m hm hne
    obtain ⟨i', -, j', hj', rfl, -⟩ := h.of_lookup hm
    have hc : counts m = true := by
      by_contra hc
      exact hne (if_neg hc)
    obtain ⟨rfl, hj⟩ := (hcounts hm).1 hc
    exact Finset.mem_image_of_mem _
      (Finset.mem_erase.2 ⟨hj, Finset.mem_range.2 (Nat.lt_succ_of_le hj')⟩)
  have howner : owner i ∈ Finset.range (cr.spec.replicasPerShard + 1) :=
    Finset.mem_range.2 (Nat.lt_succ_of_le (h.owner_le i hi))
  change (List.mergeSort _ _).countP counts = _
  rw [(List.mergeSort_perm _ _).countP_eq, List.countP_map, countP_eq_sum]
  change (f.nodes.entries.map fun e => if counts e.2 then 1 else 0).sum = _
  rw [Lib.sum_entries (φ := fun m => if counts m then 1 else 0) hsupport,
    Finset.sum_image fun j _ j' _ hjj => (podFQDN_inj hjj).2,
    Finset.sum_eq_card_nsmul (b := 1) ?_, Finset.card_erase_of_mem howner, Finset.card_range]
  · simp
  · intro j hj
    obtain ⟨hne, hj⟩ := Finset.mem_erase.1 hj
    obtain ⟨m, hm, -⟩ := h.pod i hi j (Nat.lt_succ_iff.1 (Finset.mem_range.1 hj))
    rw [entryValue, hm]
    exact if_pos ((hcounts hm).2 ⟨rfl, hne⟩)

/-- There is nothing to be done for a healthy cluster. -/
theorem Healthy.decide (h : Healthy cr owner ranges f) :
    Topology.decide (desired cr) (Controller.summarize cr f.state) = { kind := .none } := by
  obtain ⟨hformed, hcovered, hcount⟩ := h.summarize
  have hreplicas : (Controller.summarize cr f.state).replicaCounts.any
      (· != cr.spec.replicasPerShard) = false := by
    rw [List.any_eq_false]
    intro k hk
    obtain ⟨m, hm, rfl⟩ := List.mem_map.1 hk
    obtain ⟨hm, howns⟩ := List.mem_filter.1 hm
    obtain ⟨key, hkey⟩ := mem_state_nodes.1 hm
    obtain ⟨i, hi, j, -, rfl, -⟩ := h.of_lookup hkey
    obtain rfl := (h.ownsSlots_iff hi hkey).1 howns
    rw [(h.named hkey).1, h.replicaByPrimary hi]
    simp
  simp only [Topology.decide, hformed, hcovered, hcount, hreplicas, desired, Bool.not_true,
    Bool.false_eq_true, if_false, gt_iff_lt, lt_irrefl]

end

end Valkeyop.Controller
