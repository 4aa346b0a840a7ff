import Valkeyop.Proofs.Conditions

/-!
# What `Ready` says about the slots

The status looks nodes up by host and takes the last one of a shard that owns
slots; the decision counts owners over the whole cluster; membership dials pods
and takes the first that owns slots. The three agree as soon as `Ready` is
published, because then there are as many owners as shards, each shard has one
among its own pods, and a pod's name tells its shard and its ordinal.
-/

namespace Valkeyop.Controller

open Valkeyop.Lib Valkeyop.Lib.Fallible Valkeyop.Cluster Valkeyop.Api Valkeyop.Resources

section

variable {S : Type} {h : Handler Call Call.Reply S} {s : S} {cr : ValkeyCluster}
  {state : ClusterState}

/-! ## The owners -/

/-- Whatever the map finds is a node with that key. -/
theorem mem_of_lookup_indexBy {key : NodeInfo → String} {nodes : List NodeInfo} {a : String}
    {n : NodeInfo} (h : (indexBy key nodes).lookup a = some n) : n ∈ nodes ∧ key n = a := by
  induction nodes using List.reverseRecOn with
  | nil => simp [indexBy] at h
  | append_singleton nodes x ih =>
      rw [indexBy, List.foldl_append] at h
      by_cases ha : a = key x
      · subst ha
        rw [List.foldl_cons, List.foldl_nil, AList.lookup_insert] at h
        cases h
        simp
      · rw [List.foldl_cons, List.foldl_nil, AList.lookup_insert_ne ha] at h
        obtain ⟨hn, hkey⟩ := ih h
        exact ⟨List.mem_append_left _ hn, hkey⟩

theorem shardPrimary_some {i : Nat} {m : NodeInfo} (hm : shardPrimary cr state i = some m) :
    m ∈ state.nodes ∧ ownsSlots m = true ∧
      ∃ j ≤ cr.spec.replicasPerShard, m.host = podFQDN cr i j := by
  have howns : ownsSlots m = true := List.find?_some hm
  have hmem := List.mem_reverse.1 (List.mem_of_find?_eq_some hm)
  obtain ⟨j, hj, hlookup⟩ := List.mem_filterMap.1 hmem
  obtain ⟨hnode, hhost⟩ := mem_of_lookup_indexBy hlookup
  exact ⟨hnode, howns, j, Nat.lt_succ_iff.1 (List.mem_range.1 hj), hhost⟩

/-- Each shard has one slot-owning primary, among its own pods, and nobody else is one. -/
structure Owners (cr : ValkeyCluster) (state : ClusterState) (owner : Nat → NodeInfo) :
    Prop where
  primary : ∀ i < cr.spec.shards, shardPrimary cr state i = some (owner i)
  host : ∀ i < cr.spec.shards, ∃ j ≤ cr.spec.replicasPerShard,
    (owner i).host = podFQDN cr i j
  bijOn : Set.BijOn owner (Set.Iio cr.spec.shards)
    {m | m ∈ state.nodes ∧ m.isPrimary = true ∧ m.slotCount > 0}

theorem exists_owners (hready : allReady cr state = true) : ∃ owner, Owners cr state owner := by
  simp only [allReady, Bool.and_eq_true, beq_iff_eq] at hready
  obtain ⟨⟨⟨hshards, hactual⟩, -⟩, -⟩ := hready
  -- every shard is counted, so every shard has a primary
  have hall : ∀ i < cr.spec.shards, ∃ m, shardPrimary cr state i = some m := by
    intro i hi
    have hcount : (List.range cr.spec.shards).countP
        (fun i => (shardPrimary cr state i).isSome) = (List.range cr.spec.shards).length := by
      rw [List.length_range]
      exact hshards
    exact Option.isSome_iff_exists.1 (List.countP_eq_length.1 hcount i (List.mem_range.2 hi))
  let owner i := (shardPrimary cr state i).getD .zero
  have howner : ∀ i < cr.spec.shards, shardPrimary cr state i = some (owner i) := by
    intro i hi
    obtain ⟨m, hm⟩ := hall i hi
    simp [owner, hm]
  have hinj : Set.InjOn owner (Set.Iio cr.spec.shards) := by
    intro i hi i' hi' heq
    obtain ⟨-, -, j, -, hhost⟩ := shardPrimary_some (howner i hi)
    obtain ⟨-, -, j', -, hhost'⟩ := shardPrimary_some (howner i' hi')
    rw [heq, hhost'] at hhost
    exact (podFQDN_inj hhost).1.symm
  -- as many owners as shards, and no two shards share one: there is no other
  have hnodup : ((List.range cr.spec.shards).map owner).Nodup := by
    refine List.Nodup.map_on ?_ List.nodup_range
    intro i hi i' hi' heq
    exact hinj (List.mem_range.1 hi) (List.mem_range.1 hi') heq
  have hsub : (List.range cr.spec.shards).map owner ⊆ state.nodes.filter ownsSlots := by
    intro m hm
    obtain ⟨i, hi, rfl⟩ := List.mem_map.1 hm
    obtain ⟨hnode, howns, -⟩ := shardPrimary_some (howner i (List.mem_range.1 hi))
    exact List.mem_filter.2 ⟨hnode, howns⟩
  have hlength : (state.nodes.filter ownsSlots).length ≤
      ((List.range cr.spec.shards).map owner).length := by
    rw [← List.countP_eq_length_filter, List.length_map, List.length_range]
    exact Nat.le_of_eq hactual
  have hperm := (List.subperm_of_subset hnodup hsub).perm_of_length_le hlength
  refine ⟨owner, howner, fun i hi => (shardPrimary_some (howner i hi)).2.2, ?_, hinj, ?_⟩
  · intro i hi
    obtain ⟨hnode, howns, -⟩ := shardPrimary_some (howner i hi)
    exact ⟨hnode, ownsSlots_iff.1 howns⟩
  · intro m hm
    obtain ⟨hnode, howns⟩ := hm
    have hm := hperm.mem_iff.2 (List.mem_filter.2 ⟨hnode, ownsSlots_iff.2 howns⟩)
    obtain ⟨i, hi, rfl⟩ := List.mem_map.1 hm
    exact ⟨i, List.mem_range.1 hi, rfl⟩

/-! ## Finding them -/

/-- From any state in `I`, each desired pod answers with the ID of the only node that
has its host. -/
def DialsAsListed (h : Handler Call Call.Reply S) (I : S → Prop) (cr : ValkeyCluster)
    (state : ClusterState) : Prop :=
  ∀ t, I t → ∀ i < cr.spec.shards, ∀ j ≤ cr.spec.replicasPerShard,
    I (h (.admin (.myID (endpoint cr i j))) t).2 ∧
    ∃ m ∈ state.nodes, m.host = podFQDN cr i j ∧
      (∀ m' ∈ state.nodes, m'.host = podFQDN cr i j → m' = m) ∧
      (h (.admin (.myID (endpoint cr i j))) t).1 = Except.ok m.id

variable {I : S → Prop} {owner : Nat → NodeInfo}

/-- A listed node at a pod of a shard owns slots only if it is the owner. -/
theorem Owners.eq_of_host (ho : Owners cr state owner) {i j : Nat} {m : NodeInfo}
    (hm : m ∈ state.nodes) (hhost : m.host = podFQDN cr i j) (howns : ownsSlots m = true) :
    m = owner i := by
  obtain ⟨i', hi', rfl⟩ := ho.bijOn.surjOn ⟨hm, ownsSlots_iff.1 howns⟩
  obtain ⟨j', -, hhost'⟩ := ho.host i' hi'
  rw [(podFQDN_inj (hhost.symm.trans hhost')).1]

theorem Owners.mem (ho : Owners cr state owner) {i : Nat} (hi : i < cr.spec.shards) :
    owner i ∈ state.nodes ∧ ownsSlots (owner i) = true := by
  obtain ⟨hm, howns⟩ := ho.bijOn.mapsTo (Set.mem_Iio.2 hi)
  exact ⟨hm, ownsSlots_iff.2 howns⟩

/-- The loop passes over the other pods and stops at the owner's. -/
theorem run_findSlotOwner (ho : Owners cr state owner)
    (hids : (state.nodes.map NodeInfo.id).Nodup) (hdials : DialsAsListed h I cr state)
    {i j₀ : Nat} (hi : i < cr.spec.shards) (hhost : (owner i).host = podFQDN cr i j₀)
    {js : List Nat} (hjs : ∀ j ∈ js, j ≤ cr.spec.replicasPerShard) (hj₀ : j₀ ∈ js) :
    ∀ {t : S}, I t →
      ((findSlotOwner cr i (byID state) js).run h t).1 = some ((owner i).id, j₀) := by
  induction js with
  | nil => cases hj₀
  | cons j js ih =>
      intro t ht
      obtain ⟨hI, m, hm, hmhost, honly, hreply⟩ := hdials t ht i hi j (hjs j (by simp))
      have hlisted : (byID state).lookup m.id = some m := (lookup_indexBy hids).2 ⟨hm, rfl⟩
      have hrun : Prog.run h (Admin.myID (endpoint cr i j)).run t =
          (.ok m.id, (h (.admin (.myID (endpoint cr i j))) t).2) := Prod.ext hreply rfl
      rw [findSlotOwner, Prog.run_bind, hrun]
      simp only [hlisted]
      by_cases hj : j = j₀
      · subst hj
        rw [← honly _ (ho.mem hi).1 hhost, if_pos (ho.mem hi).2]
        rfl
      · have howns : ¬ ownsSlots m = true := by
          intro howns
          rw [ho.eq_of_host hm hmhost howns, hhost] at hmhost
          exact hj (podFQDN_inj hmhost).2.symm
        rw [if_neg howns]
        have hj₀' : j₀ ∈ js := (List.mem_cons.1 hj₀).resolve_left (Ne.symm hj)
        exact ih (fun j hj => hjs j (List.mem_cons_of_mem _ hj)) hj₀' hI

theorem run_findShardPrimary (ho : Owners cr state owner)
    (hids : (state.nodes.map NodeInfo.id).Nodup) (hdials : DialsAsListed h I cr state)
    {i : Nat} (hi : i < cr.spec.shards) {t : S} (ht : I t) :
    ∃ j, (owner i).host = podFQDN cr i j ∧
      ((findShardPrimary cr i (byID state)).run h t).1 = ((owner i).id, (j : Int)) := by
  obtain ⟨j, hj, hhost⟩ := ho.host i hi
  have hfound := run_findSlotOwner ho hids hdials hi hhost
    (fun j hj => Nat.lt_succ_iff.1 (List.mem_range.1 hj)) (List.mem_range.2 (by omega)) ht
  refine ⟨j, hhost, ?_⟩
  rw [findShardPrimary, Prog.run_bind, hfound]
  rfl

theorem Owners.shardStatus (ho : Owners cr state owner) {i : Nat} (hi : i < cr.spec.shards) :
    (shardStatus cr state i).index = i ∧
      (shardStatus cr state i).primaryNodeID = (owner i).id := by
  rw [Controller.shardStatus, ho.primary i hi]
  exact ⟨rfl, rfl⟩

/-- Whoever else writes, a status with phase `Ready` has one owner for each shard, at
one of its pods, and no other; nothing but replicas is left to do; and the primary it
names for a shard is the one that is found by dialling. -/
theorem ready_pins_ownership (hids : (state.nodes.map NodeInfo.id).Nodup)
    {new : ValkeyCluster} {t : S}
    (hnew : (Call.kube (.updateClusterStatus new), t) ∈ calls h (updateStatus cr state) s)
    (hready : new.status.phase = some .ready) :
    ∃ owner : Nat → NodeInfo,
      Set.BijOn owner (Set.Iio cr.spec.shards)
        {m | m ∈ state.nodes ∧ m.isPrimary = true ∧ m.slotCount > 0} ∧
      (∀ i < cr.spec.shards, ∃ j ≤ cr.spec.replicasPerShard,
        (owner i).host = podFQDN cr i j) ∧
      new.status.readyShards = cr.spec.shards ∧
      (state.formed = true →
        (Topology.decide (desired cr) (summarize cr state)).kind = .none ∨
        (Topology.decide (desired cr) (summarize cr state)).kind = .scaleReplicas) ∧
      ∀ {T : Type} (h' : Handler Call Call.Reply T) (I : T → Prop),
        DialsAsListed h' I cr state → ∀ i < cr.spec.shards, ∀ t, I t →
        ∃ shard j, new.status.shards[i]? = some shard ∧ shard.index = i ∧
          shard.primaryNodeID = (owner i).id ∧ (owner i).host = podFQDN cr i j ∧
          ((findShardPrimary cr i (byID state)).run h' t).1 =
            (shard.primaryNodeID, (j : Int)) := by
  have hwrite : WrittenFor cr state new := writesFor_of_mem hnew
  have hall : allReady cr state = true := by
    rw [hwrite.phase, Option.some.injEq] at hready
    exact verdict_ready_iff.1 hready
  obtain ⟨owner, ho⟩ := exists_owners hall
  simp only [allReady, Bool.and_eq_true, beq_iff_eq, Bool.not_eq_true'] at hall
  obtain ⟨⟨⟨hshards, hactual⟩, hcovered⟩, hopen⟩ := hall
  refine ⟨owner, ho.bijOn, ho.host, hwrite.readyShards.trans hshards, ?_, ?_⟩
  · intro hformed
    have hcount : (desired cr).shards = (summarize cr state).primaryCount := by
      rw [summarize, ← List.countP_eq_length_filter]
      exact hactual.symm
    exact (Topology.decide_enough hformed (by simp [summarize, hcovered, hopen]) hcount).symm
  · intro T h' I hdials i hi t ht
    obtain ⟨j, hhost, hfound⟩ := run_findShardPrimary ho hids hdials hi ht
    obtain ⟨hindex, hprimary⟩ := ho.shardStatus hi
    refine ⟨Controller.shardStatus cr state i, j, ?_, hindex, hprimary, hhost, ?_⟩
    · rw [hwrite.shards, List.getElem?_map, List.getElem?_range hi]
      rfl
    · rw [hfound, hprimary]

end

/-- Three shards with a replica each. -/
def trio : ValkeyCluster where
  name := "trio"
  nspace := "default"
  spec := { shards := 3, replicasPerShard := 1 }

/-- Pod `j` of shard `i`, with the slots of the shard or as a replica of `master`. -/
def trioNode (i j : Nat) (id master : String) (slots : List SlotRange) : NodeInfo :=
  { NodeInfo.zero with
    id, slots
    host := podFQDN trio i j
    masterID := master
    flags := [if master = "" then "master" else "slave"]
    connected := true }

/-- The second shard has had a failover. -/
def trioNodes : List NodeInfo :=
  [trioNode 0 0 "a" "" [⟨0, 5460⟩], trioNode 0 1 "b" "a" [],
    trioNode 1 0 "c" "d" [], trioNode 1 1 "d" "" [⟨5461, 10922⟩],
    trioNode 2 0 "e" "" [⟨10923, 16383⟩], trioNode 2 1 "f" "e" []]

def trioServing : ClusterState where
  formed := true
  slotsCovered := true
  openSlots := false
  nodes := trioNodes

def trioWorld : World where
  fake := ⟨indexBy NodeInfo.host trioNodes⟩
  kube := { cluster := some trio }
  ranges := 0

theorem dialsAsListed_trio :
    DialsAsListed (World.answer fun _ => asWritten) (· = trioWorld) trio trioServing := by
  intro t ht i hi j hj
  subst ht
  have hpods : ∀ i < 3, ∀ j < 2, ∃ m ∈ trioNodes, m.host = podFQDN trio i j ∧
      (∀ m' ∈ trioNodes, m'.host = podFQDN trio i j → m' = m) ∧
      ((indexBy NodeInfo.host trioNodes).lookup (podFQDN trio i j)).map NodeInfo.id =
        some m.id := by decide +kernel
  obtain ⟨m, hm, hhost, honly, hlookup⟩ := hpods i hi j (Nat.lt_succ_of_le hj)
  obtain ⟨m', hm', hid⟩ := Option.map_eq_some_iff.1 hlookup
  have hensure : trioWorld.fake.ensure (endpoint trio i j) = trioWorld.fake :=
    ensure_of_mem (AList.lookup_isSome.1 (by rw [endpoint_host]; exact hm' ▸ rfl))
  refine ⟨?_, m, hm, hhost, honly, ?_⟩
  · simp only [World.answer, Fake.answer, hensure]
  · have hfound : trioWorld.fake.nodes.lookup (endpoint trio i j).host = some m' := hm'
    simp only [World.answer, Fake.answer, hensure, NodeMap.get, hfound, Option.getD_some, hid]

theorem ready_pins_ownership_trio :
    ∃ new t, (Call.kube (.updateClusterStatus new), t) ∈
        calls (World.answer fun _ => asWritten) (updateStatus trio trioServing) trioWorld ∧
      new.status.phase = some .ready ∧ new.status.readyShards = 3 ∧
      ∃ shard j, new.status.shards[1]? = some shard ∧ shard.primaryNodeID = "d" ∧
        ((findShardPrimary trio 1 (byID trioServing)).run
          (World.answer fun _ => asWritten) trioWorld).1 = (shard.primaryNodeID, (j : Int)) := by
  have hmem : (calls (World.answer fun _ => asWritten)
      (updateStatus trio trioServing) trioWorld)[4]? = some _ := rfl
  obtain ⟨owner, -, -, hready, -, hfound⟩ := ready_pins_ownership (by decide)
    (List.mem_of_getElem? hmem) rfl
  obtain ⟨shard, j, hshard, -, -, -, hrun⟩ :=
    hfound _ _ dialsAsListed_trio 1 (by decide) _ rfl
  have hentry : some (shardStatus trio trioServing 1) = some shard := hshard
  have hprimary : (shardStatus trio trioServing 1).primaryNodeID = "d" := by decide +kernel
  rw [Option.some.inj hentry] at hprimary
  exact ⟨_, _, List.mem_of_getElem? hmem, rfl, hready, shard, j, hshard, hprimary, hrun⟩

end Valkeyop.Controller
