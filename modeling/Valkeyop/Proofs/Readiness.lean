import Valkeyop.Proofs.Ownership

/-!
# What a status leaves unsaid

A status is made of the slots nodes own. `Ready` compares the slot owners with the
shards and asks for the keyspace to be covered, so it speaks of neither the replicas
nor the links, and a shard is counted as ready for a node that has failed. During a
reshard `Available` is set as soon as one shard is counted, and then coverage is not
asked for.
-/

namespace Valkeyop.Controller

open Valkeyop.Lib Valkeyop.Lib.Fallible Valkeyop.Cluster Valkeyop.Api Valkeyop.Resources

section

variable {S : Type} {h : Handler Call Call.Reply S} {s : S} {cr : ValkeyCluster}
  {state : ClusterState}

/-! ## Replicas -/

theorem Owners.readyReplicas {owner : Nat → NodeInfo} (ho : Owners cr state owner) {i : Nat}
    (hi : i < cr.spec.shards) :
    (Controller.shardStatus cr state i).readyReplicas =
      state.nodes.countP fun m => m.masterID == (owner i).id && m.connected := by
  rw [Controller.shardStatus, ho.primary i hi]

/-- When `Ready` is published, the entries show the declared replicas exactly when each
slot-owning primary is named by that many connected nodes. -/
theorem ready_replicas_iff {new : ValkeyCluster} {t : S}
    (hnew : (Call.kube (.updateClusterStatus new), t) ∈ calls h (updateStatus cr state) s)
    (hready : new.status.phase = some .ready) :
    (∀ i < cr.spec.shards, ∃ shard, new.status.shards[i]? = some shard ∧ shard.index = i ∧
      shard.readyReplicas = cr.spec.replicasPerShard) ↔
    ∀ n ∈ state.nodes, n.isPrimary = true → n.slotCount > 0 →
      state.nodes.countP (fun m => m.masterID == n.id && m.connected) =
        cr.spec.replicasPerShard := by
  have hwrite : WrittenFor cr state new := writesFor_of_mem hnew
  rw [hwrite.phase, Option.some.injEq] at hready
  obtain ⟨owner, ho⟩ := exists_owners (verdict_ready_iff.1 hready)
  have hentry : ∀ i < cr.spec.shards,
      new.status.shards[i]? = some (shardStatus cr state i) := by
    intro i hi
    rw [hwrite.shards, List.getElem?_map, List.getElem?_range hi]
    rfl
  constructor
  · intro hentries n hn hprimary hslots
    obtain ⟨i, hi, rfl⟩ := ho.bijOn.surjOn ⟨hn, hprimary, hslots⟩
    obtain ⟨shard, hshard, -, hcount⟩ := hentries i hi
    rw [hentry i hi, Option.some.injEq] at hshard
    rw [← ho.readyReplicas hi, hshard, hcount]
  · intro hcounts i hi
    obtain ⟨hn, hprimary, hslots⟩ := ho.bijOn.mapsTo (Set.mem_Iio.2 hi)
    refine ⟨_, hentry i hi, (ho.shardStatus hi).1, ?_⟩
    rw [ho.readyReplicas hi]
    exact hcounts _ hn hprimary hslots

end

/-- A shard with one replica. -/
def onePair : ValkeyCluster := { onePod with spec := { shards := 1, replicasPerShard := 1 } }

/-- The first pod has all the slots; the second is listed or not. -/
def onePairServing (replicas : List NodeInfo) : ClusterState where
  formed := true
  slotsCovered := true
  openSlots := false
  nodes := { NodeInfo.zero with
    id := "a", host := podFQDN onePair 0 0, slots := [⟨0, 16383⟩], connected := true } :: replicas

theorem ready_replicas_pair :
    ∃ new t, (Call.kube (.updateClusterStatus new), t) ∈
        calls (World.answer fun _ => asWritten) (updateStatus onePair (onePairServing
          [{ NodeInfo.zero with id := "b", masterID := "a", connected := true }]))
          (World.start onePair) ∧
      new.status.phase = some .ready ∧ ∃ shard, new.status.shards[0]? = some shard ∧
        shard.index = 0 ∧ shard.readyReplicas = 1 := by
  have hmem : (calls (World.answer fun _ => asWritten) (updateStatus onePair (onePairServing
      [{ NodeInfo.zero with id := "b", masterID := "a", connected := true }]))
      (World.start onePair))[4]? = some _ := rfl
  refine ⟨_, _, List.mem_of_getElem? hmem, rfl, ?_⟩
  exact (ready_replicas_iff (List.mem_of_getElem? hmem) rfl).2 (by decide +kernel) 0 (by decide)

/-- The replica has not joined. -/
theorem ready_without_replicas :
    ∃ new t, (Call.kube (.updateClusterStatus new), t) ∈
        calls (World.answer fun _ => asWritten) (updateStatus onePair (onePairServing []))
          (World.start onePair) ∧
      new.status.phase = some .ready ∧ ∃ shard, new.status.shards[0]? = some shard ∧
        shard.readyReplicas = 0 ∧ onePair.spec.replicasPerShard = 1 := by
  have hmem : (calls (World.answer fun _ => asWritten) (updateStatus onePair (onePairServing []))
      (World.start onePair))[4]? = some _ := rfl
  exact ⟨_, _, List.mem_of_getElem? hmem, rfl, _, rfl, rfl, rfl⟩

/-! ## Links -/

section

variable {S : Type} {h : Handler Call Call.Reply S} {s : S} {cr : ValkeyCluster}
  {state : ClusterState}

/-- The node's link is up, and nobody takes it for failed. -/
def reachable (n : NodeInfo) : Bool :=
  n.connected && !n.hasFlag "fail" && !n.hasFlag "fail?" && !n.hasFlag "noaddr"

/-- The node is listed at a desired pod of the shard. -/
def atPods (cr : ValkeyCluster) (shard : Nat) (n : NodeInfo) : Bool :=
  (List.range (cr.spec.replicasPerShard + 1)).any fun j => n.host == podFQDN cr shard j

/-- A slot owner that can be reached is listed at a desired pod of the shard. -/
def shardServed (cr : ValkeyCluster) (state : ClusterState) (shard : Nat) : Bool :=
  state.nodes.any fun n => atPods cr shard n && ownsSlots n && reachable n

def servedShards (cr : ValkeyCluster) (state : ClusterState) : Nat :=
  (List.range cr.spec.shards).countP (shardServed cr state)

/-- The node that stands for a host is the last one listed there. -/
def lastAt (state : ClusterState) (host : String) : Option NodeInfo :=
  state.nodes.reverse.find? fun n => n.host == host

/-- The node that stands for one of the desired pods owns slots. -/
def shardCounted (cr : ValkeyCluster) (state : ClusterState) (shard : Nat) : Bool :=
  (List.range (cr.spec.replicasPerShard + 1)).any fun j =>
    (lastAt state (podFQDN cr shard j)).any ownsSlots

/-- The shards that are counted without an owner that can be reached. -/
def unservedShards (cr : ValkeyCluster) (state : ClusterState) : Nat :=
  (List.range cr.spec.shards).countP fun i =>
    shardCounted cr state i && !shardServed cr state i

/-- The shards whose owner can be reached but is listed before another node at its host. -/
def overlookedShards (cr : ValkeyCluster) (state : ClusterState) : Nat :=
  (List.range cr.spec.shards).countP fun i =>
    shardServed cr state i && !shardCounted cr state i

/-- Of two counts only the differences matter. -/
theorem countP_le_countP_iff {α : Type} (l : List α) (p q : α → Bool) :
    l.countP p ≤ l.countP q ↔
      l.countP (fun a => p a && !q a) ≤ l.countP (fun a => q a && !p a) := by
  have hsum : l.countP p + l.countP (fun a => q a && !p a) =
      l.countP q + l.countP (fun a => p a && !q a) := by
    induction l with
    | nil => rfl
    | cons a l ih =>
        simp only [List.countP_cons]
        cases p a <;> cases q a <;> simp <;> omega
  omega

theorem atPods_iff {i : Nat} {n : NodeInfo} : atPods cr i n = true ↔
    ∃ j ≤ cr.spec.replicasPerShard, n.host = podFQDN cr i j := by
  simp only [atPods, List.any_eq_true, List.mem_range, Nat.lt_succ_iff, beq_iff_eq]

theorem shardServed_iff {i : Nat} : shardServed cr state i = true ↔
    ∃ n ∈ state.nodes, atPods cr i n = true ∧ ownsSlots n = true ∧ reachable n = true := by
  simp only [shardServed, List.any_eq_true, Bool.and_eq_true, and_assoc]

/-- A loop of assignments leaves the last node of each host. -/
theorem lookup_hostIndex (state : ClusterState) (host : String) :
    (hostIndex state).lookup host = lastAt state host := by
  rw [hostIndex, lastAt]
  induction state.nodes using List.reverseRecOn with
  | nil => rfl
  | append_singleton nodes n ih =>
      rw [indexBy, List.foldl_append, List.foldl_cons, List.foldl_nil, List.reverse_append,
        List.reverse_singleton, List.singleton_append, List.find?_cons]
      by_cases hhost : host = n.host
      · rw [hhost, AList.lookup_insert, beq_self_eq_true]
      · rw [AList.lookup_insert_ne hhost, beq_eq_false_iff_ne.2 (Ne.symm hhost)]
        exact ih

theorem shardPrimary_isSome {i : Nat} :
    (shardPrimary cr state i).isSome = shardCounted cr state i := by
  rw [Bool.eq_iff_iff, shardPrimary, List.find?_isSome, shardCounted, List.any_eq_true]
  simp only [List.mem_reverse, shardNodes, List.mem_filterMap, lookup_hostIndex]
  constructor
  · rintro ⟨n, ⟨j, hj, hlast⟩, howns⟩
    exact ⟨j, hj, by rw [hlast]; exact howns⟩
  · rintro ⟨j, hj, hany⟩
    obtain ⟨n, hlast, howns⟩ := (Option.any_eq_true ..).1 hany
    exact ⟨n, ⟨j, hj, hlast⟩, howns⟩

theorem shardCounted_iff {i : Nat} : shardCounted cr state i = true ↔
    ∃ j ≤ cr.spec.replicasPerShard, ∃ n, lastAt state (podFQDN cr i j) = some n ∧
      ownsSlots n = true := by
  simp only [shardCounted, List.any_eq_true, List.mem_range, Nat.lt_succ_iff, Option.any_eq_true]

theorem mem_of_lastAt {host : String} {n : NodeInfo} (h : lastAt state host = some n) :
    n ∈ state.nodes ∧ n.host = host := by
  have hhost := List.find?_some h
  exact ⟨List.mem_reverse.1 (List.mem_of_find?_eq_some h), beq_iff_eq.1 hhost⟩

/-- When no pod is listed twice, a shard is counted for every owner at its pods. -/
theorem shardCounted_of_distinct {i : Nat}
    (hdistinct : ∀ n ∈ state.nodes, ∀ m ∈ state.nodes, n.host = m.host → atPods cr i n = true →
      n = m) :
    shardCounted cr state i = true ↔
      ∃ n ∈ state.nodes, atPods cr i n = true ∧ ownsSlots n = true := by
  rw [shardCounted_iff]
  constructor
  · rintro ⟨j, hj, n, hlast, howns⟩
    obtain ⟨hn, hhost⟩ := mem_of_lastAt hlast
    exact ⟨n, hn, atPods_iff.2 ⟨j, hj, hhost⟩, howns⟩
  · rintro ⟨n, hn, hat, howns⟩
    obtain ⟨j, hj, hhost⟩ := atPods_iff.1 hat
    have hsome : (lastAt state (podFQDN cr i j)).isSome = true :=
      List.find?_isSome.2 ⟨n, List.mem_reverse.2 hn, beq_iff_eq.2 hhost⟩
    obtain ⟨m, hlast⟩ := Option.isSome_iff_exists.1 hsome
    obtain ⟨hm, hmhost⟩ := mem_of_lastAt hlast
    obtain rfl := hdistinct n hn m hm (hhost.trans hmhost.symm) hat
    exact ⟨j, hj, n, hlast, howns⟩

/-- Under `Ready` every shard is counted, so all of them have to be served. Each has one
owner only, which is then the one that is reached. -/
theorem reachable_of_ready (hready : allReady cr state = true)
    (hle : readyShards cr state ≤ servedShards cr state) {i j : Nat} (hi : i < cr.spec.shards)
    {n : NodeInfo} (hn : n ∈ state.nodes) (hhost : n.host = podFQDN cr i j)
    (howns : ownsSlots n = true) : reachable n = true := by
  obtain ⟨owner, ho⟩ := exists_owners hready
  simp only [allReady, Bool.and_eq_true, beq_iff_eq] at hready
  have hall : (List.range cr.spec.shards).countP (shardServed cr state) =
      (List.range cr.spec.shards).length := by
    refine Nat.le_antisymm List.countP_le_length ?_
    rw [List.length_range]
    exact hready.1.1.1.symm.trans_le hle
  obtain ⟨m, hm, hat, hmowns, hreach⟩ :=
    shardServed_iff.1 (List.countP_eq_length.1 hall i (List.mem_range.2 hi))
  obtain ⟨j', -, hmhost⟩ := atPods_iff.1 hat
  rw [ho.eq_of_host hn hhost howns, ← ho.eq_of_host hm hmhost hmowns]
  exact hreach

/-- The shards counted as ready are no more than those that are served, and under `Ready`
no owner is down, exactly when the counted shards without an owner that can be reached are
no more than the overlooked ones. Where no pod is listed twice none is overlooked, and each
shard whose pods own slots must have an owner among them that can be reached. -/
theorem readyShards_reachable_iff {new : ValkeyCluster} {t : S}
    (hnew : (Call.kube (.updateClusterStatus new), t) ∈ calls h (updateStatus cr state) s) :
    ((new.status.readyShards ≤ servedShards cr state ∧
      (new.status.phase = some .ready → ∀ i < cr.spec.shards,
        ∀ j ≤ cr.spec.replicasPerShard, ∀ n ∈ state.nodes, n.host = podFQDN cr i j →
          ownsSlots n = true → reachable n = true)) ↔
      unservedShards cr state ≤ overlookedShards cr state) ∧
    ((∀ i < cr.spec.shards, ∀ n ∈ state.nodes, ∀ m ∈ state.nodes, n.host = m.host →
        atPods cr i n = true → n = m) →
      (unservedShards cr state ≤ overlookedShards cr state ↔
        ∀ i < cr.spec.shards, (∃ n ∈ state.nodes, atPods cr i n = true ∧ ownsSlots n = true) →
          ∃ n ∈ state.nodes, atPods cr i n = true ∧ ownsSlots n = true ∧
            reachable n = true)) := by
  have hwrite : WrittenFor cr state new := writesFor_of_mem hnew
  have hcounts : readyShards cr state ≤ servedShards cr state ↔
      unservedShards cr state ≤ overlookedShards cr state := by
    simp only [readyShards, shardPrimary_isSome, servedShards, unservedShards, overlookedShards]
    exact countP_le_countP_iff ..
  constructor
  · rw [hwrite.readyShards, ← hcounts, and_iff_left_iff_imp]
    intro hle hready i hi j _ n hn hhost howns
    rw [hwrite.phase, Option.some.injEq] at hready
    exact reachable_of_ready (verdict_ready_iff.1 hready) hle hi hn hhost howns
  · intro hdistinct
    have hnone : overlookedShards cr state = 0 := by
      refine List.countP_eq_zero.2 fun i hi => ?_
      have hcounted := shardCounted_of_distinct (hdistinct i (List.mem_range.1 hi))
      rw [Bool.and_eq_true, Bool.not_eq_true', shardServed_iff]
      rintro ⟨⟨n, hn, hat, howns, -⟩, hnot⟩
      exact absurd (hcounted.2 ⟨n, hn, hat, howns⟩) (by rw [hnot]; decide)
    rw [hnone, Nat.le_zero, unservedShards, List.countP_eq_zero]
    refine forall_congr' fun i => ?_
    rw [List.mem_range]
    refine imp_congr_right fun hi => ?_
    rw [Bool.and_eq_true, Bool.not_eq_true', not_and, Bool.not_eq_false,
      shardCounted_of_distinct (hdistinct i hi), shardServed_iff]

end

/-- The pod of `onePod` has all the slots, and is flagged and linked like that. -/
def onePodListed (flags : List String) (connected : Bool) : ClusterState where
  formed := true
  slotsCovered := true
  openSlots := false
  nodes := [{ NodeInfo.zero with
    id := "a", host := podFQDN onePod 0 0, flags, slots := [⟨0, 16383⟩], connected }]

/-- The replica of the third shard is down. -/
def trioLimping : ClusterState :=
  { trioServing with nodes := trioNodes.map fun n =>
      if n.id = "f" then { n with flags := ["slave", "fail"], connected := false } else n }

theorem readyShards_reachable_trio :
    ∃ new t, (Call.kube (.updateClusterStatus new), t) ∈
        calls (World.answer fun _ => asWritten) (updateStatus trio trioLimping)
          (World.start trio) ∧
      new.status.phase = some .ready ∧ new.status.readyShards = 3 ∧
      new.status.readyShards ≤ servedShards trio trioLimping := by
  have hmem : (calls (World.answer fun _ => asWritten) (updateStatus trio trioLimping)
      (World.start trio))[4]? = some _ := rfl
  obtain ⟨hiff, hdistinct⟩ := readyShards_reachable_iff (List.mem_of_getElem? hmem)
  refine ⟨_, _, List.mem_of_getElem? hmem, rfl, rfl, (hiff.2 ((hdistinct ?_).2 ?_)).1⟩
  · decide +kernel
  · decide +kernel

/-- The only owner has failed, and keeps its slots. -/
theorem ready_with_failed_owner :
    ∃ new t, (Call.kube (.updateClusterStatus new), t) ∈
        calls (World.answer fun _ => asWritten)
          (updateStatus onePod (onePodListed ["master", "fail"] false)) (World.start onePod) ∧
      new.status.phase = some .ready ∧ new.status.readyShards = 1 ∧
      servedShards onePod (onePodListed ["master", "fail"] false) = 0 := by
  have hmem : (calls (World.answer fun _ => asWritten)
      (updateStatus onePod (onePodListed ["master", "fail"] false))
      (World.start onePod))[4]? = some _ := rfl
  exact ⟨_, _, List.mem_of_getElem? hmem, rfl, rfl, by decide +kernel⟩

/-! ## Coverage -/

section

variable {S : Type} {h : Handler Call Call.Reply S} {s : S} {cr : ValkeyCluster}
  {state : ClusterState}

/-- Whatever the time is and whatever was set before, `Available` is what the verdict says. -/
theorem runs_setVerdict_available (latest : ValkeyCluster) (s : S) :
    Prog.Runs h (fun c _ => c = .kube .now)
      (fun new _ => conditionTrue new.status.conditions conditionAvailable = true ↔
        verdict cr state ≠ .degraded)
      (setVerdict cr state latest) s := by
  rw [setVerdict_eq]
  refine (runs_setConds _ _ s).mono ?_
  rintro new _ ⟨calls, hcalls, rfl⟩
  rw [conditionTrue_iff, statusOf_foldl_put, hcalls]
  exact available_verdictConds cr state _

/-- Without coverage, `Available` is kept back exactly when no shard is counted, or when
neither a surplus owner nor an open slot makes it look like a reshard. -/
theorem available_uncovered_iff (hcovered : state.slotsCovered = false) {new : ValkeyCluster}
    {t : S}
    (hnew : (Call.kube (.updateClusterStatus new), t) ∈ calls h (updateStatus cr state) s) :
    ¬ conditionTrue new.status.conditions conditionAvailable = true ↔
      readyShards cr state = 0 ∨
      actualShards state ≤ cr.spec.shards ∧ state.openSlots = false := by
  have havailable : conditionTrue new.status.conditions conditionAvailable = true ↔
      verdict cr state ≠ .degraded :=
    written_of_mem (fun latest s => runs_setVerdict_available _ s) hnew
  have hnotready : ¬ allReady cr state = true := by simp [allReady, hcovered]
  have hdegraded : verdict cr state = .degraded ↔
      ¬ (actualShards state > cr.spec.shards ∧ readyShards cr state > 0) ∧
      ¬ (state.openSlots = true ∧ readyShards cr state > 0) := by
    rw [verdict, if_neg hnotready]
    repeat' split
    all_goals simp_all
  rw [havailable, not_not, hdegraded]
  cases state.openSlots with
  | true => simp only [true_and, Bool.true_eq_false, and_false, or_false]; omega
  | false => simp only [Bool.false_eq_true, false_and, not_false_eq_true, and_true]; omega

end

/-- The third shard is gone, and its slots have no owner. -/
def trioReduced : ClusterState :=
  { trioServing with slotsCovered := false, nodes := trioNodes.take 4 }

theorem available_uncovered_trio :
    ∃ new t, (Call.kube (.updateClusterStatus new), t) ∈
        calls (World.answer fun _ => asWritten) (updateStatus trio trioReduced)
          (World.start trio) ∧
      new.status.readyShards = 2 ∧
      ¬ conditionTrue new.status.conditions conditionAvailable = true := by
  have hmem : (calls (World.answer fun _ => asWritten) (updateStatus trio trioReduced)
      (World.start trio))[3]? = some _ := rfl
  refine ⟨_, _, List.mem_of_getElem? hmem, rfl, ?_⟩
  exact (available_uncovered_iff rfl (List.mem_of_getElem? hmem)).2 (Or.inr (by decide +kernel))

/-- Half of the slots have no owner, and one of the others is being migrated. -/
def onePodHalved : ClusterState where
  formed := true
  slotsCovered := false
  openSlots := true
  nodes := [{ NodeInfo.zero with
    id := "a", host := podFQDN onePod 0 0, slots := [⟨0, 8191⟩], connected := true }]

theorem available_without_coverage :
    onePodHalved.slotsCovered = false ∧
    ∃ new t, (Call.kube (.updateClusterStatus new), t) ∈
        calls (World.answer fun _ => asWritten) (updateStatus onePod onePodHalved)
          (World.start onePod) ∧
      conditionTrue new.status.conditions conditionAvailable = true := by
  have hmem : (calls (World.answer fun _ => asWritten) (updateStatus onePod onePodHalved)
      (World.start onePod))[3]? = some _ := rfl
  exact ⟨rfl, _, _, List.mem_of_getElem? hmem, by decide +kernel⟩

end Valkeyop.Controller
