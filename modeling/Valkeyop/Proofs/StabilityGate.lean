import Valkeyop.Proofs.Publishing
import Valkeyop.Proofs.ScaleInSafety

/-!
# The stability gate

A formed cluster with open slots or without full coverage is to be repaired before
its topology is touched. `Topology.decide` does say so. The pass then asks whether
a StatefulSet beyond the desired shards is still there, and if one is, scales in
whatever was decided. The gate holds exactly as long as there is none: the first
departing shard is either drained onto a survivor or forgotten and deleted, and
both are what the gate forbids.
-/

namespace Valkeyop.Controller

open Valkeyop.Lib Valkeyop.Lib.Fallible Valkeyop.Cluster Valkeyop.Api Valkeyop.Resources

/-- The call deletes nothing, and if it changes the cluster it is a repair. -/
def Gated : Call → Prop
  | .admin (.repairSlots _) => True
  | .admin c => ¬ c.Changes
  | .kube (.deleteStatefulSet ..) | .kube (.deletePVC _) => False
  | _ => True

theorem Publishes.gated {c : Call} (hc : Publishes c) : Gated c :=
  hc.of_calls (fun _ _ => trivial) (fun _ => trivial) trivial

section

variable {cr : ValkeyCluster} {fails : String → Nat → Bool}
  {rest : (c : AdminCall) → Deployment → c.Reply × Deployment}
  {order : (m : NodeMap) → RangeOrder m} {d : Deployment} {i : Nat} {idx : NodeMap}

/-! ## Behind the gate -/

/-- A repair, and publishing what came of it, stays behind the gate. -/
theorem only_repair (state : ClusterState) (observed : Topology.Observed) :
    Prog.Only Gated (do
      act cr state observed .repair
      let state ← wrap "observe cluster (post-action)" (Admin.state (seed cr))
      updateStatus cr state
      pure (isProgressing .repair) : Act Bool).run := by
  refine only_bind (only_bind (only_lift ?_) fun _ => only_bind (only_lift ?_) fun _ => ?_)
    fun _ => only_bind (only_wrap _ ?_) fun st => only_bind ?_ fun _ => ?_
  · exact (only_announce ..).mono fun _ => Publishes.gated
  · exact Prog.only_op.2 trivial
  · exact Prog.only_pure _
  · exact Prog.only_op.2 fun h => h
  · exact (only_updateStatus cr st).mono fun _ => Publishes.gated
  · exact Prog.only_pure _

/-! ## What scaling in does first -/

/-- The answer of `findShardPrimary` is a node in one of the shard's pods, unless
nobody answered. -/
theorem primaryAt_serving :
    (∃ j, d.serving (podFQDN cr i j) = some (primaryAt cr fails idx d i).1) ∨
      (primaryAt cr fails idx d i = ("", -1) ∧
        d.reply fails (podFQDN cr i 0) (d.asked (podFQDN cr i 0) + 1) = none) := by
  unfold primaryAt
  cases hfound : (List.range (cr.spec.replicasPerShard + 1)).findSome?
      (slotOwnerAt cr fails idx d i) with
  | some found =>
      obtain ⟨j, -, hsome⟩ := List.exists_of_findSome?_eq_some hfound
      obtain ⟨id, hr, hif⟩ := Option.bind_eq_some_iff.1 hsome
      split at hif
      · obtain rfl := Option.some.inj hif
        exact Or.inl ⟨j, reply_eq_some hr⟩
      · exact nomatch hif
  | none =>
      cases hr : d.reply fails (podFQDN cr i 0) (d.asked (podFQDN cr i 0) + 1) with
      | some id => exact Or.inl ⟨0, reply_eq_some hr⟩
      | none => exact Or.inr ⟨rfl, rfl⟩

/-- As long as the seed tells its ID, a departing shard has somewhere to drain to. -/
theorem drainShard_moves (hshards : 0 < cr.spec.shards) (hd : Distinct cr d)
    (hseed : ∀ k, (d.reply fails (podFQDN cr 0 0) k).isSome) {departID : String} {j : Nat}
    (hi : i ≠ 0) (hdepart : d.serving (podFQDN cr i j) = some departID) :
    ∃ e ∈ calls (Deployment.world cr fails rest order) (drainShard cr i idx departID) d,
      ¬ Gated e.1 := by
  obtain ⟨d₁, hrun, hasked⟩ : ∃ d₁, (findShardPrimary cr 0 idx).run
      (Deployment.world cr fails rest order) d = (primaryAt cr fails idx d 0, d₁) ∧
      Asked cr 0 _ d d₁ := findShardPrimary_run d
  obtain ⟨j', hserving⟩ : ∃ j, d.serving (podFQDN cr 0 j) =
      some (primaryAt cr fails idx d 0).1 := by
    rcases primaryAt_serving (d := d) (i := 0) with h | ⟨-, hnone⟩
    · exact h
    · have := hseed (d.asked (podFQDN cr 0 0) + 1)
      simp [hnone] at this
  have hsurv : (primaryAt cr fails idx d 0).1 ≠ "" ∧
      (primaryAt cr fails idx d 0).1 ≠ departID :=
    ⟨fun h => hd.nonempty _ (h ▸ hserving), fun h =>
      hi (hd.ids _ _ _ _ _ hdepart (h ▸ hserving)).1⟩
  obtain ⟨n, hn⟩ : ∃ n, cr.spec.shards = n + 1 := ⟨cr.spec.shards - 1, by omega⟩
  have hfirst : exec (Deployment.world cr fails rest order)
      (liftM (firstSurvivorPrimary cr idx departID (List.range cr.spec.shards)) : Act String)
      d = (.ok (primaryAt cr fails idx d 0).1, d₁) := by
    rw [exec_lift, hn, List.range_succ_eq_map, firstSurvivorPrimary, Prog.run_bind, hrun]
    simp only [if_pos hsurv]
    rfl
  rw [drainShard, calls_bind_ok hfirst]
  simp only [if_neg hsurv.1]
  exact ⟨_, List.mem_append_right _ (List.mem_cons_self ..), fun h => h trivial⟩

/-- The first departing shard is drained or deleted. -/
theorem removeShards_not_gated (hshards : 0 < cr.spec.shards) :
    ∀ idxs : List Nat, (∃ i ∈ idxs, cr.spec.shards ≤ i) → ∀ d : Deployment, Distinct cr d →
      (∀ k, (d.reply fails (podFQDN cr 0 0) k).isSome) →
      ∃ e ∈ calls (Deployment.world cr fails rest order) (removeShards cr idxs) d,
        ¬ Gated e.1 := by
  intro idxs
  induction idxs with
  | nil => simp
  | cons i idxs ih =>
      intro hexcess d hd hseed
      by_cases hi : i < cr.spec.shards
      · obtain ⟨k, hk, hge⟩ := hexcess
        rw [removeShards, if_pos hi]
        rcases List.mem_cons.1 hk with rfl | hk
        · omega
        · exact ih ⟨k, hk, hge⟩ d hd hseed
      obtain ⟨d₁, before, hasked, -, hcalls⟩ := calls_removeShards fails rest order hi idxs d
      have hd₁ : Distinct cr d₁ := hd.alike (hasked.alike (Nat.succ_ne_self i))
      have hserving : d₁.serving = d.serving := by rw [hasked.rest]
      have hpod : (∃ j, d.serving (podFQDN cr i j) =
          some (primaryAt cr fails (byID d.seen) d i).1) ∨ _ := primaryAt_serving
      rw [hcalls]
      split
      · next hdrains =>
          have hdepart : ∃ j, d₁.serving (podFQDN cr i j) =
              some (primaryAt cr fails (byID d.seen) d i).1 := by
            rcases hpod with h | ⟨h, -⟩
            · rwa [hserving]
            · exact absurd (congrArg Prod.fst h) hdrains.1
          obtain ⟨j, hdepart⟩ := hdepart
          have hseed₁ : ∀ k, (d₁.reply fails (podFQDN cr 0 0) k).isSome := by
            intro k
            rw [Deployment.reply, hserving]
            exact hseed k
          obtain ⟨e, he, hne⟩ := drainShard_moves hshards hd₁ hseed₁ (by omega) hdepart
          exact ⟨e, List.mem_append_right _ he, hne⟩
      · have hdelete : ∀ d', (Call.kube (.deleteStatefulSet (statefulSetName cr i) cr.nspace),
            d') ∈ calls (Deployment.world cr fails rest order)
              (do deleteShard cr i; removeShards cr idxs : Act Unit) d' :=
          fun _ => List.mem_cons_self ..
        rw [calls_bind_ok (exec_lift _)]
        exact ⟨_, List.mem_append_right _ (List.mem_append_right _ (hdelete _)), fun h => h⟩

/-! ## The pass -/

theorem deployed_putKube (hd : Deployed cr d) {k : ApiServer}
    (hk : Republished d.kube k) : Deployed cr (d.putKube k) := by
  have hsets : k.statefulSets = d.kube.statefulSets := by rw [hk.rest]
  refine ⟨?_, fun i j => ?_, hd.ids, hd.nonempty, hd.nodes, hd.fresh⟩
  · change OwnSets cr k.statefulSets
    rw [hsets]
    exact hd.sets
  · rw [Deployment.HasPod]
    change _ ↔ ∃ s ∈ k.statefulSets, _
    rw [hsets]
    exact hd.pods i j

/-- Scaling in opens the gate when there is a shard to remove. -/
theorem scaleIn_not_gated (hd : Deployed cr d) (hshards : 0 < cr.spec.shards)
    (hseed : ∀ k, (d.reply fails (podFQDN cr 0 0) k).isSome)
    (hexcess : ∃ i, HasSet cr d.kube.statefulSets i ∧ cr.spec.shards ≤ i) :
    ∃ e ∈ calls (Deployment.world cr fails rest order) (scaleIn cr) d, ¬ Gated e.1 := by
  obtain ⟨d₁, before, hforgot, -, hcalls⟩ := calls_scaleIn fails rest order hd hshards
  have hseed₁ : ∀ k, (d₁.reply fails (podFQDN cr 0 0) k).isSome := by
    intro k
    rw [Deployment.reply, hforgot.rest]
    exact hseed k
  obtain ⟨i, hi, hge⟩ := hexcess
  obtain ⟨e, he, hne⟩ : ∃ e ∈ calls (Deployment.world cr fails rest order) (removeShards cr _)
      d₁, ¬ Gated e.1 :=
    removeShards_not_gated hshards _ ⟨i, (mem_setIndexes hd.sets).2 hi, hge⟩ d₁
      (hd.distinct.forgot hforgot) hseed₁
  rw [hcalls]
  exact ⟨e, List.mem_append_right _ he, hne⟩

/-- The pass observes, chooses, and goes on with what it has chosen. -/
theorem calls_reconcileCluster (hd : Deployed cr d) :
    calls (Deployment.world cr fails rest order) (reconcileCluster cr) d =
      calls (Deployment.world cr fails rest order)
          (wrap "observe cluster" (Admin.state (seed cr))) d ++
        (calls (Deployment.world cr fails rest order) (choosePlan cr (summarize cr d.seen)) d ++
          calls (Deployment.world cr fails rest order) (do
            act cr d.seen (summarize cr d.seen)
              (chosenPlan cr d.kube.statefulSets (summarize cr d.seen)).kind
            let state ← wrap "observe cluster (post-action)" (Admin.state (seed cr))
            updateStatus cr state
            pure (isProgressing
              (chosenPlan cr d.kube.statefulSets (summarize cr d.seen)).kind) : Act Bool) d) := by
  have hstate : exec (Deployment.world cr fails rest order)
      (wrap "observe cluster" (Admin.state (seed cr))) d = (.ok d.seen, d) :=
    exec_wrap_ok _ rfl
  have hplan : exec (Deployment.world cr fails rest order)
      (choosePlan cr (summarize cr d.seen)) d =
      (.ok (chosenPlan cr d.kube.statefulSets (summarize cr d.seen)), d) :=
    exec_choosePlan (Deployment.kubeBacked ..) hd.sets _
  rw [reconcileCluster, calls_bind_ok hstate, calls_bind_ok hplan]

section

variable (hd : Deployed cr d) (hshards : 0 < cr.spec.shards) (hformed : d.state.formed = true)
  (hunstable : d.state.openSlots = true ∨ d.state.slotsCovered = false)

include hformed hunstable

theorem decide_unstable :
    (Topology.decide (desired cr) (summarize cr d.seen)).kind = .repair := by
  refine Topology.decide_uncovered hformed ?_
  change (d.state.slotsCovered && !d.state.openSlots) = false
  rcases hunstable with h | h <;> simp [h]

include hd hshards

/-- With a StatefulSet beyond the desired shards, the repair that was decided on gives
way to scaling in. -/
theorem reconcileCluster_not_gated
    (hseed : ∀ k, (d.reply fails (podFQDN cr 0 0) k).isSome)
    (hexcess : ∃ i, HasSet cr d.kube.statefulSets i ∧ cr.spec.shards ≤ i) :
    ∃ e ∈ calls (Deployment.world cr fails rest order) (reconcileCluster cr) d,
      ¬ Gated e.1 := by
  have hscale : (chosenPlan cr d.kube.statefulSets (summarize cr d.seen)).kind =
      .scaleInShards :=
    chosenPlan_of_excess hd.sets (by simp [decide_unstable hformed hunstable]) hexcess
  obtain ⟨⟨k, hannounced, hpub⟩, -⟩ := Prog.runs_iff.1 (runs_republished
    (Deployment.kubeBacked (podFQDN cr 0 0) fails rest order) (G := fun _ _ => True)
    (only_announce cr .resharding "Resharding" "removing shards") fun _ _ _ _ => trivial)
  have hannounce : exec (Deployment.world cr fails rest order)
      (liftM (announce cr .resharding "Resharding" "removing shards") : Act Unit) d =
      (.ok (), d.putKube k) := by
    rw [exec_lift, hannounced]
  have hsets : k.statefulSets = d.kube.statefulSets := by rw [hpub.rest]
  obtain ⟨e, he, hne⟩ : ∃ e ∈ calls (Deployment.world cr fails rest order) (scaleIn cr)
      (d.putKube k), ¬ Gated e.1 :=
    scaleIn_not_gated (deployed_putKube hd hpub) hshards hseed (hsets.symm ▸ hexcess)
  refine ⟨e, ?_, hne⟩
  rw [calls_reconcileCluster hd, hscale, act, bind_assoc,
    calls_bind_ok hannounce]
  exact List.mem_append_right _ (List.mem_append_right _ (List.mem_append_right _
    (mem_calls_bind he)))

/-- The pass of an unstable cluster stays behind the gate when no StatefulSet is left beyond the
desired shards. Once the seed answers who it is, it stays there only then. -/
theorem reconcileCluster_gated_iff :
    ((∀ i, HasSet cr d.kube.statefulSets i → i < cr.spec.shards) →
      ∀ e ∈ calls (Deployment.world cr fails rest order) (reconcileCluster cr) d, Gated e.1) ∧
    ((∀ k, (d.reply fails (podFQDN cr 0 0) k).isSome) →
      ((∀ e ∈ calls (Deployment.world cr fails rest order) (reconcileCluster cr) d, Gated e.1) ↔
        ∀ i, HasSet cr d.kube.statefulSets i → i < cr.spec.shards)) := by
  have hstays : (∀ i, HasSet cr d.kube.statefulSets i → i < cr.spec.shards) →
      ∀ e ∈ calls (Deployment.world cr fails rest order) (reconcileCluster cr) d, Gated e.1 := by
    intro hnone
    have hrepair : (chosenPlan cr d.kube.statefulSets (summarize cr d.seen)).kind = .repair := by
      rw [chosenPlan_of_none hd.sets hnone, decide_unstable hformed hunstable]
    have hlist : Prog.Only Gated (choosePlan cr (summarize cr d.seen)).run :=
      only_choosePlan trivial _
    rw [calls_reconcileCluster hd, List.forall_mem_append,
      List.forall_mem_append, hrepair]
    refine ⟨?_, hlist.mem_trace, (only_repair _ _).mem_trace⟩
    exact (only_wrap _ (Prog.only_op.2 fun h => h)).mem_trace
  refine ⟨hstays, fun hseed => ⟨fun hgated i hi => ?_, hstays⟩⟩
  by_contra hge
  obtain ⟨e, he, hne⟩ := reconcileCluster_not_gated hd hshards hformed hunstable hseed
    ⟨i, hi, Nat.le_of_not_lt hge⟩
  exact hne (hgated e he)

end

end

/-! ## An interrupted drain

One shard is wanted, another is still being drained when a slot is left open. -/

def interrupted (shards : List (Nat × Nat)) : Deployment :=
  .onPaper loneCluster shards shrinkingPods ⟨true, true, true,
    [shrinkingNode "a" 0 0 ["master"] "" [⟨0, 16382⟩],
      shrinkingNode "b" 2 0 ["master"] "" [⟨16383, 16383⟩]]⟩

theorem interrupted_deployed {shards : List (Nat × Nat)}
    (hfits : ∀ s ∈ shards, (s.1 : Int) ≤ Text.maxInt) (hshards : (shards.map Prod.fst).Nodup)
    (hids : ∀ p ∈ Deployment.podsOf shards, ∀ q ∈ Deployment.podsOf shards,
      shrinkingPods p = shrinkingPods q → p = q) :
    Deployed loneCluster (interrupted shards) :=
  Deployment.deployed_onPaper hfits hshards hids
    (fun p _ => by unfold shrinkingPods; split <;> [decide; split <;> decide]) (by decide)

theorem interrupted_seed {shards : List (Nat × Nat)} (h : (0, 0) ∈ Deployment.podsOf shards)
    (k : Nat) : ((interrupted shards).reply (fun _ _ => false) (podFQDN loneCluster 0 0)
      k).isSome := by
  have hserving : (interrupted shards).serving (podFQDN loneCluster 0 0) = some "a" :=
    Deployment.serving_onPaper.2 ⟨h, rfl⟩
  simp [Deployment.reply, hserving]

theorem reconcileCluster_gated_single :
    Deployed loneCluster (interrupted [(0, 1)]) ∧
    ∀ e ∈ calls (Deployment.world loneCluster (fun _ _ => false) Deployment.idle
      asWritten) (reconcileCluster loneCluster) (interrupted [(0, 1)]),
      Gated e.1 := by
  have hd : Deployed loneCluster (interrupted [(0, 1)]) :=
    interrupted_deployed (by decide) (by decide) (by decide)
  refine ⟨hd, (reconcileCluster_gated_iff hd (by decide) rfl (Or.inl rfl)).1 fun i hi => ?_⟩
  obtain rfl : i = 0 := statefulSetName_injective (List.mem_singleton.1 hi)
  decide

/-- The slot is open, and still the other shard is drained. -/
theorem reconcileCluster_gate_opened :
    Deployed loneCluster (interrupted [(0, 1), (2, 1)]) ∧ loneCluster.spec.Admitted ∧
    (interrupted [(0, 1), (2, 1)]).state.formed = true ∧
    (interrupted [(0, 1), (2, 1)]).state.openSlots = true ∧
    ∃ e ∈ calls (Deployment.world loneCluster (fun _ _ => false) Deployment.idle
      asWritten) (reconcileCluster loneCluster) (interrupted [(0, 1), (2, 1)]),
      ¬ Gated e.1 := by
  have hd : Deployed loneCluster (interrupted [(0, 1), (2, 1)]) :=
    interrupted_deployed (by decide) (by decide) (by decide)
  refine ⟨hd, ⟨Or.inl rfl, by decide, by decide⟩, rfl, rfl, ?_⟩
  refine reconcileCluster_not_gated hd (by decide) rfl (Or.inl rfl)
    (interrupted_seed (by decide)) ⟨2, ?_, by decide⟩
  exact List.mem_cons_of_mem _ (List.mem_singleton.2 rfl)

end Valkeyop.Controller
