import Valkeyop.Proofs.FakeRuns
import Valkeyop.Proofs.PassCalls

/-!
# Formation that is interrupted

Forming a cluster is three loops: everyone is met, the slots are dealt out, the
replicas are attached. Stopped in the first, nobody owns a slot and the next pass
forms the cluster again; stopped in the third, all slots are dealt and the next pass
only has replicas left to attach. Stopped in the middle of the deal, some slots have
an owner and others do not. That is taken for damage, a repair is asked for that has
nothing to repair, and the rest of the deal is never made up for.
-/

namespace Valkeyop.Controller

open Valkeyop.Lib Valkeyop.Lib.Fallible Valkeyop.Cluster Valkeyop.Api Valkeyop.Resources

/-- The API server when the cluster is formed: the resource is stored and not yet
`Ready`, and exactly the desired shards have their StatefulSets. -/
structure Provided (cr : ValkeyCluster) (k : ApiServer) : Prop where
  cluster : ∃ c, k.cluster = some c ∧ SameCluster cr c ∧ c.status.phase ≠ some .ready
  own : OwnSets cr k.statefulSets
  hasSet : ∀ i, HasSet cr k.statefulSets i ↔ i < cr.spec.shards

/-- What is left when the forming of an empty cluster stops after `k` calls. -/
def World.interrupted (order : RangeOrders) (cr : ValkeyCluster) (kube : ApiServer) (k : Nat) :
    World :=
  ((formCluster cr).run.after (answer order) k ⟨.empty, kube, 0⟩).2

/-- All slots have an owner, and the resource says so. -/
def Recovered (w : World) : Prop :=
  w.fake.assignedSlots = 16384 ∧
    ∃ c, w.kube.cluster = some c ∧ c.status.phase = some .ready

/-- How many pods are met: all but the seed. -/
def meets (cr : ValkeyCluster) : Nat := cr.spec.shards * (1 + cr.spec.replicasPerShard) - 1

section

variable {cr : ValkeyCluster} {order : RangeOrders} {kube : ApiServer} {w : World}
  {p : Placement}

theorem interrupted_kube (k : Nat) : (World.interrupted order cr kube k).kube = kube := by
  have hruns : Prog.Runs (World.answer order) (fun _ w => w.kube = kube)
      (fun _ w => w.kube = kube) (formCluster cr).run ⟨.empty, kube, 0⟩ := by
    refine Prog.Only.runs (P := fun c => ∃ a, c = .admin a) (only_formCluster
      (fun _ _ => ⟨_, rfl⟩) (fun _ _ => ⟨_, rfl⟩) (fun _ => ⟨_, rfl⟩) (fun _ => ⟨_, rfl⟩)
      (fun _ _ => ⟨_, rfl⟩)) ?_ rfl
    rintro _ w ⟨a, rfl⟩ hw
    exact ⟨hw, hw⟩
  exact hruns.after k

/-! ## How far it gets -/

theorem sum_map_one {α : Type} {g : α → Nat} {l : List α} (h : ∀ x ∈ l, g x = 1) :
    (l.map g).sum = l.length := by
  rw [List.map_congr_left h]
  simp

theorem sum_meets (hn : 0 < cr.spec.shards) :
    ((allEndpoints cr).map fun ep => if ep.host = (seed cr).host then 0 else 1).sum =
      meets cr := by
  obtain ⟨n, hn⟩ : ∃ n, cr.spec.shards = n + 1 := ⟨cr.spec.shards - 1, by omega⟩
  have hone : ∀ i j, (i, j) ≠ (0, 0) → (endpoint cr i j).host ≠ (seed cr).host := by
    intro i j hne heq
    obtain ⟨rfl, rfl⟩ := podFQDN_inj heq
    exact hne rfl
  -- the seed comes first, and nobody else is the seed
  have hseed : allEndpoints cr = seed cr ::
      ((List.range cr.spec.replicasPerShard).map fun j => endpoint cr 0 (j + 1)) ++
      (List.range n).flatMap fun i =>
        (List.range (cr.spec.replicasPerShard + 1)).map (endpoint cr (i + 1)) := by
    have hrow : (List.range (cr.spec.replicasPerShard + 1)).map (endpoint cr 0) =
        seed cr :: (List.range cr.spec.replicasPerShard).map fun j => endpoint cr 0 (j + 1) := by
      rw [List.range_succ_eq_map, List.map_cons, List.map_map]
      rfl
    rw [allEndpoints, hn, ← hrow, List.range_succ_eq_map (n := n), List.flatMap_cons,
      List.flatMap_map]
  rw [hseed, List.cons_append, List.map_cons, List.sum_cons, if_pos rfl, Nat.zero_add,
    sum_map_one]
  · simp [meets, hn, Nat.add_mul, Nat.add_comm]
  · intro ep hep
    refine if_neg ?_
    simp only [List.mem_append, List.mem_map, List.mem_flatMap] at hep
    rcases hep with ⟨j, -, rfl⟩ | ⟨i, -, j, -, rfl⟩
    · exact hone _ _ (by simp)
    · exact hone _ _ (by simp)

/-- Meeting everyone, stopped anywhere, deals nothing out. -/
theorem paced_meetAll (h : Placed cr w p) (hn : 0 < cr.spec.shards) :
    Paced (World.answer order) (fun _ w' => Placed cr w' p) (meets cr)
      ((allEndpoints cr).forM fun ep =>
        if ep.host = (seed cr).host then pure ()
        else wrap ("meet " ++ ep.host) (Admin.meet (seed cr) ep)) w := by
  rw [← sum_meets hn]
  refine Paced.forM (fun done ep todo hl w₁ hw₁ => ?_) h
  have hep : ep ∈ allEndpoints cr := by simp [hl]
  obtain ⟨i, -, j, -, rfl⟩ := mem_allEndpoints.1 hep
  split
  · exact paced_pure hw₁
  · have hmet := (undisturbed_ensure (undisturbed_ensure hw₁ 0 0).placed i j).placed
    exact paced_one rfl rfl hw₁ hmet

theorem paced_deal {n : Nat} (h : Placed cr w (.ofDeal n 0)) :
    Paced (World.answer order) (fun k w' => Placed cr w' (.ofDeal n k)) n
      ((Slots.distribute n).zipIdx.forM fun (r, i) =>
        wrap ("addslots shard " ++ toString i) (Admin.addSlots (endpoint cr i 0) [r])) w := by
  have hlen : (Slots.distribute n).zipIdx.length = n := by
    rw [List.length_zipIdx, Slots.length_distribute]
  have hcount : ∀ l : List (SlotRange × Nat), (l.map fun _ => 1).sum = l.length := fun _ =>
    sum_map_one fun _ _ => rfl
  have hdeal := Paced.forM (I := fun k w' => Placed cr w' (.ofDeal n k)) (g := fun _ => 1)
    (h := World.answer order) (l := (Slots.distribute n).zipIdx)
    (f := fun (r, i) =>
      wrap ("addslots shard " ++ toString i) (Admin.addSlots (endpoint cr i 0) [r]))
    (fun done x todo hl w₁ hw₁ => ?_) h
  · rwa [hcount, hlen] at hdeal
  obtain ⟨r, i⟩ := x
  rw [hcount] at hw₁ ⊢
  have hx : (Slots.distribute n).zipIdx[done.length]? = some (r, i) := by simp [hl]
  have hlt : done.length < n := by
    rw [hl] at hlen
    simp at hlen
    omega
  obtain ⟨rfl, hr⟩ := getElem_distribute_zipIdx hx
  refine paced_one rfl rfl hw₁ ⟨?_, hw₁.own, hw₁.hasSet⟩
  have hholds := hw₁.holds.addSlots (i := done.length) hr
  have hslots : (Placement.ofDeal n (done.length + 1)).slots = Function.update
      (Placement.ofDeal n done.length).slots done.length
      ((Placement.ofDeal n done.length).slots done.length + Placement.share n done.length) := by
    simp only [Placement.ofDeal]
    rw [min_eq_left (by omega), min_eq_left (by omega), Placement.update_dealt]
  rw [hslots]
  exact hholds

theorem ofDeal_of_le {n k : Nat} (hk : n ≤ k) : Placement.ofDeal n k = .ofDeal n n := by
  simp only [Placement.ofDeal, Nat.min_self, Nat.min_eq_right hk]

/-- Forming an empty cluster, stopped anywhere. -/
theorem paced_formCluster (h : Placed cr w (.ofDeal cr.spec.shards 0))
    (hn : 0 < cr.spec.shards) :
    ∃ m, meets cr + cr.spec.shards ≤ m ∧ Paced (World.answer order)
      (fun k w' => Placed cr w' (.ofDeal cr.spec.shards (k - meets cr))) m (formCluster cr) w := by
  have hmeet : Paced (World.answer order) _ _ _ w := paced_meetAll h hn
  obtain ⟨_, w₁, hexec₁, h₁⟩ := hmeet.post
  have hdeal : Paced (World.answer order) _ _ _ w₁ := paced_deal h₁
  obtain ⟨_, w₂, hexec₂, h₂⟩ := hdeal.post
  have hrest : Succeeds (World.answer order)
      (fun _ w' => Placed cr w' (.ofDeal cr.spec.shards cr.spec.shards))
      (fun _ w' => Placed cr w' (.ofDeal cr.spec.shards cr.spec.shards))
      (Admin.state (seed cr) >>= attachReplicas cr) w₂ := by
    refine succeeds_bind.2 ((Prog.runs_op (c := Call.admin (.state (seed cr)))).2 ⟨h₂, ?_⟩)
    exact (succeeds_attachReplicas_now guards_placed h₂).mono fun _ _ hw => hw.1.placed
  refine ⟨_, ?_, (hmeet.mono fun k hk w' hw' => ?_).bind hexec₁
    ((hdeal.mono fun k hk w' hw' => ?_).bind hexec₂
      ((paced_of_succeeds hrest).mono fun k hk w' hw' => ?_))⟩
  · omega
  · rwa [Nat.sub_eq_zero_of_le hk]
  · rwa [Nat.add_sub_cancel_left]
  · rwa [Nat.add_sub_cancel_left, ofDeal_of_le (Nat.le_add_right ..)]

theorem placed_provided (hk : Provided cr kube) :
    Placed cr ⟨.empty, kube, 0⟩ (.ofDeal cr.spec.shards 0) := by
  refine ⟨⟨fun hn => ?_, fun i => ?_⟩, hk.own, fun i => (hk.hasSet i).trans ?_⟩
  · exact absurd hn (by simp [Fake.empty])
  · rw [Placement.slots_ofDeal, Nat.zero_min, Placement.dealt_zero]
    rfl
  · rw [Placement.ofDeal, Finset.mem_range]

theorem placed_interrupted (hk : Provided cr kube) (hn : 0 < cr.spec.shards) (k : Nat) :
    Placed cr (World.interrupted order cr kube k)
      (.ofDeal cr.spec.shards (k - meets cr)) := by
  obtain ⟨m, hm, hpaced⟩ : ∃ m, _ ∧ Paced (World.answer order) _ m _ _ :=
    paced_formCluster (placed_provided hk) hn
  by_cases hle : k ≤ m
  · exact hpaced.stop k hle
  · have hlast := hpaced.last (k := k) (by omega)
    rw [ofDeal_of_le (by omega)] at hlast
    rwa [ofDeal_of_le (by omega)]

/-! ## What becomes of it -/

variable {c : ValkeyCluster}

/-- `Ready` takes a slot for every shard. -/
theorem Tracked.not_recovered_of_many (h : Tracked cr w c p) (hmany : slotSpace < c.spec.shards)
    (m : Nat) : ¬ Recovered ((World.pass order cr)^[m + 1] w) := by
  rintro ⟨-, c', hc', hready⟩
  rw [Function.iterate_succ_apply'] at hc'
  obtain ⟨p₁, ⟨c₁, h₁, hspec⟩, -⟩ := (simulated_pass cr c.spec order).iterate
    (I := fun _ => True) (fun _ _ _ _ => trivial) ⟨c, h, rfl⟩ trivial m
  obtain ⟨⟨c₂, p₂, h₂, hpassed⟩, -⟩ := h₁.pass order
  obtain rfl : c' = c₂ := Option.some.inj (hc'.symm.trans h₂.cluster)
  obtain ⟨-, hcard, htotal⟩ := hpassed.phase.1 hready
  have := p₂.card_owners_le_total
  rw [hspec] at hcard
  omega

/-- A deal that was broken off is never completed. -/
theorem Tracked.not_recovered_of_part (h : Tracked cr w c p) (hsome : p.total ≠ 0)
    (hpart : p.total ≠ slotSpace) (m : Nat) : ¬ Recovered ((World.pass order cr)^[m] w) := by
  rintro ⟨htotal, -⟩
  obtain ⟨p', ⟨c', h', -⟩, htotal'⟩ := (simulated_pass cr c.spec order).iterate
    (I := fun q => q.total = p.total)
    (fun a b ha hpass => (hpass.total_of_part (ha ▸ hsome) (ha ▸ hpart)).trans ha)
    ⟨c, h, rfl⟩ rfl m
  rw [h'.placed.holds.assignedSlots, htotal'] at htotal
  exact hpart (Int.ofNat_inj.1 htotal)

/-- If nothing or everything is dealt out, one pass is enough. -/
theorem Tracked.recovered_of_dealt (h : Tracked cr w c p) (hle : c.spec.shards ≤ slotSpace)
    (hsets : p.sets ⊆ Finset.range c.spec.shards)
    (hslots : p.total = 0 ∨ p.slots = Placement.dealt c.spec.shards c.spec.shards) :
    Recovered (w.pass order cr) := by
  obtain ⟨⟨c', p', h', hpassed⟩, -⟩ := h.pass order
  have hslots' : p'.slots = Placement.dealt c.spec.shards c.spec.shards := by
    rcases hslots with hzero | hslots
    · exact hpassed.pass.slots_of_form hzero
    · have howners := Placement.owners_dealt h.shards hle hslots
      have hserving : p.Serving := ⟨Placement.total_dealt_all h.shards hslots,
        Placement.mem_owners.1 (howners ▸ Finset.mem_range.2 h.shards)⟩
      exact (hpassed.pass.settled hserving ⟨howners, hsets⟩).2.trans hslots
  have howners := Placement.owners_dealt h.shards hle hslots'
  have htotal := Placement.total_dealt_all h.shards hslots'
  refine ⟨?_, c', h'.cluster, hpassed.phase.2 ⟨fun i hi => ?_, ?_, htotal⟩⟩
  · rw [h'.placed.holds.assignedSlots, htotal]
    rfl
  · exact Placement.mem_owners.1 (howners ▸ Finset.mem_range.2 hi)
  · rw [howners, Finset.card_range]

theorem tracked_interrupted (halive : cr.deletionTimestamp = none) (hk : Provided cr kube)
    (hn : 0 < cr.spec.shards) (order : RangeOrders) (k : Nat) :
    ∃ c, SameCluster cr c ∧ c.status.phase ≠ some .ready ∧
      Tracked cr (World.interrupted order cr kube k) c
        (.ofDeal cr.spec.shards (k - meets cr)) := by
  obtain ⟨c, hc, hsame, hphase⟩ := hk.cluster
  refine ⟨c, hsame, hphase, ?_, hsame.name, hsame.nspace, hsame.deletion.trans halive,
    hsame.spec ▸ hn, hsame.spec ▸ fun i hi => hk.own.fits i ((hk.hasSet i).2 hi),
    (placed_interrupted hk hn k).congr hsame.name hsame.nspace, Or.inr (Or.inr ?_)⟩
  · rw [interrupted_kube, hc]
  · rw [hsame.spec]
    exact subset_rfl

theorem total_ofDeal (n k : Nat) : (Placement.ofDeal n k).total = min k n * slotSpace / n :=
  Placement.total_dealt rfl

/-- Strictly between the two ends of the deal, the slots are neither all free nor all
owned. -/
theorem total_ofDeal_part {n k : Nat} (hle : n ≤ slotSpace) (hk : 0 < k) (hkn : k < n) :
    (Placement.ofDeal n k).total ≠ 0 ∧ (Placement.ofDeal n k).total ≠ slotSpace := by
  rw [total_ofDeal, Nat.min_eq_left (by omega)]
  have hpos : 0 < k * slotSpace / n :=
    Nat.div_pos (hle.trans (Nat.le_mul_of_pos_left _ hk)) (by omega)
  have hlt : k * slotSpace / n < slotSpace :=
    Nat.div_lt_of_lt_mul (Nat.mul_lt_mul_of_pos_right hkn (by decide))
  omega

/-- The interrupted formation recovers exactly when it was not stopped in the deal (and
there are enough slots to deal). -/
theorem formCluster_recovers_iff (halive : cr.deletionTimestamp = none)
    (hn : 1 ≤ cr.spec.shards) (hk : Provided cr kube) (order : RangeOrders) (k : Nat) :
    (∃ m, Recovered ((World.pass order cr)^[m] (World.interrupted order cr kube k))) ↔
      cr.spec.shards ≤ 16384 ∧
        (k ≤ cr.spec.shards * (1 + cr.spec.replicasPerShard) - 1 ∨
          cr.spec.shards * (1 + cr.spec.replicasPerShard) - 1 + cr.spec.shards ≤ k) := by
  change _ ↔ cr.spec.shards ≤ slotSpace ∧ (k ≤ meets cr ∨ meets cr + cr.spec.shards ≤ k)
  obtain ⟨c, hsame, hphase, h⟩ := tracked_interrupted halive hk hn order k
  constructor
  · rintro ⟨m, hm⟩
    have hle : cr.spec.shards ≤ slotSpace := by
      by_contra hmany
      cases m with
      | zero =>
          obtain ⟨-, c', hc', hready⟩ := hm
          obtain rfl : c = c' := Option.some.inj (h.cluster.symm.trans hc')
          exact hphase hready
      | succ m => exact h.not_recovered_of_many (by rw [hsame.spec]; omega) m hm
    refine ⟨hle, ?_⟩
    by_contra hmiddle
    obtain ⟨hsome, hpart⟩ :=
      total_ofDeal_part hle (k := k - meets cr) (by omega) (by omega)
    exact h.not_recovered_of_part hsome hpart m hm
  · rintro ⟨hle, hends⟩
    refine ⟨1, h.recovered_of_dealt (hsame.spec ▸ hle) (by rw [hsame.spec]; exact subset_rfl) ?_⟩
    rw [hsame.spec]
    rcases hends with hbefore | hafter
    · refine Or.inl ?_
      rw [Nat.sub_eq_zero_of_le hbefore, total_ofDeal, Nat.zero_min, Nat.zero_mul, Nat.zero_div]
    · refine Or.inr ?_
      rw [Placement.slots_ofDeal, Nat.min_eq_right (by omega)]

end

theorem provided_provisioned {cr : ValkeyCluster} (hnum : Numbered cr.spec.shards)
    (hphase : cr.status.phase ≠ some .ready) : Provided cr (.provisioned cr) := by
  have h := provisioned_provisioned hnum
  refine ⟨⟨cr, h.cluster, ⟨rfl, rfl, rfl, rfl⟩, hphase⟩, h.own, fun i => (h.hasSet i).trans ?_⟩
  simp [HasSet]

/-- Three shards without replicas. -/
def smallCluster : ValkeyCluster where
  name := "small"
  nspace := "default"
  spec := { shards := 3, replicasPerShard := 0 }

theorem provided_smallCluster : Provided smallCluster (.provisioned smallCluster) :=
  provided_provisioned (numbered_of_le (by decide)) (by decide)

/-- Stopped after the pods have met. -/
theorem formCluster_recovers_met :
    ∃ m, Recovered ((World.pass (fun _ => asWritten) smallCluster)^[m]
      (World.interrupted (fun _ => asWritten) smallCluster (.provisioned smallCluster) 2)) :=
  (formCluster_recovers_iff rfl (by decide) provided_smallCluster _ 2).2 (by decide)

/-- Stopped after shard 0 has been given its slots, and not recovered from. -/
theorem formCluster_never_recovers :
    smallCluster.spec.Admitted ∧ Provided smallCluster (.provisioned smallCluster) ∧
    ∀ m, ¬ Recovered ((World.pass (fun _ => asWritten) smallCluster)^[m]
      (World.interrupted (fun _ => asWritten) smallCluster (.provisioned smallCluster) 3)) := by
  refine ⟨by decide, provided_smallCluster, fun m => ?_⟩
  obtain ⟨c, -, -, h⟩ :=
    tracked_interrupted rfl provided_smallCluster (by decide) (fun _ => asWritten) 3
  obtain ⟨hsome, hpart⟩ := total_ofDeal_part (n := 3) (k := 1) (by decide) (by decide) (by decide)
  exact h.not_recovered_of_part hsome hpart m

end Valkeyop.Controller
