import Valkeyop.Proofs.FakeRuns

/-!
# Converging to the newest topology

Left alone, the passes bring the cluster to the topology of the spec, unless the
edits have left a gap: scaling out takes the number of slot owners for the first
index that is free, so an owner above a shard that has been drained hides the drained
shard for good. `OwnersInOrder` says that there is no such gap below the last desired
shard. A gap at the last shard does no harm, since that shard is the first to be
filled once the owners beyond it are drained.

The argument is `Placement.exists_settled` one level up. What is added here is the
last pass, which attaches the replicas and publishes `Ready`.
-/

namespace Valkeyop.Controller

open Valkeyop.Lib Valkeyop.Lib.Fallible Valkeyop.Cluster Valkeyop.Api Valkeyop.Resources

/-- One pod of shard `i` is a primary with slots, and all others replicate it. -/
def ShardConverged (cr : ValkeyCluster) (f : Fake) (i : Nat) : Prop :=
  ∃ j ≤ cr.spec.replicasPerShard, ∃ n, f.nodes.lookup (podFQDN cr i j) = some n ∧
    ownsSlots n = true ∧ ∀ j' ≤ cr.spec.replicasPerShard, j' ≠ j →
      ∃ m, f.nodes.lookup (podFQDN cr i j') = some m ∧ m.masterID = n.id

/-- The world is as the stored spec wants it. -/
def Converged (w : World) : Prop :=
  ∃ c, w.kube.cluster = some c ∧ c.status.phase = some .ready ∧
    (∀ i, c.spec.shards ≤ i → ¬ HasSet c w.kube.statefulSets i) ∧
    ∀ i < c.spec.shards, ShardConverged c w.fake i

/-- As far as they are counted, and up to the last but one desired shard, the slot
owners are the first shards. -/
def OwnersInOrder (w : World) : Prop :=
  ∀ c, w.kube.cluster = some c →
    ∀ i < min (summarize c w.fake.state).primaryCount (c.spec.shards - 1),
      0 < (NodeMap.get w.fake.nodes (podFQDN c i 0)).slotCount

section

variable {cr c : ValkeyCluster} {w : World} {p : Placement}

theorem Tracked.ownersInOrder_iff (h : Tracked cr w c p) :
    OwnersInOrder w ↔ p.OnTrack c.spec.shards := by
  have hcount := h.placed.holds.summarize.2.2
  constructor
  · intro hin i hi
    have hpos := hin c h.cluster i (by rwa [hcount])
    rw [h.placed.holds.slots] at hpos
    exact Int.natCast_pos.1 hpos
  · intro htrack c' hc' i hi
    obtain rfl : c = c' := Option.some.inj (h.cluster.symm.trans hc')
    rw [hcount] at hi
    rw [h.placed.holds.slots]
    exact Int.natCast_pos.2 (htrack i hi)

/-! ## A gap stays -/

theorem Holds.slots_pos_of_converged {f : Fake} {slots : Nat → Nat} {i : Nat}
    (h : Holds cr f slots) (hi : ShardConverged cr f i) : 0 < slots i := by
  obtain ⟨j, -, n, hn, howns, -⟩ := hi
  have hcount := ((h.roles hn).ownsSlots_iff).1 howns
  obtain ⟨i', hkey, -, hpos⟩ := h.owner hn (by omega)
  obtain ⟨rfl, -⟩ := podFQDN_inj hkey
  exact hpos

theorem Tracked.onTrack_of_converged (h : Tracked cr w c p) (hw : Converged w) :
    p.OnTrack c.spec.shards := by
  obtain ⟨c', hc', -, -, hshards⟩ := hw
  obtain rfl : c = c' := Option.some.inj (h.cluster.symm.trans hc')
  refine Placement.onTrack_of_owners fun i hi => Placement.mem_owners.2 ?_
  exact h.placed.holds.slots_pos_of_converged (hshards i (Finset.mem_range.1 hi))

theorem Reached.onTrack_of_converges (h : Reached cr w c p) (order : RangeOrders)
    (hconv : ∃ k, Converged ((World.pass order cr)^[k] w)) : p.OnTrack c.spec.shards := by
  obtain ⟨k, hk⟩ := hconv
  rcases h.formed with hzero | hp
  · -- nobody owns a slot, so nobody is counted
    intro i hi
    have := p.card_owners_le_total
    omega
  · obtain ⟨p', ⟨c', h', hspec⟩, hiff⟩ := Placement.onTrack_iterate h.shards h.few
      (simulated_pass cr c.spec order) ⟨c, h.toTracked, rfl⟩ hp k
    exact hiff.1 (hspec ▸ h'.onTrack_of_converged hk)

/-! ## The last pass -/

theorem Holds.exists_first {f : Fake} {slots : Nat → Nat} {i : Nat} (h : Holds cr f slots)
    (hpos : 0 < slots i) : ∃ n, f.nodes.lookup (podFQDN cr i 0) = some n ∧
      n.id = podFQDN cr i 0 ∧ ownsSlots n = true := by
  cases hn : f.nodes.lookup (podFQDN cr i 0) with
  | none =>
      have hzero := h.slots i
      rw [NodeMap.get, hn] at hzero
      change (0 : Int) = slots i at hzero
      omega
  | some n =>
      have hcount := h.slotCount_eq hn
      exact ⟨n, rfl, (h.roles hn).id, ((h.roles hn).ownsSlots_iff).2 (by omega)⟩

theorem Holds.shardConverged {f : Fake} {slots : Nat → Nat} {i : Nat} (h : Holds cr f slots)
    (hpos : 0 < slots i) (hattached : Attached cr f) (hi : i < cr.spec.shards) :
    ShardConverged cr f i := by
  obtain ⟨n, hn, hid, howns⟩ := h.exists_first hpos
  refine ⟨0, Nat.zero_le _, n, hn, howns, fun j hj hne => ?_⟩
  rw [hid]
  exact hattached i hi j hj hne

/-- From a settled placement, one pass is enough. -/
theorem Tracked.converged_of_settled (h : Tracked cr w c p) (hp : p.Serving)
    (hsettled : p.Settled c.spec.shards) (order : RangeOrders) :
    Converged (w.pass order cr) := by
  obtain ⟨⟨c', p', h', hpassed⟩, -⟩ := h.pass order
  have hspec : c'.spec = c.spec := hpassed.same.spec
  obtain ⟨hsettled', hslots⟩ := hpassed.pass.settled hp hsettled
  have hpos : ∀ i < c.spec.shards, 0 < p'.slots i := fun i hi =>
    Placement.mem_owners.1 (hsettled'.owners ▸ Finset.mem_range.2 hi)
  refine ⟨c', h'.cluster, hpassed.phase.2 ⟨hpos, ?_, ?_⟩, fun i hi hset => ?_, fun i hi => ?_⟩
  · rw [hsettled'.owners, Finset.card_range]
  · exact (Placement.total_congr hslots).trans hp.total
  · have := Finset.mem_range.1 (hsettled'.sets ((h'.placed.hasSet i).1 hset))
    rw [hspec] at hi
    omega
  · exact h'.placed.holds.shardConverged (hpos i (hspec ▸ hi))
      ((hpassed.attached hp.total hsettled).congr hpassed.same) hi

theorem Reached.converges_of_serving (h : Reached cr w c p) (hp : p.Serving)
    (htrack : p.OnTrack c.spec.shards) (order : RangeOrders) :
    ∃ k, Converged ((World.pass order cr)^[k] w) := by
  obtain ⟨k, p', ⟨c', h', hspec⟩, hp', hsettled⟩ := Placement.exists_settled h.shards h.few
    (simulated_pass cr c.spec order) ⟨c, h.toTracked, rfl⟩ hp htrack
  refine ⟨k + 1, ?_⟩
  rw [Function.iterate_succ_apply']
  exact h'.converged_of_settled hp' (hspec ▸ hsettled) order

/-- A run converges from exactly the placements that are on the track. -/
theorem Reached.converges_iff (h : Reached cr w c p) (order : RangeOrders) :
    (∃ k, Converged ((World.pass order cr)^[k] w)) ↔ p.OnTrack c.spec.shards := by
  refine ⟨h.onTrack_of_converges order, fun htrack => ?_⟩
  rcases h.formed with hzero | hp
  · -- the first pass forms the cluster
    obtain ⟨c', p', h', hpassed, hp'⟩ := h.pass order
    have howners := (hpassed.pass.serving_of_form h.shards h.few hzero).2
    obtain ⟨k, hk⟩ := h'.converges_of_serving hp'
      (Placement.onTrack_of_owners (by rw [howners, hpassed.same.spec])) order
    exact ⟨k + 1, hk⟩
  · exact h.converges_of_serving hp htrack order

/-! ## Runs of edits and passes -/

theorem admitted_shards {s : ValkeyClusterSpec} (h : s.Admitted) :
    0 < s.shards ∧ s.shards ≤ slotSpace := by
  obtain ⟨hquorum, hmax, -⟩ := h
  rw [slotSpace]
  omega

/-- After any run, the passes that follow converge if and only if the owners are in
order. -/
theorem run_converges_iff (halive : cr.deletionTimestamp = none) (hcr : cr.spec.Admitted)
    (order : RangeOrders) (steps : List World.Step)
    (hsteps : ∀ n r, .edit n r ∈ steps →
      ({ cr.spec with shards := n, replicasPerShard := r } : ValkeyClusterSpec).Admitted) :
    (∃ k, Converged ((World.pass order cr)^[k] (World.run order cr steps (World.start cr)))) ↔
      OwnersInOrder (World.run order cr steps (World.start cr)) := by
  obtain ⟨c, p, h, -⟩ := (reached_start halive (admitted_shards hcr)).run order
    fun n r hmem => admitted_shards (hsteps n r hmem)
  rw [h.converges_iff order, h.toTracked.ownersInOrder_iff]

end

/-- A shard is taken away from a cluster that has just been formed. -/
theorem run_converges_smaller :
    ∃ k, Converged ((World.pass (fun _ => asWritten) roomyCluster)^[k]
      (World.run (fun _ => asWritten) roomyCluster [.pass, .edit 3 1]
        (World.start roomyCluster))) := by
  refine (run_converges_iff rfl (by decide) _ _ fun n r hedit => ?_).2 ?_
  · simp only [List.mem_cons, World.Step.edit.injEq, List.not_mem_nil, reduceCtorEq, false_or,
      or_false] at hedit
    obtain ⟨rfl, rfl⟩ := hedit
    decide
  · have hstart : Reached roomyCluster (World.start roomyCluster) roomyCluster Placement.empty :=
      reached_start rfl (by decide)
    obtain ⟨c₁, p₁, h₁, hpassed, -⟩ := hstart.pass fun _ => asWritten
    have howners := (hpassed.pass.serving_of_form (by decide) (by decide) rfl).2
    obtain ⟨c₂, h₂, hspec⟩ := h₁.edit (n := 3) (by decide) 1
    refine h₂.toTracked.ownersInOrder_iff.2 (Placement.onTrack_of_owners ?_)
    rw [howners, hspec]
    exact Finset.range_subset_range.2 (show 3 ≤ 4 by decide)

section

variable {cr c : ValkeyCluster} {w : World} {p : Placement}

/-! ## A gap -/

/-- Passes towards one shard drain shard 1 as long as it has whole batches. -/
theorem Reached.drains (h : Reached cr w c p) (hp : p.Serving) (hone : c.spec.shards = 1)
    (order : RangeOrders) {k : Nat} (hk : k * Placement.batch ≤ p.slots 1) :
    ∃ c' p', Reached cr ((World.pass order cr)^[k] w) c' p' ∧ p'.Serving ∧
      c'.spec.shards = 1 ∧ p'.slots 1 = p.slots 1 - k * Placement.batch ∧
      p'.slots 2 = p.slots 2 := by
  induction k with
  | zero => exact ⟨c, p, h, hp, hone, by omega, rfl⟩
  | succ k ih =>
      rw [Nat.succ_mul] at hk ⊢
      obtain ⟨c₁, p₁, h₁, hp₁, hone₁, hfirst, hsecond⟩ := ih (by omega)
      obtain ⟨c', p', h', hpassed, hp'⟩ := h₁.pass order
      have hpass := hpassed.pass
      rw [hone₁] at hpass
      have hmany : 1 ≤ p₁.owners.card :=
        Finset.card_pos.2 ⟨0, Placement.mem_owners.2 hp₁.seed⟩
      have hslots := hpass.slots_of_drain hp₁ hmany (by omega)
      rw [Function.iterate_succ_apply']
      refine ⟨c', p', h', hp', hpassed.same.spec ▸ hone₁, ?_, ?_⟩
      · rw [hslots, Placement.moved_source (by decide), hfirst]
        omega
      · rw [hslots, Placement.moved_other (by decide) (by decide), hsecond]

end

/-- Four shards without replicas. -/
def wideCluster : ValkeyCluster where
  name := "wide"
  nspace := "default"
  spec := { shards := 4, replicasPerShard := 0 }

/-- Scaled in to one shard, and out to three as soon as shard 1 is empty. -/
def changeOfMind : List World.Step :=
  [.pass, .edit 1 0, .pass, .pass, .pass, .pass, .edit 3 0]

theorem admitted_changeOfMind : ∀ n r, .edit n r ∈ changeOfMind →
    ({ wideCluster.spec with shards := n, replicasPerShard := r } : ValkeyClusterSpec).Admitted := by
  intro n r hedit
  simp only [changeOfMind, List.mem_cons, World.Step.edit.injEq, List.not_mem_nil, reduceCtorEq,
    false_or, or_false] at hedit
  rcases hedit with ⟨rfl, rfl⟩ | ⟨rfl, rfl⟩ <;> decide

/-- The cluster never converges: shards 0 and 2 own the slots, so two primaries are
counted and shard 2 is filled up again and again, while shard 1 stays empty. -/
theorem run_never_converges :
    wideCluster.spec.Admitted ∧
    (∀ n r, .edit n r ∈ changeOfMind →
      ({ wideCluster.spec with shards := n, replicasPerShard := r } :
        ValkeyClusterSpec).Admitted) ∧
    ∀ k, ¬ Converged ((World.pass (fun _ => asWritten) wideCluster)^[k]
      (World.run (fun _ => asWritten) wideCluster changeOfMind (World.start wideCluster))) := by
  refine ⟨by decide, admitted_changeOfMind, fun k hk => ?_⟩
  have hstart : Reached wideCluster (World.start wideCluster) wideCluster Placement.empty :=
    reached_start rfl (by decide)
  obtain ⟨c₁, p₁, h₁, hpassed, hp₁⟩ := hstart.pass fun _ => asWritten
  have hslots : p₁.slots = Placement.dealt 4 4 := hpassed.pass.slots_of_form rfl
  obtain ⟨c₂, h₂, hspec₂⟩ := h₁.edit (n := 1) (by decide) 0
  obtain ⟨c₃, p₃, h₃, hp₃, -, hfirst, hsecond⟩ := h₂.drains hp₁ (by rw [hspec₂])
    (fun _ => asWritten) (k := 4) (by rw [hslots]; decide)
  obtain ⟨c₄, h₄, hspec₄⟩ := h₃.edit (n := 3) (by decide) 0
  have htrack : p₃.OnTrack 3 := by
    have hthree : c₄.spec.shards = 3 := by rw [hspec₄]
    rw [← hthree]
    exact h₄.onTrack_of_converges (fun _ => asWritten) ⟨k, hk⟩
  refine Placement.not_onTrack_of_gap (a := 1) ?_ (by decide) ?_ htrack
  · rw [hfirst, hslots]
    decide
  · have hsub : {0, 2} ⊆ p₃.owners := by
      intro i hi
      rcases Finset.mem_insert.1 hi with rfl | hi
      · exact Placement.mem_owners.2 hp₃.seed
      · obtain rfl := Finset.mem_singleton.1 hi
        rw [Placement.mem_owners, hsecond, hslots]
        decide
    exact Finset.card_le_card hsub

end Valkeyop.Controller
