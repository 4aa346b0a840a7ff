import Valkeyop.Proofs.FakePass

/-!
# Whole runs on the fake cluster

A run starts with nothing but the resource, and goes on with edits and passes in any
order. `Reached` is what holds wherever it stops: the world is placed, and either all
slots have an owner or nobody owns any yet. An edit changes neither, a pass takes
both cases to the first, so after the first pass no slot is ever without an owner.
-/

namespace Valkeyop.Controller

open Valkeyop.Lib Valkeyop.Lib.Fallible Valkeyop.Cluster Valkeyop.Api Valkeyop.Resources

/-- The stored resource is `c`, and the world is placed as `p` says. -/
structure Tracked (cr : ValkeyCluster) (w : World) (c : ValkeyCluster) (p : Placement) :
    Prop where
  cluster : w.kube.cluster = some c
  name : c.name = cr.name
  nspace : c.nspace = cr.nspace
  alive : c.deletionTimestamp = none
  shards : 0 < c.spec.shards
  numbered : Numbered c.spec.shards
  placed : Placed c w p
  tidy : p.Tidy c.spec.shards

/-- What a run of edits and passes for `cr` has come to. -/
structure Reached (cr : ValkeyCluster) (w : World) (c : ValkeyCluster) (p : Placement) : Prop
    extends Tracked cr w c p where
  few : c.spec.shards ≤ slotSpace
  formed : p.total = 0 ∨ p.Serving

section

variable {cr c : ValkeyCluster} {w : World} {p : Placement}

/-! ## Passes -/

/-- A pass goes through, and its calls are careful. -/
theorem Tracked.succeeds_reconcile (h : Tracked cr w c p) (order : RangeOrders) :
    Succeeds (World.answer order) (Careful c (p.provision c.spec.shards))
      (fun _ w' => ∃ c' p', Tracked cr w' c' p' ∧ Passed c p w' c' p')
      (reconcile cr.name cr.nspace) w := by
  rw [← h.name, ← h.nspace]
  refine (Controller.succeeds_reconcile h.placed h.cluster h.alive h.shards h.numbered
    h.tidy).mono ?_
  rintro _ w' ⟨c', p', hpassed⟩
  have hsame := hpassed.same
  refine ⟨c', p', ⟨hpassed.cluster, hsame.name.trans h.name, hsame.nspace.trans h.nspace,
    hsame.deletion.trans h.alive, ?_, ?_, hpassed.placed.congr hsame.name hsame.nspace, ?_⟩,
    hpassed⟩
  · rw [hsame.spec]
    exact h.shards
  · rw [hsame.spec]
    exact h.numbered
  · rw [hsame.spec]
    exact hpassed.pass.tidy h.shards h.tidy

theorem Tracked.pass (h : Tracked cr w c p) (order : RangeOrders) :
    (∃ c' p', Tracked cr (w.pass order cr) c' p' ∧ Passed c p (w.pass order cr) c' p') ∧
    ∀ e ∈ calls (World.answer order) (reconcile cr.name cr.nspace) w, Spared e.1 e.2 := by
  obtain ⟨⟨_, w', hexec, hpassed⟩, hcalls⟩ := succeeds_iff.1 (h.succeeds_reconcile order)
  have hw' : w.pass order cr = w' := by rw [World.pass, hexec]
  exact ⟨hw' ▸ hpassed, fun e he => (hcalls e he).spared⟩

/-- As long as the spec is left alone, passes do to the placement what they should. -/
theorem simulated_pass (cr : ValkeyCluster) (spec : ValkeyClusterSpec) (order : RangeOrders) :
    Simulated (World.pass order cr) (fun w p => ∃ c, Tracked cr w c p ∧ c.spec = spec)
      (Placement.Pass spec.shards) := by
  rintro w p ⟨c, h, rfl⟩
  obtain ⟨⟨c', p', h', hpassed⟩, -⟩ := h.pass order
  exact ⟨p', ⟨c', h', hpassed.same.spec⟩, hpassed.pass⟩

theorem Reached.pass (h : Reached cr w c p) (order : RangeOrders) :
    ∃ c' p', Reached cr (w.pass order cr) c' p' ∧ Passed c p (w.pass order cr) c' p' ∧
      p'.Serving := by
  obtain ⟨⟨c', p', h', hpassed⟩, -⟩ := h.toTracked.pass order
  have hserving : p'.Serving := by
    rcases h.formed with hzero | hp
    · exact (hpassed.pass.serving_of_form h.shards h.few hzero).1
    · exact hpassed.pass.serving h.shards hp
  exact ⟨c', p', ⟨h', hpassed.same.spec ▸ h.few, Or.inr hserving⟩, hpassed, hserving⟩

/-! ## Edits -/

/-- An edit changes the two counts of the stored spec and nothing else that matters. -/
theorem edit_kube (hc : w.kube.cluster = some c) (halive : c.deletionTimestamp = none)
    (n r : Nat) : ∃ k, w.edit n r = w.putKube k ∧ k.statefulSets = w.kube.statefulSets ∧
      k.pvcs = w.kube.pvcs ∧ ∃ c', k.cluster = some c' ∧ c'.name = c.name ∧ c'.nspace = c.nspace ∧
        c'.deletionTimestamp = none ∧
        c'.spec = { c.spec with shards := n, replicasPerShard := r } := by
  have hnamed : w.kube.named c.name c.nspace = some c := named_of_cluster hc
  unfold World.edit
  rw [hc]
  simp only [ApiServer.update, hnamed, ne_eq, not_true_eq_false, if_false]
  refine ⟨_, rfl, rfl, rfl, _, if_neg ?_, rfl, rfl, halive, rfl⟩
  rw [ApiServer.merge, halive]
  simp

theorem Reached.edit (h : Reached cr w c p) {n : Nat} (hn : 0 < n ∧ n ≤ slotSpace) (r : Nat) :
    ∃ c', Reached cr (w.edit n r) c' p ∧
      c'.spec = { c.spec with shards := n, replicasPerShard := r } := by
  obtain ⟨k, hedit, hsets, -, c', hc', hname, hns, halive, hspec⟩ :=
    edit_kube h.cluster h.alive n r
  have hshards : c'.spec.shards = n := by rw [hspec]
  rw [hedit]
  refine ⟨c', ⟨⟨hc', hname.trans h.name, hns.trans h.nspace, halive, hshards ▸ hn.1,
    hshards ▸ numbered_of_le_slotSpace hn.2, ?_, ?_⟩, hshards ▸ hn.2, h.formed⟩, hspec⟩
  · exact (h.placed.putKube hsets).congr hname hns
  · exact h.formed.imp_right fun hp => Or.inl hp.total

/-! ## Runs -/

theorem reached_start (halive : cr.deletionTimestamp = none)
    (hshards : 0 < cr.spec.shards ∧ cr.spec.shards ≤ slotSpace) :
    Reached cr (World.start cr) cr Placement.empty where
  cluster := rfl
  name := rfl
  nspace := rfl
  alive := halive
  shards := hshards.1
  numbered := numbered_of_le_slotSpace hshards.2
  placed := by
    refine ⟨⟨fun hn => ?_, fun i => rfl⟩, .nil, fun i => ?_⟩
    · exact absurd hn (by simp [World.start, Fake.empty])
    · exact iff_of_false List.not_mem_nil (Finset.notMem_empty i)
  tidy := Or.inl rfl
  few := hshards.2
  formed := Or.inl rfl

theorem Reached.step (h : Reached cr w c p) (order : RangeOrders) (step : World.Step)
    (hstep : ∀ n r, step = .edit n r → 0 < n ∧ n ≤ slotSpace) :
    ∃ c' p', Reached cr (World.step order cr w step) c' p' ∧
      (p.Serving ∨ step = .pass → p'.Serving) := by
  cases step with
  | edit n r =>
      obtain ⟨c', h', -⟩ := h.edit (hstep n r rfl) r
      exact ⟨c', p, h', fun hp => hp.resolve_right World.Step.noConfusion⟩
  | pass =>
      obtain ⟨c', p', h', -, hserving⟩ := h.pass order
      exact ⟨c', p', h', fun _ => hserving⟩

theorem Reached.run {steps : List World.Step} (h : Reached cr w c p) (order : RangeOrders)
    (hsteps : ∀ n r, .edit n r ∈ steps → 0 < n ∧ n ≤ slotSpace) :
    ∃ c' p', Reached cr (World.run order cr steps w) c' p' ∧
      (p.Serving ∨ .pass ∈ steps → p'.Serving) := by
  induction steps generalizing w c p with
  | nil => exact ⟨c, p, h, fun hp => hp.resolve_right List.not_mem_nil⟩
  | cons step steps ih =>
      obtain ⟨c₁, p₁, h₁, hserving⟩ := h.step order step fun n r heq => hsteps n r (heq ▸ .head _)
      obtain ⟨c', p', h', hserving'⟩ := ih h₁ fun n r hmem => hsteps n r (.tail _ hmem)
      refine ⟨c', p', h', fun hp => hserving' ?_⟩
      rw [List.mem_cons] at hp
      rcases hp with hp | hp | hp
      · exact Or.inl (hserving (Or.inl hp))
      · exact Or.inl (hserving (Or.inr hp.symm))
      · exact Or.inr hp

/-- No slot is ever lost. A run that is stopped anywhere is a run: once a pass has been
made all slots have an owner, and the next pass neither forgets an owner nor makes
one a replica. -/
theorem run_conserves_slots (halive : cr.deletionTimestamp = none)
    (hcr : 1 ≤ cr.spec.shards ∧ cr.spec.shards ≤ 16384) (order : RangeOrders)
    (steps : List World.Step) (hsteps : ∀ n r, .edit n r ∈ steps → 1 ≤ n ∧ n ≤ 16384) :
    (.pass ∈ steps →
      (World.run order cr steps (World.start cr)).fake.assignedSlots = 16384) ∧
    ∀ e ∈ calls (World.answer order) (reconcile cr.name cr.nspace)
      (World.run order cr steps (World.start cr)), Spared e.1 e.2 := by
  obtain ⟨c, p, h, hserving⟩ := (reached_start halive hcr).run order hsteps
  refine ⟨fun hpass => ?_, (h.toTracked.pass order).2⟩
  rw [h.placed.holds.assignedSlots, (hserving (Or.inr hpass)).total]
  rfl

end

/-- Four shards with a replica each. -/
def roomyCluster : ValkeyCluster where
  name := "roomy"
  nspace := "default"
  spec := { shards := 4, replicasPerShard := 1 }

/-- A scale-in that is taken back half way. -/
theorem run_conserves_slots_resized :
    (World.run (fun _ => asWritten) roomyCluster [.pass, .edit 1 0, .pass, .edit 3 2, .pass]
      (World.start roomyCluster)).fake.assignedSlots = 16384 := by
  refine (run_conserves_slots rfl (by decide) _ _ fun n r hedit => ?_).1 (by decide)
  simp only [List.mem_cons, World.Step.edit.injEq, List.not_mem_nil, reduceCtorEq,
    false_or, or_false] at hedit
  omega

end Valkeyop.Controller
