import Valkeyop.Proofs.FakeScaling
import Valkeyop.Proofs.Publishing

/-!
# One pass on the fake cluster

A reconcile pass does to the world what `Placement.Pass` does to its placement. The
proof follows the pass: the StatefulSets are made sure of, the plan is read off the
placement, the action it names has its lemma, and the status that is published at
the end says `Ready` exactly when every desired shard owns slots and no other does.
-/

namespace Valkeyop.Controller

open Valkeyop.Lib Valkeyop.Lib.Fallible Valkeyop.Cluster Valkeyop.Api Valkeyop.Resources

/-- What an action leaves behind: the placement has made its pass, and if there was
nothing to move the replicas are attached. -/
def Acted (cr : ValkeyCluster) (p : Placement) (w' : World) : Prop :=
  Stored cr w' ∧ ∃ p', Placed cr w' p' ∧ Placement.Pass cr.spec.shards p p' ∧
    (p.total = slotSpace → Placement.Settled cr.spec.shards p → Attached cr w'.fake)

section

variable {cr : ValkeyCluster} {order : RangeOrders} {p : Placement} {w w' : World}

theorem Publishes.careful {c : Call} (hc : Publishes c) : Careful cr p c w :=
  hc.of_calls (P := fun c => Careful cr p c w) (fun _ _ => trivial) (fun _ => trivial) trivial

theorem Placed.putKube (h : Placed cr w p) {k : ApiServer}
    (hk : k.statefulSets = w.kube.statefulSets) : Placed cr (w.putKube k) p := by
  refine ⟨h.holds, ?_, fun i => ?_⟩
  · change OwnSets cr k.statefulSets
    rw [hk]
    exact h.own
  · change HasSet cr k.statefulSets i ↔ _
    rw [hk]
    exact h.hasSet i

theorem Stored.republished (h : Stored cr w) {k : ApiServer} (hk : Republished w.kube k) :
    Stored cr (w.putKube k) := by
  obtain ⟨c, hcluster, hsame⟩ := h
  obtain ⟨c', hc', hsame'⟩ := hk.sameCluster hcluster
  exact ⟨c', hc', hsame.trans hsame'⟩

/-! ## Acting -/

/-- Announcing a phase changes nothing that matters. -/
theorem runs_announce (h : Placed cr w p) (hc : Stored cr w) (phase : ValkeyClusterPhase)
    (reason msg : String) :
    Prog.Runs (World.answer order) (Careful cr p)
      (fun _ w' => Placed cr w' p ∧ Stored cr w' ∧ w'.fake = w.fake)
      (announce cr phase reason msg) w := by
  refine (runs_republished (World.kubeBacked order) (only_announce cr phase reason msg)
    fun _ _ hpub _ => hpub.careful).mono ?_
  rintro _ _ ⟨k, rfl, hpub⟩
  exact ⟨h.putKube (by rw [hpub.rest]), hc.republished hpub, rfl⟩

/-- An announced action. -/
theorem succeeds_announced {Q : Unit → World → Prop} {next : Act Unit} (h : Placed cr w p)
    (hc : Stored cr w) {phase : ValkeyClusterPhase} {reason msg : String}
    (hnext : ∀ w₁, Placed cr w₁ p → Stored cr w₁ → w₁.fake = w.fake →
      Succeeds (World.answer order) (Careful cr p) Q next w₁) :
    Succeeds (World.answer order) (Careful cr p) Q
      (do announce cr phase reason msg; next : Act Unit) w :=
  succeeds_bind.2 (succeeds_lift.2 ((runs_announce h hc phase reason msg).mono
    fun _ w₁ hw₁ => hnext w₁ hw₁.1 hw₁.2.1 hw₁.2.2))

section

variable (h : Placed cr w p) (hc : Stored cr w) (hsets : ∀ i < cr.spec.shards, i ∈ p.sets)
  (state : ClusterState) (observed : Topology.Observed)

include h hc hsets

theorem succeeds_act_form (htotal : p.total = 0) :
    Succeeds (World.answer order) (Careful cr p) (fun _ => Acted cr p)
      (act cr state observed .form) w := by
  refine succeeds_announced h hc fun w₁ hw₁ hc₁ _ => ?_
  let q : Placement := ⟨p.sets, Placement.dealt cr.spec.shards cr.spec.shards, fun i hi =>
    hsets i (Placement.lt_of_dealt_pos hi)⟩
  refine (succeeds_formCluster (q := q) htotal hw₁ (Placement.slots_eq_zero htotal) rfl rfl).mono ?_
  rintro _ w₂ ⟨hw₂, hkube, hattached⟩
  refine ⟨hc₁.of_cluster (by rw [hkube]), q, hw₂, .form htotal ?_ rfl,
    fun _ _ => hattached⟩
  exact (Finset.union_eq_left.2 fun i hi => hsets i (Finset.mem_range.1 hi)).symm

theorem succeeds_act_repair (hsome : p.total ≠ 0) (hpart : p.total ≠ slotSpace) :
    Succeeds (World.answer order) (Careful cr p) (fun _ => Acted cr p)
      (act cr state observed .repair) w := by
  refine succeeds_announced h hc fun w₁ hw₁ hc₁ _ => ?_
  refine succeeds_bind.2 (succeeds_lift.2
    ((Prog.runs_op (c := Call.admin (.repairSlots (seed cr)))).2 ⟨trivial, ?_⟩))
  refine succeeds_pure.2 ⟨hc₁, p, hw₁, .repair hsome hpart ?_ rfl,
    fun htotal => absurd htotal hpart⟩
  exact (Finset.union_eq_left.2 fun i hi => hsets i (Finset.mem_range.1 hi)).symm

theorem succeeds_act_scaleOut (htotal : p.total = slotSpace)
    (hfew : p.owners.card < cr.spec.shards) (hcount : observed.primaryCount = p.owners.card) :
    Succeeds (World.answer order) (Careful cr p) (fun _ => Acted cr p)
      (act cr state observed .scaleOutShards) w := by
  refine succeeds_announced h hc fun w₁ hw₁ hc₁ _ => ?_
  rw [hcount]
  refine (succeeds_scaleOut hc₁ hw₁ htotal hfew hsets).mono ?_
  rintro _ w₂ ⟨hkube, q, hq, hfilled⟩
  refine ⟨hc₁.of_cluster (by rw [hkube]), q, hq, .out htotal hfew ?_
    (hfilled.total.trans htotal) hfilled.owners hfilled.shrunk, fun _ hsettled => ?_⟩
  · rw [hfilled.sets]
    exact (Finset.union_eq_left.2 fun i hi => hsets i (Finset.mem_range.1 hi)).symm
  · rw [hsettled.owners, Finset.card_range] at hfew
    omega

theorem succeeds_act_scaleIn (hn : 0 < cr.spec.shards) (htotal : p.total = slotSpace)
    (hmany : cr.spec.shards ≤ p.owners.card) (hexcess : ¬ p.sets ⊆ Finset.range cr.spec.shards) :
    Succeeds (World.answer order) (Careful cr p) (fun _ => Acted cr p)
      (act cr state observed .scaleInShards) w := by
  refine succeeds_announced h hc fun w₁ hw₁ hc₁ _ => ?_
  refine (succeeds_scaleIn hw₁ hn (hsets 0 hn)).mono ?_
  rintro _ w₂ ⟨hcluster, q, idxs, hidxs, hq, hremoved⟩
  exact ⟨hc₁.of_cluster hcluster, q, hq, hremoved.pass hidxs hsets htotal hmany,
    fun _ hsettled => absurd hsettled.sets hexcess⟩

theorem succeeds_membership (htotal : p.total = slotSpace)
    (hmany : cr.spec.shards ≤ p.owners.card) (hexcess : p.sets ⊆ Finset.range cr.spec.shards) :
    Succeeds (World.answer order) (Careful cr p) (fun _ => Acted cr p)
      (reconcileMembership cr w.fake.state) w := by
  refine (succeeds_reconcileMembership guards_careful h hsets).mono ?_
  rintro _ w' ⟨hw', hkube, hattached⟩
  refine ⟨hc.of_cluster (by rw [hkube]), p, hw', .clear htotal hmany (fun k hge => ?_) ?_ rfl,
    fun _ _ => hattached⟩
  · refine Nat.eq_zero_of_not_pos fun hpos => ?_
    have := Finset.mem_range.1 (hexcess (p.housed k hpos))
    omega
  · exact Finset.Subset.antisymm hexcess fun i hi => hsets i (Finset.mem_range.1 hi)

/-- Whatever the plan is, carrying it out is a pass. -/
theorem succeeds_act (hn : 0 < cr.spec.shards)
    (hpart : p.Tidy cr.spec.shards) :
    Succeeds (World.answer order) (Careful cr p) (fun _ => Acted cr p)
      (act cr w.fake.state (summarize cr w.fake.state)
        (chosenPlan cr w.kube.statefulSets (summarize cr w.fake.state)).kind) w := by
  obtain ⟨hformed, hcovered, hcount⟩ := h.holds.summarize
  by_cases hzero : p.total = 0
  · have hkind := Topology.decide_unformed (d := desired cr) (hformed.trans (by simp [hzero]))
    rw [chosenPlan_of_kind (Or.inl hkind), hkind]
    exact succeeds_act_form h hc hsets _ _ hzero
  have hformed : (summarize cr w.fake.state).formed = true :=
    hformed.trans (decide_eq_true (Nat.pos_of_ne_zero hzero))
  have hnone : p.sets ⊆ Finset.range cr.spec.shards →
      ∀ i, HasSet cr w.kube.statefulSets i → i < cr.spec.shards := fun hsub i hi =>
    Finset.mem_range.1 (hsub ((h.hasSet i).1 hi))
  by_cases htotal : p.total = slotSpace
  · have hcovered : (summarize cr w.fake.state).slotsCovered = true :=
      hcovered.trans (decide_eq_true htotal)
    by_cases hfew : p.owners.card < cr.spec.shards
    · have hkind := Topology.decide_few (d := desired cr) hformed hcovered (hcount ▸ hfew)
      rw [chosenPlan_of_kind (Or.inr hkind), hkind]
      exact succeeds_act_scaleOut h hc hsets _ _ htotal hfew hcount
    by_cases hexcess : p.sets ⊆ Finset.range cr.spec.shards
    · -- no shard departs, so the owners are the desired shards
      have hcard : cr.spec.shards = p.owners.card := by
        refine Nat.le_antisymm (by omega) ?_
        rw [← Finset.card_range cr.spec.shards]
        exact Finset.card_le_card fun i hi =>
          hexcess (p.housed i (Placement.mem_owners.1 hi))
      rw [chosenPlan_of_none h.own (hnone hexcess)]
      rcases Topology.decide_enough (d := desired cr) hformed hcovered
        (hcard.trans hcount.symm) with hkind | hkind
      · rw [hkind]
        refine succeeds_announced h hc fun w₁ hw₁ hc₁ hfake => ?_
        rw [← hfake]
        exact succeeds_membership hw₁ hc₁ hsets htotal (by omega) hexcess
      · rw [hkind]
        exact succeeds_membership h hc hsets htotal (by omega) hexcess
    · have hkind := Topology.decide_many (d := desired cr) hformed hcovered
        (hcount ▸ Nat.le_of_not_lt hfew)
      obtain ⟨i, hi, hge⟩ := Finset.not_subset.1 hexcess
      rw [chosenPlan_of_excess h.own hkind ⟨i, (h.hasSet i).2 hi, by simpa using hge⟩]
      exact succeeds_act_scaleIn h hc hsets _ _ hn htotal (by omega) hexcess
  · have hsub := (hpart.resolve_left hzero).resolve_left htotal
    have hkind := Topology.decide_uncovered (d := desired cr) hformed
      (hcovered.trans (decide_eq_false htotal))
    rw [chosenPlan_of_none h.own (hnone hsub), hkind]
    exact succeeds_act_repair h hc hsets _ _ hzero htotal

end

/-! ## The pass -/

/-- What a pass leaves behind. -/
structure Passed (cr : ValkeyCluster) (p : Placement) (w' : World) (c : ValkeyCluster)
    (p' : Placement) : Prop where
  cluster : w'.kube.cluster = some c
  same : SameCluster cr c
  placed : Placed cr w' p'
  pass : Placement.Pass cr.spec.shards p p'
  phase : c.status.phase = some .ready ↔ (∀ i < cr.spec.shards, 0 < p'.slots i) ∧
    p'.owners.card = cr.spec.shards ∧ p'.total = slotSpace
  attached : p.total = slotSpace → Placement.Settled cr.spec.shards p → Attached cr w'.fake

theorem succeeds_reconcileCluster (h : Placed cr w p) (hc : Stored cr w)
    (hsets : ∀ i < cr.spec.shards, i ∈ p.sets) (hn : 0 < cr.spec.shards)
    (hpart : p.Tidy cr.spec.shards) :
    Succeeds (World.answer order) (Careful cr p) (fun _ w' => ∃ c p', Passed cr p w' c p')
      (reconcileCluster cr) w := by
  have hplan := exec_choosePlan (World.kubeBacked order) h.own (summarize cr w.fake.state)
  have hlist : Prog.Only (fun c => ∀ w, Careful cr p c w)
      (choosePlan cr (summarize cr w.fake.state)).run := only_choosePlan (fun _ => trivial) _
  refine succeeds_bind.2 (succeeds_wrap _ (succeeds_state ?_))
  refine succeeds_bind.2 (succeeds_iff.2 ⟨⟨_, _, hplan, ?_⟩, fun e he => ?_⟩)
  · refine succeeds_bind.2 ((succeeds_act h hc hsets hn hpart).mono ?_)
    rintro _ w₁ ⟨⟨c, hcluster, hsame⟩, p', hp', hpass, hattached⟩
    refine succeeds_bind.2 (succeeds_wrap _ (succeeds_state ?_))
    refine succeeds_bind.2 ((succeeds_updateStatus (World.kubeBacked order) hcluster hsame.name
      hsame.nspace w₁.fake.state fun _ _ hpub _ => hpub.careful).mono ?_)
    rintro _ _ ⟨k, rfl, hpub, c', hc', hphase⟩
    obtain ⟨c'', hc'', hsame'⟩ := hpub.sameCluster hcluster
    obtain rfl : c' = c'' := Option.some.inj (hc'.symm.trans hc'')
    refine succeeds_pure.2 ⟨c', p', hc', hsame.trans hsame', hp'.putKube (by rw [hpub.rest]),
      hpass, ?_, hattached⟩
    rw [hphase, Option.some.injEq, verdict_ready_iff, hp'.holds.allReady_iff]
  · exact hlist.mem_trace e he e.2

/-! ## The same resource -/

theorem SameCluster.symm {c c' : ValkeyCluster} (h : SameCluster c c') : SameCluster c' c :=
  ⟨h.name.symm, h.nspace.symm, h.spec.symm, h.deletion.symm⟩

section

variable {c c' : ValkeyCluster}

theorem podFQDN_congr (hname : c'.name = c.name) (hns : c'.nspace = c.nspace) :
    podFQDN c' = podFQDN c := by
  funext i j
  simp only [podFQDN, podName, statefulSetName, headlessServiceName, hname, hns]

theorem statefulSetName_congr (hname : c'.name = c.name) :
    statefulSetName c' = statefulSetName c := by
  funext i
  simp only [statefulSetName, hname]

theorem shardLabels_congr (hname : c'.name = c.name) : shardLabels c' = shardLabels c := by
  funext i
  simp only [shardLabels, commonLabels, hname]

theorem hasSet_congr (hname : c'.name = c.name) : HasSet c' = HasSet c := by
  funext sets i
  rw [HasSet, HasSet, statefulSetName_congr hname]

theorem OwnSets.congr {sets : List StatefulSet} (h : OwnSets c sets) (hname : c'.name = c.name)
    (hns : c'.nspace = c.nspace) : OwnSets c' sets := by
  refine ⟨fun s hs => ?_, h.distinct, ?_⟩
  · rw [statefulSetName_congr hname, hns, shardLabels_congr hname]
    exact h.shaped s hs
  · rw [hasSet_congr hname]
    exact h.fits

theorem Placed.congr (h : Placed c w p) (hname : c'.name = c.name) (hns : c'.nspace = c.nspace) :
    Placed c' w p := by
  refine ⟨⟨fun hn => ?_, fun i => ?_⟩, h.own.congr hname hns, fun i => ?_⟩
  · have hrole := h.holds.roles hn
    refine ⟨hrole.id, hrole.host, ?_⟩
    rw [podFQDN_congr hname hns]
    exact hrole.owner
  · rw [podFQDN_congr hname hns]
    exact h.holds.slots i
  · rw [hasSet_congr hname]
    exact h.hasSet i

theorem Careful.congr {call : Call} (h : Careful c p call w) (hsame : SameCluster c c') :
    Careful c' p call w := by
  unfold Careful at h ⊢
  split at h
  · exact h
  · obtain ⟨q, a, b, k, hmovable, hwanted, hsource, htarget, hn⟩ := h
    rw [← podFQDN_congr hsame.name hsame.nspace] at hsource htarget
    refine ⟨q, a, b, k, ⟨hmovable.placed.congr hsame.name hsame.nspace, hmovable.ne, hmovable.le,
      hmovable.pos, hmovable.set, ?_⟩, ?_, hsource, htarget, hn⟩
    · rw [podFQDN_congr hsame.name hsame.nspace]
      exact hmovable.node
    · unfold Wanted at hwanted ⊢
      rw [hsame.spec]
      exact hwanted.imp_left fun ⟨hfills, latest, hlatest, hsame'⟩ =>
        ⟨hfills, latest, hlatest, hsame.symm.trans hsame'⟩
  all_goals exact h

theorem Attached.congr {f : Fake} (h : Attached c f) (hsame : SameCluster c c') :
    Attached c' f := by
  unfold Attached Follows
  rw [hsame.spec, podFQDN_congr hsame.name hsame.nspace]
  exact h

theorem Passed.congr {p' : Placement} {latest : ValkeyCluster} (h : Passed c p w latest p')
    (hsame : SameCluster c c') : Passed c' p w latest p' where
  cluster := h.cluster
  same := hsame.symm.trans h.same
  placed := h.placed.congr hsame.name hsame.nspace
  pass := hsame.spec ▸ h.pass
  phase := hsame.spec ▸ h.phase
  attached := fun htotal hsettled => (h.attached htotal (hsame.spec ▸ hsettled)).congr hsame

end

/-! ## Reconciling -/

theorem numbered_of_le_slotSpace {n : Nat} (hn : n ≤ slotSpace) : Numbered n :=
  numbered_of_le (Int.le_trans (Int.ofNat_le.2 hn) (by decide))

theorem Placed.provisioned (h : Placed cr w p) {k : ApiServer}
    (hk : Provisioned cr (· < cr.spec.shards) w.kube k) :
    Placed cr (w.putKube k) (p.provision cr.spec.shards) := by
  refine ⟨h.holds, hk.own, fun i => (hk.hasSet i).trans ?_⟩
  rw [h.hasSet, Placement.provision, Finset.mem_union, Finset.mem_range]

theorem Passed.of_provision {c : ValkeyCluster} {p' : Placement}
    (h : Passed cr (p.provision cr.spec.shards) w c p') : Passed cr p w c p' where
  cluster := h.cluster
  same := h.same
  placed := h.placed
  pass := h.pass.of_provision
  phase := h.phase
  attached htotal hsettled := h.attached ((Placement.total_provision ..).trans htotal)
    hsettled.provision

theorem succeeds_ensureConfigMap (h : Placed cr w p) {c : ValkeyCluster}
    (hc : w.kube.cluster = some c) :
    Succeeds (World.answer order) (Careful cr p)
      (fun _ w' => Placed cr w' p ∧ w'.kube.cluster = some c) (ensureConfigMap cr) w :=
  (Prog.runs_op (c := Call.kube (.applyConfigMap _))).2 ⟨trivial, h.putKube rfl, hc⟩

theorem succeeds_ensureHeadlessService (h : Placed cr w p) {c : ValkeyCluster}
    (hc : w.kube.cluster = some c) :
    Succeeds (World.answer order) (Careful cr p)
      (fun _ w' => Placed cr w' p ∧ w'.kube.cluster = some c) (ensureHeadlessService cr) w :=
  (Prog.runs_op (c := Call.kube (.applyService _))).2 ⟨trivial, h.putKube rfl, hc⟩

theorem succeeds_reconcileLive (h : Placed cr w p) (hc : w.kube.cluster = some cr)
    (halive : cr.deletionTimestamp = none) (hn : 0 < cr.spec.shards)
    (hnum : Numbered cr.spec.shards) (hpart : p.Tidy cr.spec.shards) :
    Succeeds (World.answer order) (Careful cr (p.provision cr.spec.shards))
      (fun _ w' => ∃ c p', Passed cr p w' c p')
      (reconcileLive cr) w := by
  have hk := World.kubeBacked order
  refine succeeds_bind.2 ((succeeds_ensureFinalizer hk hc halive fun _ _ => trivial).mono ?_)
  rintro c _ ⟨hsame, k, rfl, hck, hsets⟩
  have h₁ : Placed c (w.putKube k) p := (h.putKube hsets).congr hsame.name hsame.nspace
  refine succeeds_bind.2 ((succeeds_ensureConfigMap h₁ hck).mono ?_)
  rintro _ w₂ ⟨h₂, hc₂⟩
  refine succeeds_bind.2 ((succeeds_ensureHeadlessService h₂ hc₂).mono ?_)
  rintro _ w₃ ⟨h₃, hc₃⟩
  refine succeeds_bind.2 ((succeeds_ensureStatefulSets hk (fun _ _ => trivial)
    (hsame.spec ▸ hnum) h₃.own).mono ?_)
  rintro _ _ ⟨k₃, rfl, hprov⟩
  refine succeeds_bind.2 ((succeeds_shardsReady hk (fun _ => trivial) hprov.own
    hprov.ready).mono ?_)
  rintro _ _ ⟨rfl, rfl⟩
  simp only [Bool.not_true, Bool.false_eq_true, if_false]
  have hn' : 0 < c.spec.shards := hsame.spec ▸ hn
  have hpart' : (p.provision c.spec.shards).Tidy c.spec.shards := hsame.spec ▸ hpart.provision
  have hcluster : Succeeds (World.answer order) _ _ (reconcileCluster c) _ :=
    succeeds_reconcileCluster (h₃.provisioned hprov)
      ⟨c, hprov.cluster.trans hc₃, rfl, rfl, rfl, rfl⟩
      (fun i hi => Finset.mem_union_right _ (Finset.mem_range.2 hi)) hn' hpart'
  refine succeeds_bind.2 (succeeds_attempt.2 ((hcluster.guard_mono ?_).runs ?_))
  · intro e w' he
    rw [hsame.spec] at he
    exact he.congr hsame.symm
  rintro _ _ ⟨c', p', hpassed⟩
  exact succeeds_pure.2 ⟨c', p', hpassed.of_provision.congr hsame.symm⟩

/-- A pass for a resource that is not under deletion. -/
theorem succeeds_reconcile (h : Placed cr w p) (hc : w.kube.cluster = some cr)
    (halive : cr.deletionTimestamp = none) (hn : 0 < cr.spec.shards)
    (hnum : Numbered cr.spec.shards) (hpart : p.Tidy cr.spec.shards) :
    Succeeds (World.answer order) (Careful cr (p.provision cr.spec.shards))
      (fun _ w' => ∃ c p', Passed cr p w' c p')
      (reconcile cr.name cr.nspace) w := by
  have hget := exec_getCluster (World.kubeBacked order) hc
  refine succeeds_bind.2 (succeeds_attempt.2 ((Prog.runs_op (c := Call.kube (.getCluster ..))).2
    ⟨trivial, ?_⟩))
  change World.answer order (.kube (.getCluster ..)) w = _ at hget
  rw [hget]
  simp only [halive, Option.isSome_none, Bool.false_eq_true, if_false]
  exact succeeds_reconcileLive h hc halive hn hnum hpart

end

end Valkeyop.Controller
