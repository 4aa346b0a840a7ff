import Valkeyop.Lib.History
import Valkeyop.Proofs.FakeRuns
import Valkeyop.Proofs.Lowering
import Valkeyop.Proofs.WholePass

/-!
# The volume claims

Kubernetes makes a claim for each pod of a StatefulSet and keeps it when the pod goes.
The controller deletes claims in one place, where a shard is deleted, and there all of
them. So the claims are always those of shards that have a StatefulSet, and they are those of all
the replicas such a shard has had: one that stays and loses a replica keeps the claim of that
replica, until it is deleted or gets the replica back.
-/

namespace Valkeyop.Controller

open Valkeyop.Lib Valkeyop.Lib.Fallible Valkeyop.Lib.Text Valkeyop.Cluster Valkeyop.Api
  Valkeyop.Resources

/-- The claim of pod `j` of shard `i`. -/
def claimOf (cr : ValkeyCluster) (i j : Nat) : PVC :=
  ⟨"data-" ++ statefulSetName cr i ++ "-" ++ toString j, cr.nspace, shardLabels cr i⟩

/-- The claim has the label of the resource and one of a shard. -/
def Labelled (cr : ValkeyCluster) (pvc : PVC) : Prop :=
  pvc.labels.lookup labelInstance = some cr.name ∧ (pvc.labels.lookup labelShard).isSome = true

/-- The labelled claims are those of the desired pods. -/
def StorageExact (w : World) : Prop :=
  ∀ c, w.kube.cluster = some c → ∀ pvc, pvc ∈ w.kube.pvcs ∧ Labelled c pvc ↔
    ∃ i < c.spec.shards, ∃ j ≤ c.spec.replicasPerShard, pvc = claimOf c i j

/-- The shards and the replicas the spec asks for after some steps. -/
def World.asked (cr : ValkeyCluster) (steps : List World.Step) : Nat × Nat :=
  steps.foldl (fun counts step => match step with
    | .edit shards replicasPerShard => (shards, replicasPerShard)
    | .pass => counts) (cr.spec.shards, cr.spec.replicasPerShard)

/-- After `done` comes a pass that provides for shard `i`, and from then on the shard has always
had its StatefulSet. -/
def ProvidedSince (order : RangeOrders) (cr : ValkeyCluster) (steps : List World.Step) (i : Nat)
    (done : List World.Step) : Prop :=
  ∃ rest, steps = done ++ .pass :: rest ∧ i < (World.asked cr done).1 ∧ ∀ mid, mid <+: rest →
    HasSet cr (World.run order cr (done ++ .pass :: mid) (World.start cr)).kube.statefulSets i

/-- A pass up to its decision, and what that is. -/
def plannedAction (name nspace : String) : Act Topology.ActionKind := do
  let cr ← Kube.getCluster name nspace
  let cr ← ensureFinalizer cr
  let _ ← provision cr
  let state ← wrap "observe cluster" (Admin.state (seed cr))
  let plan ← choosePlan cr (summarize cr state)
  pure plan.kind

/-- No desired shard has the claim of a pod beyond its replica count. -/
def NoneLeftOver (w : World) : Prop :=
  ∀ c, w.kube.cluster = some c → ∀ i < c.spec.shards, ∀ j,
    claimOf c i j ∈ w.kube.pvcs → j ≤ c.spec.replicasPerShard

/-- Every claim is one of a shard that has a StatefulSet. -/
structure Housed (cr : ValkeyCluster) (k : ApiServer) : Prop where
  own : OwnSets cr k.statefulSets
  claims : ∀ pvc ∈ k.pvcs, ∃ i j, pvc = claimOf cr i j ∧ HasSet cr k.statefulSets i

/-- Of the claims there were, those of shards that have a StatefulSet are left. -/
structure Vacated (cr : ValkeyCluster) (k₀ k : ApiServer) : Prop extends Housed cr k where
  left : ∀ i j, claimOf cr i j ∈ k.pvcs ↔ claimOf cr i j ∈ k₀.pvcs ∧ HasSet cr k.statefulSets i

section

variable {cr c : ValkeyCluster} {order : RangeOrders} {w : World} {k₀ k k' : ApiServer}
  {i j : Nat} {pvc : PVC}

/-! ## Claims -/

theorem claimOf_congr (hname : c.name = cr.name) (hns : c.nspace = cr.nspace) :
    claimOf c = claimOf cr := by
  funext i j
  rw [claimOf, claimOf, statefulSetName_congr hname, shardLabels_congr hname, hns]

theorem lookup_shardLabels (cr : ValkeyCluster) (i : Nat) :
    (shardLabels cr i).lookup labelInstance = some cr.name ∧
      (shardLabels cr i).lookup labelShard = some (toString i) :=
  ⟨rfl, rfl⟩

theorem labelled_claimOf (cr : ValkeyCluster) (i j : Nat) : Labelled cr (claimOf cr i j) := by
  obtain ⟨hinstance, hshard⟩ := lookup_shardLabels cr i
  exact ⟨hinstance, by rw [claimOf, hshard]; rfl⟩

theorem claimOf_inj {i' j' : Nat} (h : claimOf cr i j = claimOf cr i' j') : i = i' ∧ j = j' := by
  have hlabels : shardLabels cr i = shardLabels cr i' := congrArg PVC.labels h
  have hshard := (lookup_shardLabels cr i).2
  rw [hlabels, (lookup_shardLabels cr i').2, Option.some.injEq] at hshard
  obtain rfl := toString_injective hshard
  have hname := congrArg (String.toList ∘ PVC.name) h
  simp only [Function.comp, claimOf, String.toList_append] at hname
  exact ⟨rfl, toString_injective (String.toList_inj.1 (List.append_cancel_left hname))⟩

theorem claims_statefulSet (cr : ValkeyCluster) (i : Nat) :
    pvc ∈ ApiServer.claims (statefulSet cr i) ↔
      ∃ j ≤ cr.spec.replicasPerShard, pvc = claimOf cr i j := by
  simp only [ApiServer.claims, List.mem_map, List.mem_range]
  constructor
  · intro ⟨j, hj, hpvc⟩
    refine ⟨j, ?_, hpvc.symm⟩
    have : j < 1 + cr.spec.replicasPerShard := hj
    omega
  · intro ⟨j, hj, hpvc⟩
    refine ⟨j, ?_, hpvc.symm⟩
    show j < 1 + cr.spec.replicasPerShard
    omega

/-! ## Making sure of the StatefulSets -/

theorem mem_pvcs_putStatefulSet (new : StatefulSet) :
    pvc ∈ (k.putStatefulSet new).pvcs ↔ pvc ∈ k.pvcs ∨ pvc ∈ ApiServer.claims new := by
  simp only [ApiServer.putStatefulSet, List.mem_append, List.mem_filter, Bool.not_eq_true',
    List.contains_eq_mem, decide_eq_false_iff_not]
  tauto

/-- The desired pods get their claims, and no claim goes. -/
theorem mem_pvcs_ensured (cr : ValkeyCluster) (k : ApiServer) : pvc ∈ (k.ensured cr).pvcs ↔
    pvc ∈ k.pvcs ∨ ∃ i < cr.spec.shards, ∃ j ≤ cr.spec.replicasPerShard, pvc = claimOf cr i j := by
  have hfold : ∀ (l : List Nat) (k : ApiServer),
      pvc ∈ (l.foldl (fun k i => k.putStatefulSet (statefulSet cr i)) k).pvcs ↔
        pvc ∈ k.pvcs ∨ ∃ i ∈ l, ∃ j ≤ cr.spec.replicasPerShard, pvc = claimOf cr i j := by
    intro l
    induction l with
    | nil => simp
    | cons i l ih =>
        intro k
        rw [List.foldl_cons, ih, mem_pvcs_putStatefulSet, claims_statefulSet, or_assoc,
          List.exists_mem_cons_iff]
  rw [ApiServer.ensured, hfold]
  simp only [List.mem_range]

theorem Housed.ensured (h : Housed cr k) (hnum : Numbered cr.spec.shards) :
    Housed cr (k.ensured cr) := by
  have hprov := Provisioned.ensured hnum h.own
  refine ⟨hprov.own, fun pvc hpvc => ?_⟩
  rcases (mem_pvcs_ensured cr k).1 hpvc with hold | ⟨i, hi, j, -, rfl⟩
  · obtain ⟨i, j, rfl, hset⟩ := h.claims pvc hold
    exact ⟨i, j, rfl, (hprov.hasSet i).2 (.inl hset)⟩
  · exact ⟨i, j, rfl, (hprov.hasSet i).2 (.inr hi)⟩

theorem Housed.hasSet (h : Housed cr k) (hclaim : claimOf cr i j ∈ k.pvcs) :
    HasSet cr k.statefulSets i := by
  obtain ⟨i', j', heq, hset⟩ := h.claims _ hclaim
  rwa [(claimOf_inj heq).1]

theorem Housed.vacated (h : Housed cr k) : Vacated cr k k :=
  ⟨h, fun _ _ => (and_iff_left_of_imp h.hasSet).symm⟩

/-! ## Deleting a shard -/

theorem Vacated.of_same (h : Vacated cr k₀ k) (hsame : SameWorkloads k k') :
    Vacated cr k₀ k' := by
  obtain ⟨hsets, hpvcs⟩ := hsame
  refine ⟨⟨hsets ▸ h.own, ?_⟩, ?_⟩
  · rw [hsets, hpvcs]
    exact h.claims
  · rw [hsets, hpvcs]
    exact h.left

/-- Of what is on the list, nothing is left, and of the rest everything. -/
theorem succeeds_deleteClaims (l : List PVC) (w : World) :
    Succeeds (World.answer order) (fun _ _ => True) (fun _ w' =>
        w'.kube.statefulSets = w.kube.statefulSets ∧
        ∀ pvc, pvc ∈ w'.kube.pvcs ↔ pvc ∈ w.kube.pvcs ∧ pvc ∉ l)
      (l.forM fun pvc => ignoreNotFound (Kube.deletePVC pvc)) w := by
  refine Succeeds.forM (I := fun done (w' : World) =>
    w'.kube.statefulSets = w.kube.statefulSets ∧
      ∀ pvc, pvc ∈ w'.kube.pvcs ↔ pvc ∈ w.kube.pvcs ∧ pvc ∉ done) ?_ ⟨rfl, by simp⟩
  intro done gone todo _ w₁ ⟨hsets, hleft⟩
  refine succeeds_ignoreNotFound ((Prog.runs_op (c := Call.kube (.deletePVC gone))).2
    ⟨trivial, ?_⟩)
  have hgone : ∀ pvc, pvc ∈ w.kube.pvcs ∧ pvc ∉ done ++ [gone] ↔
      pvc ∈ w₁.kube.pvcs ∧ pvc ≠ gone := by
    intro pvc
    rw [hleft, List.mem_append, List.mem_singleton, not_or, and_assoc]
  simp only [World.answer, ApiServer.answer]
  split
  · refine ⟨hsets, fun pvc => ?_⟩
    rw [hgone, List.mem_filter, bne_iff_ne]
  · next habsent =>
      refine ⟨rfl, hsets, fun pvc => ?_⟩
      rw [hgone]
      refine (and_iff_left_of_imp fun hpvc heq => habsent ?_).symm
      rw [List.contains_eq_mem, decide_eq_true_iff]
      exact heq ▸ hpvc

theorem succeeds_deleteSet (w : World) (i : Nat) :
    Succeeds (World.answer order) (fun _ _ => True) (fun _ w' =>
        w'.kube.statefulSets = w.kube.statefulSets.filter
          (fun t => !ApiServer.sameSet (statefulSetName cr i) cr.nspace t) ∧
        w'.kube.pvcs = w.kube.pvcs)
      (ignoreNotFound (Kube.deleteStatefulSet (statefulSetName cr i) cr.nspace)) w := by
  refine succeeds_ignoreNotFound ((Prog.runs_op (c := Call.kube (.deleteStatefulSet ..))).2
    ⟨trivial, ?_⟩)
  simp only [World.answer, ApiServer.answer]
  split
  · exact ⟨rfl, rfl⟩
  · next hnone =>
      refine ⟨rfl, (List.filter_eq_self.2 fun t ht => ?_).symm, rfl⟩
      simpa using fun hsame => hnone (List.any_eq_true.2 ⟨t, ht, hsame⟩)

/-- What the claims of a shard are listed by. -/
theorem matching_shardLabels {i' : Nat} : Labels.matching
    [(labelShard, toString i), (labelInstance, cr.name)] (shardLabels cr i') = true ↔ i' = i := by
  obtain ⟨hinstance, hshard⟩ := lookup_shardLabels cr i'
  simp only [Labels.matching, List.all_cons, List.all_nil, hinstance, hshard, Bool.and_true,
    BEq.rfl, beq_iff_eq, Option.some.injEq]
  exact ⟨fun h => toString_injective h, fun h => h ▸ rfl⟩

/-- With its StatefulSet all claims of a shard go, and no others. -/
theorem keeps_deleteShard_vacated (h : Vacated cr k₀ w.kube) (i : Nat) :
    Keeps (World.answer order) (fun _ _ => True) (fun w => Vacated cr k₀ w.kube)
      (deleteShard cr i) w := by
  refine Succeeds.runs (Q := fun _ w => Vacated cr k₀ w.kube) ?_ fun _ _ hw => hw
  refine succeeds_bind.2 ((succeeds_deleteSet w i).mono ?_)
  intro _ w₁ ⟨hsets, hpvcs⟩
  have hlist : exec (World.answer order) (Kube.listPVCs cr.nspace
      [(labelShard, toString i), (labelInstance, cr.name)]) w₁ =
      (.ok (w₁.kube.pvcs.filter fun p => p.nspace == cr.nspace &&
        Labels.matching [(labelShard, toString i), (labelInstance, cr.name)] p.labels), w₁) := rfl
  refine succeeds_bind.2 (succeeds_of_exec hlist ?_)
  refine (succeeds_deleteClaims _ w₁).mono ?_
  intro _ w₂ ⟨hsets₂, hleft⟩
  have hset : ∀ i', HasSet cr w₂.kube.statefulSets i' ↔
      HasSet cr w.kube.statefulSets i' ∧ i' ≠ i := by
    intro i'
    rw [hsets₂, hsets]
    exact hasSet_deleted h.own
  have hclaim : ∀ i' j, claimOf cr i' j ∈ w₂.kube.pvcs ↔
      claimOf cr i' j ∈ w.kube.pvcs ∧ i' ≠ i := by
    intro i' j
    rw [hleft, List.mem_filter, hpvcs]
    simp only [claimOf, BEq.rfl, Bool.true_and, matching_shardLabels]
    tauto
  refine ⟨⟨by rw [hsets₂, hsets]; exact h.own.filter _, fun pvc hpvc => ?_⟩, fun i' j => ?_⟩
  · obtain ⟨i', j', rfl, -⟩ := h.claims pvc (hpvcs ▸ ((hleft pvc).1 hpvc).1)
    obtain ⟨hold, hne⟩ := (hclaim i' j').1 hpvc
    exact ⟨i', j', rfl, (hset i').2 ⟨h.hasSet hold, hne⟩⟩
  · rw [hclaim, hset, h.left, and_assoc]

/-! ## A pass -/

theorem keeps_vacated {α : Type} {p : Act α} (hp : Prog.Only LeavesWorkloads p.run)
    (h : Vacated cr k₀ w.kube) :
    Keeps (World.answer order) (fun _ _ => True) (fun w => Vacated cr k₀ w.kube) p w :=
  Prog.Runs.mono (keeps_sameWorkloads hp w) fun _ _ hw => h.of_same hw

theorem keeps_reconcileCluster_vacated (order : RangeOrders) (h : Vacated cr k₀ w.kube) :
    Keeps (World.answer order) (fun _ _ => True) (fun w => Vacated cr k₀ w.kube)
      (reconcileCluster cr) w := by
  have hroutine : ∀ {α : Type} {p : Act α} {w : World}, Prog.Only Routine p.run →
      Vacated cr k₀ w.kube → Keeps (World.answer order) (fun _ _ => True)
        (fun w => Vacated cr k₀ w.kube) p w := fun hp hw =>
    keeps_vacated (hp.mono fun _ => Routine.leavesWorkloads) hw
  refine keeps_reconcileCluster hroutine (fun state observed kind w hw => ?_) h
  refine keeps_act hroutine (fun w hw => keeps_vacated ?_ hw) (fun _ w hw => keeps_vacated ?_ hw)
    (fun idxs w hw => keeps_removeShards hroutine ?_ ?_ idxs hw) _ _ _ hw
  · exact only_formCluster (fun _ _ => trivial) (fun _ _ => trivial) (fun _ => trivial)
      (fun _ => trivial) (fun _ _ => trivial)
  · exact only_scaleOut (fun _ => Routine.leavesWorkloads) (fun _ _ _ _ => trivial) _
  · exact fun i idx departID w _ hw =>
      keeps_vacated (only_drainShard (fun _ => trivial) (fun _ _ _ _ => trivial) i departID) hw
  · exact fun i w hw => keeps_deleteShard_vacated hw i

theorem Housed.congr (h : Housed cr k) (hname : c.name = cr.name) (hns : c.nspace = cr.nspace) :
    Housed c k := by
  refine ⟨h.own.congr hname hns, ?_⟩
  rw [claimOf_congr hname hns, hasSet_congr hname]
  exact h.claims

theorem mem_pvcs_provided (cr : ValkeyCluster) (w : World) : pvc ∈ (w.provided cr).kube.pvcs ↔
    pvc ∈ w.kube.pvcs ∨
      ∃ i < cr.spec.shards, ∃ j ≤ cr.spec.replicasPerShard, pvc = claimOf cr i j :=
  mem_pvcs_ensured cr _

/-- A pass makes the claims of the desired pods, and keeps those of the shards it keeps. -/
theorem Housed.pass (h : Housed c w.kube) (order : RangeOrders) (hc : w.kube.cluster = some c)
    (halive : c.deletionTimestamp = none) (hnum : Numbered c.spec.shards) :
    Housed c (exec (World.answer order) (reconcile c.name c.nspace) w).2.kube ∧
    ∀ i j, claimOf c i j ∈ (exec (World.answer order) (reconcile c.name c.nspace) w).2.kube.pvcs ↔
      (claimOf c i j ∈ w.kube.pvcs ∨ i < c.spec.shards ∧ j ≤ c.spec.replicasPerShard) ∧
        HasSet c (exec (World.answer order)
          (reconcile c.name c.nspace) w).2.kube.statefulSets i := by
  obtain ⟨cr, hsame, hfinal⟩ := exec_ensureFinalizer order hc halive
  have hprovided : Housed cr (w.provided cr).kube :=
    Housed.ensured ⟨h.own.congr hsame.name hsame.nspace,
      (h.congr hsame.name hsame.nspace).claims⟩ (hsame.spec ▸ hnum)
  have hend := (Prog.runs_iff.1 (keeps_reconcileCluster_vacated order hprovided.vacated)).1
  rw [exec_reconcile hc halive hnum h.own hsame hfinal]
  refine ⟨hend.toHoused.congr hsame.name.symm hsame.nspace.symm, fun i j => ?_⟩
  have hdesired : (∃ i' < cr.spec.shards, ∃ j' ≤ cr.spec.replicasPerShard,
      claimOf cr i j = claimOf cr i' j') ↔ i < c.spec.shards ∧ j ≤ c.spec.replicasPerShard := by
    rw [hsame.spec]
    constructor
    · rintro ⟨i', hi', j', hj', heq⟩
      obtain ⟨rfl, rfl⟩ := claimOf_inj heq
      exact ⟨hi', hj'⟩
    · rintro ⟨hi, hj⟩
      exact ⟨i, hi, j, hj, rfl⟩
  rw [claimOf_congr hsame.name.symm hsame.nspace.symm, hasSet_congr hsame.name.symm, ← hdesired,
    ← mem_pvcs_provided]
  exact hend.left i j

/-! ## Runs -/

variable {p : Placement} {steps : List World.Step}

theorem run_concat (step : World.Step) : World.run order cr (steps ++ [step]) (World.start cr) =
    World.step order cr (World.run order cr steps (World.start cr)) step := by
  rw [World.run, List.foldl_append]
  rfl

theorem asked_concat_edit (n r : Nat) : World.asked cr (steps ++ [.edit n r]) = (n, r) := by
  rw [World.asked, List.foldl_append]
  rfl

theorem asked_concat_pass : World.asked cr (steps ++ [.pass]) = World.asked cr steps := by
  rw [World.asked, List.foldl_append]
  rfl

/-- What a run of some steps has come to: the claims are housed, and the spec asks for what was
last written to it. -/
structure Lodged (order : RangeOrders) (cr : ValkeyCluster) (steps : List World.Step)
    (c : ValkeyCluster) (p : Placement) : Prop
    extends Reached cr (World.run order cr steps (World.start cr)) c p where
  housed : Housed cr (World.run order cr steps (World.start cr)).kube
  shards_eq : (World.asked cr steps).1 = c.spec.shards
  replicas_eq : (World.asked cr steps).2 = c.spec.replicasPerShard

theorem lodged_nil (halive : cr.deletionTimestamp = none)
    (hcr : 0 < cr.spec.shards ∧ cr.spec.shards ≤ slotSpace) :
    Lodged order cr [] cr Placement.empty where
  toReached := reached_start halive hcr
  housed := ⟨.nil, fun _ hpvc => absurd hpvc List.not_mem_nil⟩
  shards_eq := rfl
  replicas_eq := rfl

/-- One step: a pass makes claims, and what has no StatefulSet afterwards has no claim. -/
theorem Lodged.step (h : Lodged order cr steps c p) (step : World.Step)
    (hstep : ∀ n r, step = .edit n r → 0 < n ∧ n ≤ slotSpace) :
    (∃ c' p', Lodged order cr (steps ++ [step]) c' p') ∧
    ∀ i j, claimOf cr i j ∈
        (World.run order cr (steps ++ [step]) (World.start cr)).kube.pvcs ↔
      (claimOf cr i j ∈ (World.run order cr steps (World.start cr)).kube.pvcs ∨
        step = .pass ∧ i < (World.asked cr steps).1 ∧ j ≤ (World.asked cr steps).2) ∧
      HasSet cr (World.run order cr (steps ++ [step]) (World.start cr)).kube.statefulSets i := by
  cases step with
  | edit n r =>
      obtain ⟨c', hreached, hspec⟩ := h.toReached.edit (hstep n r rfl) r
      obtain ⟨k, hedit, hsets, hpvcs, -⟩ := edit_kube h.cluster h.alive n r
      have hrun : World.run order cr (steps ++ [.edit n r]) (World.start cr) =
          (World.run order cr steps (World.start cr)).putKube k := by
        rw [run_concat, ← hedit]
        rfl
      have hvacated : Vacated cr _ k := h.housed.vacated.of_same ⟨hsets, hpvcs⟩
      refine ⟨⟨c', p, ⟨by rw [run_concat]; exact hreached, by rw [hrun]; exact hvacated.toHoused,
        ?_, ?_⟩⟩, fun i j => ?_⟩
      · rw [asked_concat_edit, hspec]
      · rw [asked_concat_edit, hspec]
      · rw [hrun]
        simp only [reduceCtorEq, false_and, or_false]
        exact hvacated.left i j
  | pass =>
      obtain ⟨c', p', hreached, hpassed, -⟩ := h.toReached.pass order
      obtain ⟨hhoused, hclaims⟩ :=
        (h.housed.congr h.name h.nspace).pass order h.cluster h.alive h.numbered
      rw [h.name, h.nspace] at hhoused hclaims
      rw [claimOf_congr h.name h.nspace, hasSet_congr h.name] at hclaims
      rw [← h.shards_eq, ← h.replicas_eq] at hclaims
      have hrun : World.run order cr (steps ++ [.pass]) (World.start cr) =
          (World.run order cr steps (World.start cr)).pass order cr := run_concat .pass
      refine ⟨⟨c', p', ⟨by rw [hrun]; exact hreached, ?_, ?_, ?_⟩⟩, fun i j => ?_⟩
      · rw [hrun]
        exact hhoused.congr h.name.symm h.nspace.symm
      · rw [asked_concat_pass, hpassed.same.spec, h.shards_eq]
      · rw [asked_concat_pass, hpassed.same.spec, h.replicas_eq]
      · rw [hrun]
        simp only [true_and]
        exact hclaims i j

theorem lodged_run (halive : cr.deletionTimestamp = none)
    (hcr : 0 < cr.spec.shards ∧ cr.spec.shards ≤ slotSpace) (order : RangeOrders)
    (hsteps : ∀ n r, .edit n r ∈ steps → 0 < n ∧ n ≤ slotSpace) :
    ∃ c p, Lodged order cr steps c p := by
  induction steps using List.reverseRecOn with
  | nil => exact ⟨cr, _, lodged_nil halive hcr⟩
  | append_singleton steps step ih =>
      obtain ⟨c, p, h⟩ := ih fun n r hmem => hsteps n r (List.mem_append_left _ hmem)
      exact (h.step step fun n r heq => hsteps n r (by simp [heq])).1

/-- Wherever a run stops, a claim is there if a pass has made it and its shard has had a
StatefulSet ever since. -/
theorem mem_pvcs_run_iff (halive : cr.deletionTimestamp = none)
    (hcr : 0 < cr.spec.shards ∧ cr.spec.shards ≤ slotSpace) (order : RangeOrders)
    (hsteps : ∀ n r, .edit n r ∈ steps → 0 < n ∧ n ≤ slotSpace) :
    claimOf cr i j ∈ (World.run order cr steps (World.start cr)).kube.pvcs ↔
      ∃ done, ProvidedSince order cr steps i done ∧ j ≤ (World.asked cr done).2 := by
  have hheld := held_iff (l := steps)
    (fun l => claimOf cr i j ∈ (World.run order cr l (World.start cr)).kube.pvcs)
    (fun l => HasSet cr (World.run order cr l (World.start cr)).kube.statefulSets i)
    (fun done step => step = .pass ∧ i < (World.asked cr done).1 ∧ j ≤ (World.asked cr done).2)
    List.not_mem_nil fun done step hpre => ?_
  · rw [hheld]
    constructor
    · rintro ⟨done, _, rest, hsplit, ⟨rfl, hi, hj⟩, hkept⟩
      exact ⟨done, ⟨rest, hsplit, hi, hkept⟩, hj⟩
    · rintro ⟨done, ⟨rest, hsplit, hi, hkept⟩, hj⟩
      exact ⟨done, _, rest, hsplit, ⟨rfl, hi, hj⟩, hkept⟩
  · have hvalid : ∀ n r, .edit n r ∈ done ++ [step] → 0 < n ∧ n ≤ slotSpace :=
      fun n r hmem => hsteps n r (hpre.subset hmem)
    obtain ⟨c, p, h⟩ : ∃ c p, Lodged order cr done c p := lodged_run halive hcr order
      fun n r hmem => hvalid n r (List.mem_append_left _ hmem)
    exact (h.step step fun n r heq => hvalid n r (by simp [heq])).2 i j

/-! ## A pass that does nothing -/

theorem exec_plannedAction (hc : w.kube.cluster = some c) (hnum : Numbered c.spec.shards)
    (hown : OwnSets c w.kube.statefulSets) (hsame : SameCluster c cr)
    (hfinal : exec (World.answer order) (ensureFinalizer c) w =
      (.ok cr, w.putKube { w.kube with cluster := some cr })) :
    (exec (World.answer order) (plannedAction c.name c.nspace) w).1 =
      .ok (chosenPlan cr (w.provided cr).kube.statefulSets
        (summarize cr w.fake.state)).kind := by
  have hown' := hown.congr hsame.name hsame.nspace
  have hnum' : Numbered cr.spec.shards := hsame.spec ▸ hnum
  have hsets := (provisioned_provided hnum' hown').own
  have hobserve : exec (World.answer order) (wrap "observe cluster" (Admin.state (seed cr)))
      (w.provided cr) = (.ok w.fake.state, w.provided cr) := exec_wrap_ok _ rfl
  rw [plannedAction, exec_bind_ok (exec_getCluster (World.kubeBacked order) hc),
    exec_bind_ok hfinal, exec_bind_ok (exec_provision order hnum' hown'), exec_bind_ok hobserve,
    exec_bind_ok (exec_choosePlan (World.kubeBacked order) hsets _)]
  rfl

theorem not_excess_of_none {sets : List StatefulSet} {observed : Topology.Observed}
    (hsets : OwnSets cr sets) (hnone : (chosenPlan cr sets observed).kind = .none)
    (hset : HasSet cr sets i) : i < cr.spec.shards := by
  by_contra hge
  have hkind : (Topology.decide (desired cr) observed).kind ≠ .form ∧
      (Topology.decide (desired cr) observed).kind ≠ .scaleOutShards := by
    constructor
    · intro hform
      rw [chosenPlan_of_kind (.inl hform), hform] at hnone
      cases hnone
    · intro hout
      rw [chosenPlan_of_kind (.inr hout), hout] at hnone
      cases hnone
  rw [chosenPlan_of_excess hsets hkind ⟨i, hset, by omega⟩] at hnone
  cases hnone

/-- Nothing is done to the workloads but to make sure of them. -/
theorem sameWorkloads_of_none (order : RangeOrders)
    (hown : OwnSets cr (w.provided cr).kube.statefulSets)
    (hnone : (chosenPlan cr (w.provided cr).kube.statefulSets
      (summarize cr w.fake.state)).kind = .none) :
    SameWorkloads (w.provided cr).kube
      (exec (World.answer order) (reconcileCluster cr) (w.provided cr)).2.kube := by
  have hobserve : exec (World.answer order) (wrap "observe cluster" (Admin.state (seed cr)))
      (w.provided cr) = (.ok w.fake.state, w.provided cr) := exec_wrap_ok _ rfl
  rw [reconcileCluster, exec_bind_ok hobserve,
    exec_bind_ok (exec_choosePlan (World.kubeBacked order) hown _), hnone]
  have hrest : Prog.Only Routine (do
      act cr w.fake.state (summarize cr w.fake.state) .none
      let state ← wrap "observe cluster (post-action)" (Admin.state (seed cr))
      updateStatus cr state
      pure (isProgressing .none) : Act Bool).run :=
    only_bind (routine_reconcileMembership _) fun _ =>
      only_bind (only_wrap _ (Prog.only_op.2 trivial)) fun state =>
        only_bind (routine_updateStatus state) fun _ => Prog.only_pure _
  exact (Prog.runs_iff.1 (keeps_sameWorkloads
    (hrest.mono fun _ => Routine.leavesWorkloads) (w.provided cr))).1

/-- A pass that does nothing to the topology gives the desired pods their claims, and
there are StatefulSets of desired shards only. -/
theorem Reached.pvcs_of_none (h : Reached cr w c p) (hhoused : Housed c w.kube)
    (hnone : (exec (World.answer order) (plannedAction cr.name cr.nspace) w).1 = .ok .none) :
    (∀ i, HasSet c w.kube.statefulSets i → i < c.spec.shards) ∧
    ∀ pvc, pvc ∈ (w.pass order cr).kube.pvcs ↔ pvc ∈ w.kube.pvcs ∨
      ∃ i < c.spec.shards, ∃ j ≤ c.spec.replicasPerShard, pvc = claimOf c i j := by
  obtain ⟨cr', hsame, hfinal⟩ := exec_ensureFinalizer order h.cluster h.alive
  have hprov := provisioned_provided (w := w) (hsame.spec ▸ h.numbered)
    (hhoused.own.congr hsame.name hsame.nspace)
  have hplan := exec_plannedAction h.cluster h.numbered hhoused.own hsame hfinal
  rw [h.name, h.nspace, hnone, Except.ok.injEq] at hplan
  have hwork := sameWorkloads_of_none order hprov.own hplan.symm
  rw [← exec_reconcile h.cluster h.alive h.numbered hhoused.own hsame hfinal, h.name,
    h.nspace] at hwork
  constructor
  · intro i hset
    rw [← hsame.spec]
    refine not_excess_of_none hprov.own hplan.symm ((hprov.hasSet i).2 (.inl ?_))
    rw [hasSet_congr hsame.name]
    exact hset
  · intro pvc
    rw [World.pass, hwork.2, mem_pvcs_provided, hsame.spec,
      claimOf_congr hsame.name hsame.nspace]

/-- After such a pass the claims are exact if none was left over before it. -/
theorem Reached.storageExact_iff (h : Reached cr w c p) (hhoused : Housed c w.kube)
    (hnone : (exec (World.answer order) (plannedAction cr.name cr.nspace) w).1 = .ok .none) :
    StorageExact (w.pass order cr) ↔ NoneLeftOver w := by
  obtain ⟨c', p', h', hpassed, -⟩ := h.pass order
  obtain ⟨hsets, hclaims⟩ := h.pvcs_of_none hhoused hnone
  have hclaim : claimOf c' = claimOf c := claimOf_congr hpassed.same.name hpassed.same.nspace
  constructor
  · intro hexact c₀ hc₀ i hi j hmem
    obtain rfl : c = c₀ := Option.some.inj (h.cluster.symm.trans hc₀)
    have hleft := (hexact c' h'.cluster (claimOf c i j)).1
      ⟨(hclaims _).2 (.inl hmem), hclaim ▸ labelled_claimOf c' i j⟩
    rw [hclaim, hpassed.same.spec] at hleft
    obtain ⟨i', -, j', hj', heq⟩ := hleft
    rw [(claimOf_inj heq).2]
    exact hj'
  · intro hnone c₀ hc₀ pvc
    obtain rfl : c' = c₀ := Option.some.inj (h'.cluster.symm.trans hc₀)
    rw [hclaim, hpassed.same.spec, hclaims]
    constructor
    · intro ⟨hmem, _⟩
      rcases hmem with hmem | hdesired
      · obtain ⟨i, j, rfl, hset⟩ := hhoused.claims pvc hmem
        exact ⟨i, hsets i hset, j, hnone c h.cluster i (hsets i hset) j hmem, rfl⟩
      · exact hdesired
    · intro hdesired
      refine ⟨.inr hdesired, ?_⟩
      obtain ⟨i, -, j, -, rfl⟩ := hdesired
      exact hclaim ▸ labelled_claimOf c' i j

/-- After a pass that takes no action the claims are exact unless, since a desired shard has its
StatefulSet, some pass provided for more replicas than the spec asks for now. -/
theorem storage_reclaimed_iff (halive : cr.deletionTimestamp = none)
    (hcr : 1 ≤ cr.spec.shards ∧ cr.spec.shards ≤ 16384) (order : RangeOrders)
    (steps : List World.Step) (hsteps : ∀ n r, .edit n r ∈ steps → 1 ≤ n ∧ n ≤ 16384)
    (hnone : (exec (World.answer order) (plannedAction cr.name cr.nspace)
      (World.run order cr steps (World.start cr))).1 = .ok .none) :
    StorageExact ((World.run order cr steps (World.start cr)).pass order cr) ↔
      ∀ i < (World.asked cr steps).1, ∀ done, ProvidedSince order cr steps i done →
        (World.asked cr done).2 ≤ (World.asked cr steps).2 := by
  obtain ⟨c, p, h⟩ := lodged_run halive hcr order hsteps
  rw [h.toReached.storageExact_iff (h.housed.congr h.name h.nspace) hnone, h.shards_eq,
    h.replicas_eq]
  constructor
  · intro hleft i hi done hsince
    refine hleft c h.cluster i hi _ ?_
    rw [claimOf_congr h.name h.nspace]
    exact (mem_pvcs_run_iff halive hcr order hsteps).2 ⟨done, hsince, le_rfl⟩
  · intro hmost c' hc' i hi j hclaim
    obtain rfl : c = c' := Option.some.inj (h.cluster.symm.trans hc')
    rw [claimOf_congr h.name h.nspace, mem_pvcs_run_iff halive hcr order hsteps] at hclaim
    obtain ⟨done, hsince, hj⟩ := hclaim
    exact hj.trans (hmost i hi done hsince)

end

/-! ## A replica that goes -/

section

variable {c : ValkeyCluster} {owner : Nat → Nat} {ranges : Nat → List SlotRange} {w : World}

/-- A healthy cluster of the desired shards has nothing to be done for it. -/
theorem Healthy.plannedAction (h : Healthy c owner ranges w.fake) (order : RangeOrders)
    (hc : w.kube.cluster = some c) (halive : c.deletionTimestamp = none)
    (hsets : DesiredSets c w.kube) :
    (exec (World.answer order) (plannedAction c.name c.nspace) w).1 = .ok .none := by
  obtain ⟨cr, hsame, hfinal⟩ := exec_ensureFinalizer order hc halive
  have hprov := provisioned_provided (w := w) (hsame.spec ▸ hsets.numbered)
    (hsets.own.congr hsame.name hsame.nspace)
  have hdesired : ∀ i, HasSet cr (w.provided cr).kube.statefulSets i → i < cr.spec.shards := by
    intro i hset
    rcases (hprov.hasSet i).1 hset with hset | hi
    · rw [hasSet_congr hsame.name] at hset
      exact hsame.spec ▸ (hsets.hasSet i).1 hset
    · exact hi
  rw [exec_plannedAction hc hsets.numbered hsets.own hsame hfinal,
    chosenPlan_of_none hprov.own hdesired, (h.congr hsame).decide]

/-- A cluster at rest that is told to have fewer replicas is at rest after a pass, and
has the claims it had. -/
theorem AtRest.lower (h : AtRest owner ranges w c) (order : RangeOrders) {r : Nat}
    (halive : c.deletionTimestamp = none) (hle : r ≤ c.spec.replicasPerShard)
    (howner : ∀ i < c.spec.shards, owner i ≤ r) :
    ∃ c', AtRest owner ranges ((w.edit c.spec.shards r).pass order c) c' ∧
      (c'.name = c.name ∧ c'.nspace = c.nspace ∧ c'.deletionTimestamp = none ∧
        c'.spec = { c.spec with replicasPerShard := r }) ∧
      ∀ pvc ∈ w.kube.pvcs, pvc ∈ ((w.edit c.spec.shards r).pass order c).kube.pvcs := by
  obtain ⟨k, hedit, hsets, hpvcs, c₁, hc₁, hname, hns, halive₁, hspec⟩ :=
    edit_kube h.stored halive c.spec.shards r
  have hown : OwnSets c₁ k.statefulSets := hsets ▸ h.sets.own.congr hname hns
  have hnum : Numbered c₁.spec.shards := hspec ▸ h.sets.numbered
  obtain ⟨cr, hsame, hfinal⟩ :=
    exec_ensureFinalizer order (w := w.putKube k) hc₁ halive₁
  have hspec' : cr.spec = { c.spec with replicasPerShard := r } := hsame.spec.trans hspec
  have hprov := provisioned_provided (w := w.putKube k) (hsame.spec ▸ hnum)
    (hown.congr hsame.name hsame.nspace)
  have hlowers : Lowers c cr owner := by
    refine ⟨hsame.name.trans hname, hsame.nspace.trans hns, ?_, ?_, ?_⟩
    · rw [hspec']
    · rw [hspec']
      exact hle
    · rw [hspec']
      exact howner
  have hdesired : DesiredSets cr ((w.putKube k).provided cr).kube := by
    refine ⟨hprov.own, fun i => (hprov.hasSet i).trans (or_iff_right_of_imp fun hset => ?_)⟩
    rw [hasSet_congr hlowers.name] at hset
    rw [hlowers.shards]
    exact (h.sets.hasSet i).1 (hsets ▸ hset)
  obtain ⟨w', c', hexec, hrest, hsame', hwork⟩ := hlowers.exec_reconcileCluster order
    (w := (w.putKube k).provided cr) h.healthy hprov.cluster hdesired
  have hpass : (w.edit c.spec.shards r).pass order c = w' := by
    rw [hedit, World.pass, ← hname, ← hns, exec_reconcile hc₁ halive₁ hnum hown hsame hfinal,
      hexec]
  rw [hpass]
  refine ⟨c', hrest, ⟨hsame'.name.trans hlowers.name, hsame'.nspace.trans hlowers.nspace,
    (hsame.trans hsame').deletion.trans halive₁, hsame'.spec.trans hspec'⟩, fun pvc hpvc => ?_⟩
  rw [hwork.2]
  exact (mem_pvcs_provided cr _).2 (.inl (hpvcs ▸ hpvc))

end

/-- A pair is told to have no replica, but gets it back before a pass has been made. The next one
has nothing to do, and the claims are those of its two pods. -/
theorem storage_reclaimed_pair :
    let w := World.run (fun _ => asWritten) pair [.pass, .edit 1 0, .edit 1 1] (World.start pair)
    (exec (World.answer fun _ => asWritten) (plannedAction pair.name pair.nspace) w).1 =
        .ok .none ∧
      ∀ pvc, pvc ∈ (w.pass (fun _ => asWritten) pair).kube.pvcs ∧ Labelled pair pvc ↔
        pvc = claimOf pair 0 0 ∨ pvc = claimOf pair 0 1 := by
  intro w
  obtain ⟨-, c₁, -, hsame₁, hrest, -⟩ :=
    atRest_start (fun _ => asWritten) (c := pair) rfl (by decide) (by decide)
  obtain ⟨k₂, hedit₂, hsets₂, hpvcs₂, c₂, hc₂, hname₂, hns₂, halive₂, hspec₂⟩ :=
    edit_kube hrest.stored hsame₁.deletion 1 0
  obtain ⟨k, hedit, hsets, hpvcs, c, hc, hname, hns, halive, hspec⟩ :=
    edit_kube (w := World.putKube k₂ _) hc₂ halive₂ 1 1
  have hw : w = World.putKube k ((World.start pair).pass (fun _ => asWritten) pair) :=
    (congrArg (World.edit 1 1) hedit₂).trans (hedit.trans rfl)
  have hsame : SameCluster c₁ c :=
    ⟨hname.trans hname₂, hns.trans hns₂, by rw [hspec, hspec₂, hsame₁.spec]; rfl,
      halive.trans hsame₁.deletion.symm⟩
  have hdesired : DesiredSets c k :=
    (hrest.sets.congr hsame).of_same ⟨hsets.trans hsets₂, hpvcs.trans hpvcs₂⟩
  have hplan : (exec (World.answer fun _ => asWritten) (plannedAction pair.name pair.nspace)
      w).1 = .ok .none := by
    rw [hw, ← hsame₁.name, ← hsame₁.nspace, ← hsame.name, ← hsame.nspace]
    exact Healthy.plannedAction (w := World.putKube k _) (hrest.healthy.congr hsame) _ hc halive
      hdesired
  have hedits : ∀ n r, .edit n r ∈ [World.Step.pass, .edit 1 0, .edit 1 1, .pass] →
      0 < n ∧ n ≤ slotSpace := by
    intro n r hmem
    obtain ⟨rfl, -⟩ | ⟨rfl, -⟩ : n = 1 ∧ r = 0 ∨ n = 1 ∧ r = 1 := by simpa using hmem
    · decide
    · decide
  refine ⟨hplan, fun pvc => ?_⟩
  have hexact : StorageExact (w.pass (fun _ => asWritten) pair) := by
    refine (storage_reclaimed_iff rfl (by decide) (fun _ => asWritten)
      [.pass, .edit 1 0, .edit 1 1] (fun n r hmem => hedits n r (by simp_all))
      hplan).2 fun i _ done hsince => ?_
    -- the only pass so far was the first step
    obtain ⟨rest, hsplit, -⟩ := hsince
    obtain rfl : done = [] := by
      rcases done with _ | ⟨_, _ | ⟨_, _ | ⟨_, done⟩⟩⟩
      · rfl
      · cases hsplit
      · cases hsplit
      · simp at hsplit
    exact le_rfl
  obtain ⟨c', p, h⟩ : ∃ c p, Lodged (fun _ => asWritten) pair
      [.pass, .edit 1 0, .edit 1 1, .pass] c p := lodged_run rfl (by decide) _ hedits
  have hpods := hexact c' h.cluster pvc
  rw [← h.shards_eq, ← h.replicas_eq, claimOf_congr h.name h.nspace, Labelled, h.name] at hpods
  rw [Labelled, hpods]
  constructor
  · rintro ⟨i, hi, j, hj, rfl⟩
    obtain rfl : i = 0 := Nat.lt_one_iff.1 hi
    rcases Nat.le_one_iff_eq_zero_or_eq_one.1 hj with rfl | rfl
    · exact .inl rfl
    · exact .inr rfl
  · rintro (rfl | rfl)
    · exact ⟨0, Nat.one_pos, 0, Nat.zero_le _, rfl⟩
    · exact ⟨0, Nat.one_pos, 1, le_rfl, rfl⟩

/-- A pair is told to have no replica. The pass after that forgets it, the next one has
nothing to do, and the claim is still there. -/
theorem storage_not_reclaimed :
    let w := World.run (fun _ => asWritten) pair [.pass, .edit 1 0, .pass] (World.start pair)
    (exec (World.answer fun _ => asWritten) (plannedAction pair.name pair.nspace) w).1 =
        .ok .none ∧
      ¬ StorageExact (w.pass (fun _ => asWritten) pair) := by
  intro w
  obtain ⟨cr, c₁, hsame, hsame₁, hrest₁, hwork⟩ :=
    atRest_start (fun _ => asWritten) (c := pair) rfl (by decide) (by decide)
  obtain ⟨c₂, hrest₂, ⟨hname, hns, halive, hspec⟩, hpvcs⟩ :=
    hrest₁.lower (fun _ => asWritten) (r := 0) hsame₁.deletion (Nat.zero_le _) fun _ _ => le_rfl
  have hw : World.pass (fun _ => asWritten) c₁ (World.edit c₁.spec.shards 0
      (World.pass (fun _ => asWritten) pair (World.start pair))) = w := by
    rw [World.pass, hsame₁.spec, hsame₁.name, hsame₁.nspace]
    rfl
  rw [hw] at hrest₂ hpvcs
  have hplan := hrest₂.healthy.plannedAction (fun _ => asWritten) hrest₂.stored halive hrest₂.sets
  rw [hname, hns, hsame₁.name, hsame₁.nspace] at hplan
  refine ⟨hplan, fun hexact => ?_⟩
  obtain ⟨c, p, h⟩ : ∃ c p, Lodged (fun _ => asWritten) pair [.pass, .edit 1 0, .pass] c p :=
    lodged_run rfl (by decide) _ (by simp [slotSpace])
  have hnone := (h.toReached.storageExact_iff (h.housed.congr h.name h.nspace) hplan).1
    hexact c₂ hrest₂.stored 0 (by rw [hspec, hsame₁.spec]; decide) 1 (hpvcs _ ?_)
  · rw [hspec] at hnone
    exact Nat.not_succ_le_zero 0 hnone
  · rw [hwork.2, mem_pvcs_provided, hsame.spec]
    refine .inr ⟨0, by decide, 1, by decide, ?_⟩
    rw [claimOf_congr (hname.trans hsame₁.name) (hns.trans hsame₁.nspace),
      claimOf_congr hsame.name hsame.nspace]

end Valkeyop.Controller
