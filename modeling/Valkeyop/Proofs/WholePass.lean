import Valkeyop.Proofs.PassCalls
import Valkeyop.Proofs.Quiescence

/-!
# A whole pass

What `Reconcile` does before it comes to the cluster: the finalizer is stored, and the
StatefulSets of the desired shards are brought up to date. In the world of the tests
nothing of that fails, so a pass is `reconcileCluster` in the world it is then in.
-/

namespace Valkeyop.Controller

open Valkeyop.Lib Valkeyop.Lib.Fallible Valkeyop.Cluster Valkeyop.Api Valkeyop.Resources

/-- The StatefulSets of the desired shards are up to date. -/
def ApiServer.ensured (cr : ValkeyCluster) (k : ApiServer) : ApiServer :=
  (List.range cr.spec.shards).foldl (fun k i => k.putStatefulSet (statefulSet cr i)) k

/-- The world in which a pass for the resource looks at the cluster. -/
def World.provided (cr : ValkeyCluster) (w : World) : World :=
  w.putKube (ApiServer.ensured cr { w.kube with
    cluster := some cr
    configMap := some (configMap cr)
    service := some (headlessService cr) })

section

variable {c cr : ValkeyCluster} {order : RangeOrders} {w : World}

theorem exec_ensureFinalizer (order : RangeOrders) (hc : w.kube.cluster = some c)
    (halive : c.deletionTimestamp = none) :
    ∃ cr, SameCluster c cr ∧ exec (World.answer order) (ensureFinalizer c) w =
      (.ok cr, w.putKube { w.kube with cluster := some cr }) := by
  unfold ensureFinalizer
  split
  · refine ⟨c, ⟨rfl, rfl, rfl, rfl⟩, ?_⟩
    rw [← hc]
    rfl
  · have hnamed : w.kube.named c.name c.nspace = some c := named_of_cluster hc
    refine ⟨ApiServer.merge c { c with finalizers := c.finalizers ++ [finalizer] },
      ⟨rfl, rfl, rfl, rfl⟩, ?_⟩
    change ((w.kube.update _).1, w.putKube (w.kube.update _).2) = _
    simp only [ApiServer.update, hnamed, ne_eq, not_true_eq_false, if_false]
    rw [if_neg]
    simp [ApiServer.merge, halive]

theorem foldl_putKube (l : List Nat) (w : World) :
    l.foldl (fun w i => World.putKube (w.kube.putStatefulSet (statefulSet cr i)) w) w =
      w.putKube (l.foldl (fun k i => k.putStatefulSet (statefulSet cr i)) w.kube) := by
  induction l generalizing w with
  | nil => rfl
  | cons i l ih => exact ih (w.putKube (w.kube.putStatefulSet (statefulSet cr i)))

theorem exec_applyStatefulSet (i : Nat) (w : World) :
    exec (World.answer order) (Kube.applyStatefulSet (statefulSet cr i)) w =
      (.ok (), w.putKube (w.kube.putStatefulSet (statefulSet cr i))) := rfl

theorem exec_ensureStatefulSets (w : World) : exec (World.answer order) (ensureStatefulSets cr) w =
    (.ok (), w.putKube (w.kube.ensured cr)) :=
  (exec_forM exec_applyStatefulSet _ w).trans (congrArg _ (foldl_putKube _ w))

theorem mem_calls_ensureStatefulSets {e : Call × World} :
    e ∈ calls (World.answer order) (ensureStatefulSets cr) w ↔
      ∃ done i rest, List.range cr.spec.shards = done ++ i :: rest ∧
        e = (.kube (.applyStatefulSet (statefulSet cr i)),
          w.putKube (done.foldl (fun k i => k.putStatefulSet (statefulSet cr i)) w.kube)) := by
  simp only [← foldl_putKube]
  refine (mem_calls_forM exec_applyStatefulSet).trans ?_
  simp only [show ∀ i w, calls (World.answer order) (Kube.applyStatefulSet (statefulSet cr i)) w =
    [(.kube (.applyStatefulSet (statefulSet cr i)), w)] from fun _ _ => rfl, List.mem_singleton]

/-- A set that is there afterwards is one of another name, or has the replicas of the spec. -/
theorem mem_sets_foldl {l : List Nat} {k : ApiServer} {s : StatefulSet}
    (hs : s ∈ (l.foldl (fun k i => k.putStatefulSet (statefulSet cr i)) k).statefulSets) :
    s ∈ k.statefulSets ∧ (∀ i ∈ l, ¬ (s.name = statefulSetName cr i ∧ s.nspace = cr.nspace)) ∨
      s.replicas = 1 + cr.spec.replicasPerShard := by
  induction l generalizing k with
  | nil => exact .inl ⟨hs, fun i hi => absurd hi List.not_mem_nil⟩
  | cons i l ih =>
      rcases ih hs with ⟨hmem, hl⟩ | hcount
      · rcases mem_putSet_cases hmem with rfl | ⟨hmem, hi⟩
        · exact .inr rfl
        · exact .inl ⟨hmem, List.forall_mem_cons.2 ⟨hi, hl⟩⟩
      · exact .inr hcount

theorem mem_sets_foldl_of_ne {l : List Nat} {k : ApiServer} {s : StatefulSet}
    (hs : s ∈ k.statefulSets) (hne : ∀ i ∈ l, s.name ≠ statefulSetName cr i) :
    s ∈ (l.foldl (fun k i => k.putStatefulSet (statefulSet cr i)) k).statefulSets := by
  induction l generalizing k with
  | nil => exact hs
  | cons i l ih =>
      obtain ⟨hi, hl⟩ := List.forall_mem_cons.1 hne
      exact ih (mem_putSet_of_ne hs hi) hl

theorem cluster_ensured (k : ApiServer) : (k.ensured cr).cluster = k.cluster := by
  unfold ApiServer.ensured
  generalize List.range cr.spec.shards = l
  induction l generalizing k with
  | nil => rfl
  | cons i l ih => exact ih (k.putStatefulSet (statefulSet cr i))

theorem Provisioned.ensured {k : ApiServer} (hnum : Numbered cr.spec.shards)
    (hown : OwnSets cr k.statefulSets) :
    Provisioned cr (· < cr.spec.shards) k (k.ensured cr) := by
  have hbase : Provisioned cr (fun _ => False) k k :=
    ⟨rfl, hown, fun j => by simp, fun _ hi => hi.elim⟩
  have h := hbase.foldl fun i hi => hnum i (List.mem_range.1 hi)
  simp only [false_or, List.mem_range] at h
  exact h

theorem provisioned_provided (hnum : Numbered cr.spec.shards)
    (hown : OwnSets cr w.kube.statefulSets) :
    Provisioned cr (· < cr.spec.shards) { w.kube with cluster := some cr }
      (w.provided cr).kube := by
  have h := Provisioned.ensured (k := { w.kube with
    cluster := some cr
    configMap := some (configMap cr)
    service := some (headlessService cr) }) hnum hown
  exact ⟨h.cluster, h.own, h.hasSet, h.ready⟩

theorem exec_ensureConfigMap (order : RangeOrders) (w : World) :
    exec (World.answer order) (ensureConfigMap cr) w =
      (.ok (), w.putKube { w.kube with configMap := some (configMap cr) }) := rfl

theorem exec_ensureHeadlessService (order : RangeOrders) (w : World) :
    exec (World.answer order) (ensureHeadlessService cr) w =
      (.ok (), w.putKube { w.kube with service := some (headlessService cr) }) := rfl

/-- Everything is made sure of, and the pods are ready. -/
theorem exec_provision (order : RangeOrders) (hnum : Numbered cr.spec.shards)
    (hown : OwnSets cr w.kube.statefulSets) :
    exec (World.answer order) (provision cr)
      (w.putKube { w.kube with cluster := some cr }) = (.ok true, w.provided cr) := by
  have hprov := provisioned_provided hnum hown
  obtain ⟨_, _, hready, rfl, rfl⟩ := (succeeds_shardsReady (World.kubeBacked order)
    (G := fun _ _ => True) (fun _ => trivial) hprov.own hprov.ready).exec
  rw [provision, exec_bind_ok (exec_ensureConfigMap order _),
    exec_bind_ok (exec_ensureHeadlessService order _), exec_bind_ok (exec_ensureStatefulSets _)]
  exact hready

theorem exec_attempt_getCluster (hc : w.kube.cluster = some c) :
    exec (World.answer order) (Kube.getCluster c.name c.nspace).attempt w = (.ok (.ok c), w) := by
  rw [exec_attempt, exec_getCluster (World.kubeBacked order) hc]

/-- A resource that is not being deleted is read, and reconciled. -/
theorem exec_reconcile_live (hc : w.kube.cluster = some c) (halive : c.deletionTimestamp = none) :
    exec (World.answer order) (reconcile c.name c.nspace) w =
      exec (World.answer order) (reconcileLive c) w := by
  rw [reconcile, exec_bind_ok (exec_attempt_getCluster hc)]
  simp only [halive, Option.isSome_none, Bool.false_eq_true, if_false]

theorem calls_reconcile_live (hc : w.kube.cluster = some c) (halive : c.deletionTimestamp = none) :
    calls (World.answer order) (reconcile c.name c.nspace) w =
      calls (World.answer order) (Kube.getCluster c.name c.nspace).attempt w ++
        calls (World.answer order) (reconcileLive c) w := by
  rw [reconcile, calls_bind_ok (exec_attempt_getCluster hc)]
  simp only [halive, Option.isSome_none, Bool.false_eq_true, if_false]

/-- The pass, from there on. -/
theorem exec_reconcile (hc : w.kube.cluster = some c) (halive : c.deletionTimestamp = none)
    (hnum : Numbered c.spec.shards) (hown : OwnSets c w.kube.statefulSets)
    (hsame : SameCluster c cr)
    (hfinal : exec (World.answer order) (ensureFinalizer c) w =
      (.ok cr, w.putKube { w.kube with cluster := some cr })) :
    (exec (World.answer order) (reconcile c.name c.nspace) w).2 =
      (exec (World.answer order) (reconcileCluster cr) (w.provided cr)).2 := by
  have hprovision := exec_provision order (hsame.spec ▸ hnum) (hown.congr hsame.name hsame.nspace)
  rw [exec_reconcile_live hc halive, reconcileLive_eq, exec_bind_ok hfinal,
    exec_bind_ok hprovision, settle]
  simp only [Bool.not_true, Bool.false_eq_true, if_false]
  -- whether the rest fails decides only when the next pass is made
  rw [exec_bind_ok exec_attempt]
  cases (exec (World.answer order) (reconcileCluster cr) (w.provided cr)).1 with
  | error e => rfl
  | ok progressing => rfl

/-! ## What changes workloads -/

/-- A call that leaves StatefulSets and claims alone. -/
def LeavesWorkloads : Call → Prop
  | .kube (.applyStatefulSet _) | .kube (.deleteStatefulSet ..) | .kube (.deletePVC _) => False
  | _ => True

theorem Routine.leavesWorkloads {c : Call} (hc : Routine c) : LeavesWorkloads c := by
  unfold LeavesWorkloads
  split
  · exact hc
  · exact hc
  · exact hc
  · trivial

theorem sameWorkloads_answer {c : Call} (hc : LeavesWorkloads c) (w : World) :
    SameWorkloads w.kube (World.answer order c w).2.kube := by
  cases c with
  | admin c => exact ⟨rfl, rfl⟩
  | rangeOver m => exact ⟨rfl, rfl⟩
  | kube c =>
      simp only [World.answer]
      cases c with
      | applyStatefulSet sts => exact hc.elim
      | deleteStatefulSet name nspace => exact hc.elim
      | deletePVC pvc => exact hc.elim
      | updateCluster new =>
          simp only [ApiServer.answer, ApiServer.update]
          split
          · exact ⟨rfl, rfl⟩
          · split
            · exact ⟨rfl, rfl⟩
            · exact ⟨rfl, rfl⟩
      | updateClusterStatus new =>
          simp only [ApiServer.answer, ApiServer.updateStatus]
          split
          · exact ⟨rfl, rfl⟩
          · split
            · exact ⟨rfl, rfl⟩
            · exact ⟨rfl, rfl⟩
      | _ => exact ⟨rfl, rfl⟩

theorem keeps_sameWorkloads {α : Type} {p : Act α} (hp : Prog.Only LeavesWorkloads p.run)
    (w : World) :
    Keeps (World.answer order) (fun _ _ => True) (fun w' => SameWorkloads w.kube w'.kube) p w :=
  hp.runs (fun _ w' hc hw' =>
    ⟨trivial, hw'.trans (sameWorkloads_answer hc w')⟩) ⟨rfl, rfl⟩

/-! ## The first pass -/

/-- The first pass forms the cluster. -/
theorem atRest_start (order : RangeOrders) (halive : c.deletionTimestamp = none)
    (hn : 0 < c.spec.shards) (hle : c.spec.shards ≤ slotSpace) :
    ∃ cr c₁, SameCluster c cr ∧ SameCluster c c₁ ∧
      AtRest (fun _ => 0) (dealtRanges c.spec.shards) ((World.start c).pass order c) c₁ ∧
      SameWorkloads ((World.start c).provided cr).kube ((World.start c).pass order c).kube := by
  have hc : (World.start c).kube.cluster = some c := rfl
  have hown : OwnSets c (World.start c).kube.statefulSets := .nil
  have hnum : Numbered c.spec.shards := numbered_of_le_slotSpace hle
  obtain ⟨cr, hsame, hfinal⟩ := exec_ensureFinalizer order hc halive
  have hprov := provisioned_provided (w := World.start c) (hsame.spec ▸ hnum)
    (hown.congr hsame.name hsame.nspace)
  have hsets : DesiredSets cr ((World.start c).provided cr).kube := by
    refine ⟨hprov.own, fun i => (hprov.hasSet i).trans (or_iff_right ?_)⟩
    exact List.not_mem_nil
  obtain ⟨w₁, c₁, hexec, hrest, hsame₁, hwork⟩ := exec_reconcileCluster_empty order
    hprov.cluster rfl hsets (hsame.spec ▸ hn) (hsame.spec ▸ hle)
  have hpass : (World.start c).pass order c = w₁ := by
    rw [World.pass, exec_reconcile hc halive hnum hown hsame hfinal, hexec]
  rw [hpass]
  exact ⟨cr, c₁, hsame, hsame.trans hsame₁, hsame.spec ▸ hrest, hwork⟩

end

end Valkeyop.Controller
