import Valkeyop.Controller.Registry
import Valkeyop.Proofs.Generation

/-!
# No edit is lost

The operator writes the resource in three places: it puts its finalizer on, takes it off, and
publishes a status. The first two send the whole object back, spec and all, and the object may
come from a cache. That is safe because a copy that is not up to date is refused, and one that
is up to date has the spec that is stored.
-/

namespace Valkeyop.Controller

open Valkeyop.Lib Valkeyop.Lib.Fallible Valkeyop.Cluster Valkeyop.Api Valkeyop.Resources Prog

/-- What is stored is what the others have asked for. Once the resource is gone it is because
they removed it, or asked for its deletion and nobody else held on to it. -/
structure Registry.Kept (s : Registry) : Prop where
  latest : Latest ValkeyCluster.resourceVersion s.past s.kube.cluster
  stored : ∀ c, s.kube.cluster = some c → s.wish = some (wishOf c)
  released : s.kube.cluster = none → ∀ w, s.wish = some w →
    w.deletionTimestamp.isSome = true ∧ w.finalizers = []

section

variable {s s' : Registry} {k : ApiServer} {c cr : ValkeyCluster}

/-! ## What others do -/

theorem Registry.Kept.others (h : s.Kept) (ho : Registry.Others s s') : s'.Kept := by
  cases ho with
  | write c k hnew hk =>
      refine ⟨?_, fun c' hc' => ?_, fun hnone => ?_⟩
      · show Latest _ (c :: s.past) k.cluster
        rw [hk]
        exact .store hnew
      · simp only [hk, Option.some.injEq] at hc'
        rw [hc']
      · simp only [hk, reduceCtorEq] at hnone
  | remove k hk =>
      refine ⟨?_, fun c' hc' => ?_, fun _ w hw => ?_⟩
      · show Latest _ s.past k.cluster
        rw [hk]
        exact .gone
      · simp only [hk, reduceCtorEq] at hc'
      · cases hw
  | elsewhere k hk =>
      refine ⟨?_, fun c' hc' => h.stored c' (hk ▸ hc'), fun hnone => h.released (hk ▸ hnone)⟩
      show Latest _ s.past k.cluster
      rw [hk]
      exact h.latest

/-! ## What the operator's calls do -/

/-- Nothing has happened to the resource. -/
theorem Registry.Kept.put_same (h : s.Kept) (hk : k.cluster = s.kube.cluster) :
    (s.put k).Kept := by
  refine ⟨?_, fun c hc => h.stored c (hk ▸ hc), fun hnone => h.released (hk ▸ hnone)⟩
  show Latest _ (k.cluster.toList ++ s.past) k.cluster
  rw [hk]
  exact h.latest.again

/-- A new version with everything the others have a say in. -/
theorem Registry.Kept.put_stored (h : s.Kept) (hc : s.kube.cluster = some c)
    (hk : k.cluster = some cr) (hnew : c.resourceVersion < cr.resourceVersion)
    (hwish : wishOf cr = wishOf c) : (s.put k).Kept := by
  refine ⟨?_, fun c' hc' => ?_, fun hnone => ?_⟩
  · show Latest _ (k.cluster.toList ++ s.past) k.cluster
    rw [hk]
    exact .store (h.latest.newer hc hnew)
  · show s.wish = _
    obtain rfl : cr = c' := Option.some.inj (hk.symm.trans hc')
    rw [h.stored c hc, hwish]
  · rw [show (s.put k).kube.cluster = k.cluster from rfl, hk] at hnone
    cases hnone

theorem Registry.Kept.put_released (h : s.Kept) (hc : s.kube.cluster = some c)
    (hk : k.cluster = none) (hdeleted : c.deletionTimestamp.isSome = true)
    (hfree : (wishOf c).finalizers = []) : (s.put k).Kept := by
  refine ⟨?_, fun c' hc' => ?_, fun _ w hw => ?_⟩
  · show Latest _ (k.cluster.toList ++ s.past) k.cluster
    rw [hk]
    exact .gone
  · rw [show (s.put k).kube.cluster = k.cluster from rfl, hk] at hc'
    cases hc'
  · have hw' : s.wish = some w := hw
    rw [h.stored c hc] at hw'
    obtain rfl := Option.some.inj hw'
    exact ⟨hdeleted, hfree⟩

theorem ApiServer.named_some {name nspace : String} (h : k.named name nspace = some c) :
    k.cluster = some c ∧ c.name = name ∧ c.nspace = nspace := by
  simp only [ApiServer.named, Option.filter_eq_some_iff, Bool.and_eq_true, beq_iff_eq] at h
  exact h

/-- An update with a copy that was read at some time, and other finalizers of the operator's. -/
theorem Registry.Kept.update (h : s.Kept) (hcr : cr ∈ s.past) {fs : List String}
    (hfs : fs.filter (· != finalizer) = cr.finalizers.filter (· != finalizer)) :
    (s.put (s.kube.update { cr with finalizers := fs }).2).Kept := by
  unfold ApiServer.update
  split
  · exact h.put_same rfl
  · next old hold =>
      obtain ⟨hcluster, -, -⟩ := ApiServer.named_some hold
      split
      · exact h.put_same rfl
      · next hversion =>
          -- a copy with the stored version is the stored object
          obtain rfl : cr = old := h.latest.same hcluster hcr (not_not.1 hversion)
          have hwish : wishOf (ApiServer.merge cr { cr with finalizers := fs }) = wishOf cr := by
            simp only [wishOf, ApiServer.merge, if_true, hfs]
          simp only []
          split
          · next hreleased =>
              refine h.put_released hcluster rfl hreleased.1 ?_
              rw [← hwish]
              simp only [wishOf, hreleased.2, List.filter_nil]
          · exact h.put_stored hcluster rfl (Nat.lt_succ_self _) hwish

theorem Registry.Kept.updateStatus (h : s.Kept) :
    (s.put (s.kube.updateStatus cr).2).Kept := by
  unfold ApiServer.updateStatus
  split
  · exact h.put_same rfl
  · next old hold =>
      obtain ⟨hcluster, -, -⟩ := ApiServer.named_some hold
      split
      · exact h.put_same rfl
      · exact h.put_stored hcluster rfl (Nat.lt_succ_self _) rfl

/-- No other call is about the resource. -/
theorem Registry.Kept.answer {c : KubeCall} (h : s.Kept) (hc : LeavesSpec (.kube c)) :
    (s.put (s.kube.answer c).2).Kept := by
  cases c with
  | updateCluster cr => exact hc.elim
  | updateClusterStatus cr => exact h.updateStatus
  | deleteStatefulSet name nspace =>
      simp only [ApiServer.answer]
      split
      · exact h.put_same rfl
      · exact h.put_same rfl
  | deletePVC pvc =>
      simp only [ApiServer.answer]
      split
      · exact h.put_same rfl
      · exact h.put_same rfl
  | getCluster name nspace => exact h.put_same rfl
  | applyConfigMap cm => exact h.put_same rfl
  | applyService svc => exact h.put_same rfl
  | applyStatefulSet sts => exact h.put_same rfl
  | getStatefulSet name nspace => exact h.put_same rfl
  | listStatefulSets nspace selector => exact h.put_same rfl
  | listPVCs nspace selector => exact h.put_same rfl
  | now => exact h.put_same rfl

theorem contended_cases {c : KubeCall} {r : c.Reply} (h : Contended (.kube c) s r s') :
    s' = s ∨ s' = s.put (s.kube.answer c).2 := by
  cases c with
  | getCluster name nspace => exact .inl h.1
  | _ => exact h.imp And.right And.right

theorem Registry.Kept.contended {c : Call} {r : c.Reply} (h : s.Kept) (hc : LeavesSpec c)
    (hr : Contended c s r s') : s'.Kept := by
  cases c with
  | admin c =>
      rw [show s' = s from hr]
      exact h
  | rangeOver m =>
      rw [show s' = s from hr]
      exact h
  | kube c =>
      rcases contended_cases hr with rfl | rfl
      · exact h
      · exact h.answer hc

/-! ## A pass -/

/-- What has been read stays among the versions there have been. -/
theorem Registry.Others.past (ho : Registry.Others s s') (hcr : cr ∈ s.past) : cr ∈ s'.past := by
  cases ho with
  | write c k hnew hk => exact List.mem_cons_of_mem c hcr
  | remove k hk => exact hcr
  | elsewhere k hk => exact hcr

theorem past_of_contended {c : Call} {r : c.Reply} (hr : Contended c s r s') (hcr : cr ∈ s.past) :
    cr ∈ s'.past := by
  cases c with
  | admin c => exact (show s' = s from hr) ▸ hcr
  | rangeOver m => exact (show s' = s from hr) ▸ hcr
  | kube c =>
      rcases contended_cases hr with rfl | rfl
      · exact hcr
      · exact List.mem_append_right _ hcr

/-- Part of a pass that leaves the spec alone, after a read. -/
theorem kept_of_only {α : Type} {p : Ctl α} (hp : p.Only LeavesSpec) (hs : s.Kept)
    (hcr : cr ∈ s.past) :
    p.Wp Registry.Others Contended (fun _ => Registry.Kept)
      (fun _ s' => s'.Kept ∧ cr ∈ s'.past) s := by
  refine (hp.wp (I := fun t : Registry => t.Kept ∧ cr ∈ t.past) (fun s s₁ h ho => ?_)
    (fun c s r s' hc h hr => ?_) ⟨hs, hcr⟩).guard_mono fun _ _ h => h.1
  · exact ⟨h.1.others ho, ho.past h.2⟩
  · exact ⟨h.1.contended hc hr, past_of_contended hr h.2⟩

/-- The operator's update of a copy it has read. -/
theorem kept_updateCluster {fs : List String} (hs : s.Kept) (hcr : cr ∈ s.past)
    (hfs : fs.filter (· != finalizer) = cr.finalizers.filter (· != finalizer)) :
    (Kube.updateCluster { cr with finalizers := fs }).run.Wp Registry.Others Contended
      (fun _ => Registry.Kept) (fun _ s' => s'.Kept ∧ cr ∈ s'.past) s := by
  refine wp_call (fun s => s.Kept ∧ cr ∈ s.past) ⟨hs, hcr⟩
    (fun s s₁ h ho => ⟨h.1.others ho, ho.past h.2⟩) (fun _ h => h.1) fun s r s' h hr => ?_
  refine wp_ret (fun s => s.Kept ∧ cr ∈ s.past) ⟨?_, past_of_contended hr h.2⟩
    (fun s s₁ h ho => ⟨h.1.others ho, ho.past h.2⟩) fun _ h => h
  rcases contended_cases hr with rfl | rfl
  · exact h.1
  · exact h.1.update h.2 hfs

/-- The first part of a pass, and the rest after it unless it fails. -/
theorem kept_bind {α β : Type} {p : Act α} {f : α → Act β}
    (hp : p.run.Wp Registry.Others Contended (fun _ => Registry.Kept)
      (fun _ s' => s'.Kept ∧ cr ∈ s'.past) s)
    (hf : ∀ a s', s'.Kept → cr ∈ s'.past → (f a).run.Wp Registry.Others Contended
      (fun _ => Registry.Kept) (fun _ => Registry.Kept) s') :
    (p >>= f).run.Wp Registry.Others Contended (fun _ => Registry.Kept)
      (fun _ => Registry.Kept) s := by
  refine Fallible.wp_bind_keeps Registry.Kept (Q := fun _ s' => s'.Kept ∧ cr ∈ s'.past)
    (fun _ _ h ho => h.others ho) (fun _ _ h => h) (hp.mono fun r s' h => ?_)
    fun a s' h => hf a s' h.1 h.2
  cases r with
  | ok a => exact h
  | error e => exact h.1

theorem kept_pure {α : Type} {a : α} (hs : s.Kept) :
    (pure a : Act α).run.Wp Registry.Others Contended (fun _ => Registry.Kept)
      (fun _ => Registry.Kept) s :=
  wp_ret Registry.Kept hs (fun _ _ h ho => h.others ho) fun _ h => h

theorem kept_reconcileDelete (hs : s.Kept) (hcr : cr ∈ s.past) :
    (reconcileDelete cr).run.Wp Registry.Others Contended (fun _ => Registry.Kept)
      (fun _ => Registry.Kept) s := by
  unfold reconcileDelete
  split
  · have hdelete : Prog.Only LeavesSpec (deleteOwnedPVCs cr).run :=
      only_bind (Prog.only_op.2 trivial) fun _ =>
        only_forM fun _ _ => only_ignoreNotFound (Prog.only_op.2 trivial)
    refine kept_bind (kept_of_only hdelete hs hcr) fun _ s₁ hs₁ hcr₁ => ?_
    refine kept_bind (kept_updateCluster hs₁ hcr₁ ?_) fun _ s₂ hs₂ _ => kept_pure hs₂
    simp only [List.filter_filter, Bool.and_self]
  · exact kept_pure hs

theorem kept_reconcileLive (hs : s.Kept) (hcr : cr ∈ s.past) :
    (reconcileLive cr).run.Wp Registry.Others Contended (fun _ => Registry.Kept)
      (fun _ => Registry.Kept) s := by
  have hfinal : (ensureFinalizer cr).run.Wp Registry.Others Contended (fun _ => Registry.Kept)
      (fun _ s' => s'.Kept ∧ cr ∈ s'.past) s := by
    unfold ensureFinalizer
    split
    · exact kept_of_only (Prog.only_pure _) hs hcr
    · refine kept_updateCluster hs hcr ?_
      rw [List.filter_append]
      simp
  rw [reconcileLive_eq]
  refine kept_bind hfinal fun cr' s₁ hs₁ hcr₁ => ?_
  refine kept_bind (kept_of_only only_provision hs₁ hcr₁) fun ready s₂ hs₂ hcr₂ => ?_
  refine (kept_of_only ?_ hs₂ hcr₂).mono fun _ _ h => h.1
  exact only_settle (fun _ => Routine.leavesSpec) (fun _ _ => trivial) (fun _ _ _ _ => trivial)
    (fun _ _ => trivial) (fun _ => trivial) ready

theorem kept_reconcile {name nspace : String} (hs : s.Kept) :
    (reconcile name nspace).run.Wp Registry.Others Contended (fun _ => Registry.Kept)
      (fun _ => Registry.Kept) s := by
  have hread : (Kube.getCluster name nspace).attempt.run.Wp Registry.Others Contended
      (fun _ => Registry.Kept) (Post (fun r s' => s'.Kept ∧ ∀ cr, r = .ok cr → cr ∈ s'.past)
        fun _ => Registry.Kept) s := by
    refine Fallible.wp_attempt.2 ?_
    refine wp_call Registry.Kept hs (fun _ _ h ho => h.others ho) (fun _ h => h)
      fun s r s' h hr => ?_
    obtain ⟨rfl, hpast⟩ := hr
    refine wp_ret (fun t : Registry => t.Kept ∧ ∀ cr, r = .ok cr → cr ∈ t.past)
      ⟨h, fun cr hcr => (hpast cr hcr).1⟩ (fun _ _ h ho => ⟨h.1.others ho, fun cr hcr =>
        ho.past (h.2 cr hcr)⟩) fun _ h => h
  refine Fallible.wp_bind_keeps Registry.Kept (fun _ _ h ho => h.others ho) (fun _ _ h => h) hread
    fun r s' h => ?_
  cases r with
  | error e =>
      simp only []
      split
      · exact kept_pure h.1
      · exact wp_ret Registry.Kept h.1 (fun _ _ h ho => h.others ho) fun _ h => h
  | ok cr =>
      simp only []
      split
      · exact kept_reconcileDelete h.1 (h.2 cr rfl)
      · exact kept_reconcileLive h.1 (h.2 cr rfl)

end

theorem Registry.kept_opening (k : ApiServer) : (Registry.opening k).Kept where
  latest := by
    refine ⟨fun c hc => Option.mem_toList.2 hc, fun c hc b hb => .inr ?_⟩
    exact Option.some.inj ((Option.mem_toList.1 hb).symm.trans hc)
  stored c hc := by
    rw [Registry.opening, show k.cluster = some c from hc]
    rfl
  released hnone w hw := by
    rw [Registry.opening, show k.cluster = none from hnone] at hw
    cases hw

/-- The operator shares the resource with users and other controllers. However their writes fall
between its calls, whichever old version its cache serves, and wherever its passes are cut short,
what is stored is at every moment what the others have asked for: the spec, the generation, the
deletion, and the finalizers that are not the operator's. If the resource is gone, either they
removed it, or they had asked for its deletion and let go of it. -/
theorem edits_kept {name nspace : String} {k : ApiServer} {s : Registry}
    (h : Operated Registry.Others Contended name nspace (.opening k) s) :
    (∀ c, s.kube.cluster = some c → s.wish = some (wishOf c)) ∧
      (s.kube.cluster = none → ∀ w, s.wish = some w →
        w.deletionTimestamp.isSome = true ∧ w.finalizers = []) := by
  have hend : s.Kept := h.invariant (fun _ _ h ho => h.others ho) (fun _ hs => kept_reconcile hs)
    (Registry.kept_opening k)
  exact ⟨hend.stored, hend.released⟩

/-- A resource without the finalizer, and the same after an edit. -/
def shared (shards version : Nat) : ValkeyCluster where
  name := "cluster"
  nspace := "default"
  generation := version
  resourceVersion := version
  spec := { shards, replicasPerShard := 0 }

/-- The edit comes between the operator's read and its write, which is refused. -/
theorem edits_kept_race : ∃ s, Operated Registry.Others Contended "cluster" "default"
      (.opening { cluster := some (shared 3 1) }) s ∧
    s.kube.cluster = some (shared 5 2) ∧ s.wish = some (wishOf (shared 5 2)) := by
  let before : Registry := .opening { cluster := some (shared 3 1) }
  let edited : Registry := ⟨{ cluster := some (shared 5 2) }, [shared 5 2, shared 3 1],
    some (wishOf (shared 5 2))⟩
  have hread : Contended (.kube (.getCluster "cluster" "default")) before (.ok (shared 3 1))
      before := by
    refine ⟨rfl, fun c hc => ?_⟩
    cases hc
    exact ⟨List.mem_singleton.2 rfl, rfl, rfl⟩
  have hedit : Registry.Others before edited :=
    .write (shared 5 2) _ (fun b hb => by rw [List.mem_singleton.1 hb]; decide) rfl
  have hrefused : Contended
      (.kube (.updateCluster { shared 3 1 with finalizers := [] ++ [finalizer] })) edited
      (.error ApiServer.conflict) (edited.put edited.kube) := .inr ⟨.inr rfl, rfl⟩
  have hrun : Operated Registry.Others Contended "cluster" "default" before
      (edited.put edited.kube) :=
    .pass (.refl _) (.head (.call hread) (.head (.env hedit) (.single (.call hrefused))))
  exact ⟨_, hrun, rfl, (edits_kept hrun).1 _ rfl⟩

end Valkeyop.Controller
