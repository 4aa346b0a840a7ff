import Valkeyop.Proofs.FakeMembership
import Valkeyop.Proofs.Teardown
import Valkeyop.Proofs.UserEdits

/-!
# The storage goes before the resource

Once somebody has asked for the deletion of a cluster, its finalizer is all that keeps the
resource, and with it the knowledge which volume claims to delete. A pass deletes the claims and
takes the finalizer off. It may fail at any call, and be tried again any number of times while
others, who respect the deletion, go on writing the resource; still the finalizer never goes before
the last claim, and the first pass that nothing gets in the way of brings the deletion to an end.
-/

namespace Valkeyop.Controller

open Valkeyop.Lib Valkeyop.Lib.Fallible Valkeyop.Cluster Valkeyop.Api Valkeyop.Resources Prog

/-- A claim that carries the name of the cluster. -/
def Claimed (name nspace : String) (p : PVC) : Prop :=
  p.nspace = nspace ∧ p.labels.lookup labelInstance = some name

instance (name nspace : String) (p : PVC) : Decidable (Claimed name nspace p) :=
  inferInstanceAs (Decidable (_ ∧ _))

/-- The resource is to be deleted, and the operator holds on to it. -/
def Dying (name nspace : String) (k : ApiServer) : Prop :=
  ∃ c, k.cluster = some c ∧ c.name = name ∧ c.nspace = nspace ∧
    c.deletionTimestamp.isSome = true ∧ finalizer ∈ c.finalizers

/-- A deletion that has been asked for: the resource is not coming back, and until its claims
are gone the operator holds on to it. -/
structure Ending (name nspace : String) (k : ApiServer) : Prop where
  leaving : ∀ c, k.cluster = some c → c.deletionTimestamp.isSome = true
  guarded : Dying name nspace k ∨ ∀ p ∈ k.pvcs, ¬ Claimed name nspace p

/-- Others that respect the deletion: they neither revive the resource nor take the operator's
finalizer off, and make no more claims for it. -/
structure Considerate (name nspace : String) (s s' : Registry) : Prop where
  step : Registry.Others s s'
  leaving : (∀ c, s.kube.cluster = some c → c.deletionTimestamp.isSome = true) →
    ∀ c, s'.kube.cluster = some c → c.deletionTimestamp.isSome = true
  dying : Dying name nspace s.kube → Dying name nspace s'.kube
  claims : ∀ p ∈ s'.kube.pvcs, Claimed name nspace p → p ∈ s.kube.pvcs

/-- The cache has seen the deletion, and no claim is said to be missing while it is there. -/
def Abreast : (c : Call) → Registry → c.Reply → Prop
  | .kube (.getCluster _ _), _, r => ∀ c, r = Except.ok c → c.deletionTimestamp.isSome = true
  | .kube (.deletePVC pvc), s, r => ∀ e, r = Except.error e → e.reason = .notFound →
      pvc ∉ s.kube.pvcs
  | _, _, _ => True

section

variable {name nspace : String} {s s' : Registry} {k k' : ApiServer} {cr : ValkeyCluster}

theorem Ending.considerate (h : Ending name nspace s.kube) (ho : Considerate name nspace s s') :
    Ending name nspace s'.kube where
  leaving := ho.leaving h.leaving
  guarded := by
    rcases h.guarded with hdying | hclear
    · exact .inl (ho.dying hdying)
    · exact .inr fun p hp hclaimed => hclear p (ho.claims p hp hclaimed) hclaimed

theorem Ending.of_cluster_eq (h : Ending name nspace k) (hk : k'.cluster = k.cluster)
    (hpvcs : ∀ p ∈ k'.pvcs, p ∈ k.pvcs) : Ending name nspace k' where
  leaving := by
    rw [hk]
    exact h.leaving
  guarded := by
    rw [Dying, hk]
    exact h.guarded.imp_right fun hclear p hp => hclear p (hpvcs p hp)

/-- An update does not revive the resource, and is not about claims. -/
theorem leaving_update (h : ∀ c, k.cluster = some c → c.deletionTimestamp.isSome = true) :
    (∀ c, (k.update cr).2.cluster = some c → c.deletionTimestamp.isSome = true) ∧
      (k.update cr).2.pvcs = k.pvcs := by
  refine ⟨fun c hc => ?_, ?_⟩
  · obtain ⟨old, hold, hsame⟩ := deletion_update hc
    exact hsame ▸ h old hold
  · unfold ApiServer.update
    split
    · rfl
    · split
      · rfl
      · rfl

/-! ## The claims, one after the other -/

/-- Every claim there is has yet to be deleted. -/
structure Remaining (name nspace : String) (l : List PVC) (s : Registry) : Prop where
  ending : Ending name nspace s.kube
  listed : ∀ p ∈ s.kube.pvcs, Claimed name nspace p → p ∈ l

theorem Remaining.considerate {l : List PVC} (h : Remaining name nspace l s)
    (ho : Considerate name nspace s s') : Remaining name nspace l s' :=
  ⟨h.ending.considerate ho, fun p hp hclaimed => h.listed p (ho.claims p hp hclaimed) hclaimed⟩

theorem ApiServer.answer_deletePVC (k : ApiServer) (pvc : PVC) :
    (k.answer (.deletePVC pvc)).2 = { k with pvcs := k.pvcs.filter (· != pvc) } ∧
      ∀ e, (k.answer (.deletePVC pvc)).1 = .error e → e.reason = .notFound := by
  simp only [ApiServer.answer]
  split
  · exact ⟨rfl, fun e he => by cases he⟩
  · next habsent =>
      have hsame : k.pvcs.filter (· != pvc) = k.pvcs := by
        refine List.filter_eq_self.2 fun p hp => bne_iff_ne.2 fun heq => habsent ?_
        exact List.contains_iff_mem.2 (heq ▸ hp)
      rw [hsame]
      exact ⟨rfl, fun e he => by cases he; rfl⟩

/-- Whether or not it fails, a deletion of a claim is nothing more than that; and after an answer
that the pass goes on with the claim is gone. -/
theorem deletePVC_contended {pvc : PVC} {r : Except Err Unit}
    (hr : (Contended.restrict Abreast) (.kube (.deletePVC pvc)) s r s') :
    s'.kube.cluster = s.kube.cluster ∧ (∀ p ∈ s'.kube.pvcs, p ∈ s.kube.pvcs) ∧
      ((∀ e, r = .error e → e.reason = .notFound) → pvc ∉ s'.kube.pvcs) := by
  obtain ⟨⟨⟨e, he⟩, rfl⟩ | ⟨-, rfl⟩, habreast⟩ := hr
  · exact ⟨rfl, fun p hp => hp, fun hreason => habreast e he (hreason e he)⟩
  · rw [show (s.put (s.kube.answer (.deletePVC pvc)).2).kube =
      (s.kube.answer (.deletePVC pvc)).2 from rfl, (s.kube.answer_deletePVC pvc).1]
    exact ⟨rfl, fun p hp => List.mem_of_mem_filter hp, fun _ => by simp⟩

theorem ending_deleteClaim (pvc : PVC) {l : List PVC} (hs : Remaining name nspace (pvc :: l) s) :
    (ignoreNotFound (Kube.deletePVC pvc)).run.Wp (Considerate name nspace)
      (Contended.restrict Abreast) (fun _ t => Ending name nspace t.kube)
      (Post (fun _ => Remaining name nspace l) fun _ t => Ending name nspace t.kube) s := by
  refine wp_op_bind (c := Call.kube (.deletePVC pvc)) (Remaining name nspace (pvc :: l)) hs
    (fun _ _ h ho => h.considerate ho) (fun _ h => h.ending) fun s r s' h hr => ?_
  obtain ⟨hcluster, hfewer, hgone⟩ := deletePVC_contended hr
  have hending := h.ending.of_cluster_eq hcluster hfewer
  have hnext : (∀ e, r = .error e → e.reason = .notFound) → Remaining name nspace l s' := by
    intro hdone
    refine ⟨hending, fun p hp hclaimed => ?_⟩
    rcases List.mem_cons.1 (h.listed p (hfewer p hp) hclaimed) with rfl | hmem
    · exact absurd hp (hgone hdone)
    · exact hmem
  cases r with
  | ok u =>
      exact wp_ret (Remaining name nspace l) (hnext fun e he => by cases he)
        (fun _ _ h ho => h.considerate ho) fun _ h => h
  | error e =>
      simp only []
      split
      · next hreason =>
          refine wp_ret (Remaining name nspace l) (hnext fun e' he => ?_)
            (fun _ _ h ho => h.considerate ho) fun _ h => h
          cases he
          exact hreason
      · exact wp_ret (fun t : Registry => Ending name nspace t.kube) hending
          (fun _ _ h ho => h.considerate ho) fun _ h => h

theorem ending_deleteClaims (l : List PVC) (hs : Remaining name nspace l s) :
    (l.forM fun pvc => ignoreNotFound (Kube.deletePVC pvc)).run.Wp (Considerate name nspace)
      (Contended.restrict Abreast) (fun _ t => Ending name nspace t.kube)
      (Post (fun _ => Remaining name nspace []) fun _ t => Ending name nspace t.kube) s := by
  induction l generalizing s with
  | nil =>
      exact wp_ret (Remaining name nspace []) hs (fun _ _ h ho => h.considerate ho) fun _ h => h
  | cons pvc l ih =>
      exact Fallible.wp_bind_keeps (fun t : Registry => Ending name nspace t.kube)
        (fun _ _ h ho => h.considerate ho) (fun _ _ h => h) (ending_deleteClaim pvc hs)
        fun _ _ hs' => ih hs'

theorem claimed_iff {p : PVC} : (p.nspace == cr.nspace &&
    Labels.matching (instanceSelector cr) p.labels) = true ↔ Claimed cr.name cr.nspace p := by
  rw [Bool.and_eq_true, beq_iff_eq, matching_instance, Claimed]

theorem ending_deleteOwnedPVCs (hs : Ending cr.name cr.nspace s.kube) :
    (deleteOwnedPVCs cr).run.Wp (Considerate cr.name cr.nspace) (Contended.restrict Abreast)
      (fun _ t => Ending cr.name cr.nspace t.kube)
      (Post (fun _ => Remaining cr.name cr.nspace []) fun _ t => Ending cr.name cr.nspace t.kube)
      s := by
  refine wp_op_bind (c := Call.kube (.listPVCs cr.nspace (instanceSelector cr)))
    (fun t : Registry => Ending cr.name cr.nspace t.kube) hs (fun _ _ h ho => h.considerate ho)
    (fun _ h => h) fun s r s' h hr => ?_
  have hsame : s'.kube = s.kube := by
    rcases contended_cases hr.1 with rfl | rfl
    · rfl
    · rfl
  cases r with
  | error e =>
      exact wp_ret (fun t : Registry => Ending cr.name cr.nspace t.kube) (hsame ▸ h)
        (fun _ _ h ho => h.considerate ho) fun _ h => h
  | ok found =>
      refine ending_deleteClaims found ⟨hsame ▸ h, fun p hp hclaimed => ?_⟩
      obtain ⟨⟨⟨e, he⟩, -⟩ | ⟨⟨e, he⟩ | hfound, -⟩, -⟩ := hr
      · cases he
      · cases he
      · obtain rfl := Except.ok.inj hfound
        exact List.mem_filter.2 ⟨hsame ▸ hp, claimed_iff.2 hclaimed⟩

/-! ## A pass -/

theorem ending_pure {α : Type} {a : α} (hs : Ending name nspace s.kube) :
    (pure a : Act α).run.Wp (Considerate name nspace) (Contended.restrict Abreast)
      (fun _ t => Ending name nspace t.kube) (fun _ t => Ending name nspace t.kube) s :=
  wp_ret (fun t : Registry => Ending name nspace t.kube) hs (fun _ _ h ho => h.considerate ho)
    fun _ h => h

theorem ending_reconcileDelete (hs : Ending cr.name cr.nspace s.kube) :
    (reconcileDelete cr).run.Wp (Considerate cr.name cr.nspace) (Contended.restrict Abreast)
      (fun _ t => Ending cr.name cr.nspace t.kube)
      (fun _ t => Ending cr.name cr.nspace t.kube) s := by
  unfold reconcileDelete
  split
  · refine Fallible.wp_bind_keeps (fun t : Registry => Ending cr.name cr.nspace t.kube)
      (fun _ _ h ho => h.considerate ho) (fun _ _ h => h) (ending_deleteOwnedPVCs hs)
      fun _ s₁ hs₁ => ?_
    refine Fallible.wp_bind_keeps (fun t : Registry => Ending cr.name cr.nspace t.kube)
      (Q := fun _ t => Ending cr.name cr.nspace t.kube) (fun _ _ h ho => h.considerate ho)
      (fun _ _ h => h) ?_ fun _ _ hs₂ => ending_pure hs₂
    refine wp_call (Remaining cr.name cr.nspace []) hs₁ (fun _ _ h ho => h.considerate ho)
      (fun _ h => h.ending) fun s r s' h hr => ?_
    have hclear : ∀ p ∈ s.kube.pvcs, ¬ Claimed cr.name cr.nspace p :=
      fun p hp hclaimed => List.not_mem_nil (h.listed p hp hclaimed)
    have hending : Ending cr.name cr.nspace s'.kube := by
      rcases contended_cases hr.1 with rfl | rfl
      · exact h.ending
      · obtain ⟨hleaving, hpvcs⟩ := leaving_update h.ending.leaving
        exact ⟨hleaving, .inr fun p hp => hclear p (hpvcs ▸ hp)⟩
    refine wp_ret (fun t : Registry => Ending cr.name cr.nspace t.kube) hending
      (fun _ _ h ho => h.considerate ho) fun t ht => ?_
    cases r with
    | ok new => exact ht
    | error e => exact ht
  · exact ending_pure hs

theorem ending_reconcile (hs : Ending name nspace s.kube) :
    (reconcile name nspace).run.Wp (Considerate name nspace) (Contended.restrict Abreast)
      (fun _ t => Ending name nspace t.kube) (fun _ t => Ending name nspace t.kube) s := by
  have hread : (Kube.getCluster name nspace).attempt.run.Wp (Considerate name nspace)
      (Contended.restrict Abreast) (fun _ t => Ending name nspace t.kube)
      (Post (fun r t => Ending name nspace t.kube ∧ ∀ cr, r = .ok cr → cr.name = name ∧
        cr.nspace = nspace ∧ cr.deletionTimestamp.isSome = true)
        fun _ t => Ending name nspace t.kube) s := by
    refine Fallible.wp_attempt.2 ?_
    refine wp_call (fun t : Registry => Ending name nspace t.kube) hs
      (fun _ _ h ho => h.considerate ho) (fun _ h => h) fun s r s' h hr => ?_
    obtain ⟨⟨rfl, hpast⟩, habreast⟩ := hr
    refine wp_ret (fun t : Registry => Ending name nspace t.kube) h
      (fun _ _ h ho => h.considerate ho) fun t ht => ⟨ht, fun cr hcr => ?_⟩
    obtain ⟨-, hname, hns⟩ := hpast cr hcr
    exact ⟨hname, hns, habreast cr hcr⟩
  refine Fallible.wp_bind_keeps (fun t : Registry => Ending name nspace t.kube)
    (fun _ _ h ho => h.considerate ho) (fun _ _ h => h) hread fun r s' h => ?_
  cases r with
  | error e =>
      simp only []
      split
      · exact ending_pure h.1
      · exact wp_ret (fun t : Registry => Ending name nspace t.kube) h.1
          (fun _ _ h ho => h.considerate ho) fun _ h => h
  | ok cr =>
      obtain ⟨rfl, rfl, hdeleted⟩ := h.2 cr rfl
      simp only [hdeleted, if_true]
      exact ending_reconcileDelete h.1

end

/-! ## A pass that nothing gets in the way of -/

/-- The deletion is through: the claims are gone and no others, and the operator has let go, so
that the resource is gone too unless somebody else holds on to it. -/
structure Reclaimed (name nspace : String) (k k' : ApiServer) : Prop where
  pvcs : k'.pvcs = k.pvcs.filter fun p => !decide (Claimed name nspace p)
  freed : ¬ Dying name nspace k'
  gone : ∀ c, k.named name nspace = some c → finalizer ∈ c.finalizers →
    (∀ f ∈ c.finalizers, f = finalizer) → k'.cluster = none

section

variable {S : Type} {h : Handler Call Call.Reply S} {kube : S → ApiServer}
  {put : ApiServer → S → S} {cr : ValkeyCluster} {name nspace : String} {s : S}

theorem backed_deleteClaim (hk : KubeBacked h kube put) (pvc : PVC) (s : S) :
    Succeeds h (fun _ _ => True)
      (fun _ s' => s' = put { kube s with pvcs := (kube s).pvcs.filter (· != pvc) } s)
      (ignoreNotFound (Kube.deletePVC pvc)) s := by
  obtain ⟨hleft, hreason⟩ := (kube s).answer_deletePVC pvc
  refine succeeds_ignoreNotFound ((Prog.runs_op (c := Call.kube (.deletePVC pvc))).2 ⟨trivial, ?_⟩)
  rw [hk.answer, hleft]
  cases hreply : ((kube s).answer (.deletePVC pvc)).1 with
  | ok u => rfl
  | error e => exact ⟨hreason e hreply, rfl⟩

theorem backed_deleteClaims (hk : KubeBacked h kube put) (l : List PVC) (s : S) :
    Succeeds h (fun _ _ => True)
      (fun _ s' => s' = put { kube s with pvcs := (kube s).pvcs.filter fun p => !l.contains p } s)
      (l.forM fun pvc => ignoreNotFound (Kube.deletePVC pvc)) s := by
  refine Succeeds.forM (I := fun done s' =>
    s' = put { kube s with pvcs := (kube s).pvcs.filter fun p => !done.contains p } s) ?_ ?_
  · intro done pvc todo _ s' hs'
    refine (backed_deleteClaim hk pvc s').mono fun _ s'' hs'' => ?_
    have hfilter : (kube s).pvcs.filter (fun p => p != pvc && !done.contains p) =
        (kube s).pvcs.filter fun p => !(done ++ [pvc]).contains p := by
      refine List.filter_congr fun p _ => Bool.eq_iff_iff.2 ?_
      simp [and_comm]
    rw [hs'', hs', hk.kube_put, hk.put_put, List.filter_filter]
    simp only [hfilter]
  · simp [hk.put_kube]

theorem backed_deleteOwnedPVCs (hk : KubeBacked h kube put) (s : S) :
    Succeeds h (fun _ _ => True) (fun _ s' => s' = put { kube s with
        pvcs := (kube s).pvcs.filter fun p => !decide (Claimed cr.name cr.nspace p) } s)
      (deleteOwnedPVCs cr) s := by
  refine succeeds_bind.2 ((Prog.runs_op
    (c := Call.kube (.listPVCs cr.nspace (instanceSelector cr)))).2 ⟨trivial, ?_⟩)
  rw [hk.answer, ApiServer.answer, hk.put_kube]
  refine (backed_deleteClaims hk _ s).mono fun _ s' hs' => ?_
  rw [hs', List.filter_congr fun p hp => ?_]
  rw [Bool.not_inj_iff, Bool.eq_iff_iff, List.contains_iff_mem, List.mem_filter, claimed_iff,
    decide_eq_true_iff]
  exact and_iff_right hp

/-- The update that lets go of the resource. -/
theorem released_update {k : ApiServer} (hcr : k.cluster = some cr)
    (hdeleted : cr.deletionTimestamp.isSome = true) :
    ∃ new k', k.update { cr with finalizers := cr.finalizers.filter (· != finalizer) } =
        (.ok new, k') ∧ k'.pvcs = k.pvcs ∧ ¬ Dying cr.name cr.nspace k' ∧
      ((∀ f ∈ cr.finalizers, f = finalizer) → k'.cluster = none) := by
  have hnamed : k.named cr.name cr.nspace = some cr := by
    simp [ApiServer.named, hcr]
  unfold ApiServer.update
  rw [hnamed]
  simp only [ne_eq, not_true_eq_false, if_false]
  refine ⟨_, _, rfl, rfl, ?_, fun hall => if_pos ⟨hdeleted, ?_⟩⟩
  · rintro ⟨c, hc, -, -, -, hfin⟩
    simp only [] at hc
    split at hc
    · cases hc
    · cases hc
      simp [ApiServer.merge] at hfin
  · exact List.filter_eq_nil_iff.2 fun f hf => by simp [hall f hf]

theorem backed_reconcile (hk : KubeBacked h kube put) (hs : Ending name nspace (kube s)) :
    Succeeds h (fun _ _ => True) (fun _ s' => Reclaimed name nspace (kube s) (kube s'))
      (reconcile name nspace) s := by
  have hidle : ¬ Dying name nspace (kube s) → Reclaimed name nspace (kube s) (kube s) := by
    intro hnot
    refine ⟨(List.filter_eq_self.2 fun p hp => ?_).symm, hnot, fun c hc hfin => ?_⟩
    · simpa using hs.guarded.resolve_left hnot p hp
    · obtain ⟨hcluster, hname, hns⟩ := ApiServer.named_some hc
      exact absurd ⟨c, hcluster, hname, hns, hs.leaving c hcluster, hfin⟩ hnot
  refine succeeds_bind.2 (succeeds_attempt.2 ((Prog.runs_op
    (c := Call.kube (.getCluster name nspace))).2 ⟨trivial, ?_⟩))
  rw [hk.answer, ApiServer.answer, hk.put_kube]
  cases hnamed : (kube s).named name nspace with
  | none =>
      refine succeeds_pure.2 (hidle fun hdying => ?_)
      obtain ⟨c, hc, hname, hns, -, -⟩ := hdying
      simp [ApiServer.named, hc, hname, hns] at hnamed
  | some c =>
      obtain ⟨hc, rfl, rfl⟩ := ApiServer.named_some hnamed
      have hdeleted := hs.leaving c hc
      simp only [hdeleted, if_true]
      unfold reconcileDelete
      split
      · refine succeeds_bind.2 ((backed_deleteOwnedPVCs hk s).mono fun _ s' hs' => ?_)
        let k₁ : ApiServer := { kube s with
          pvcs := (kube s).pvcs.filter fun p => !decide (Claimed c.name c.nspace p) }
        have hk₁ : k₁.cluster = some c := hc
        obtain ⟨new, k', hupdate, hpvcs, hfreed, hgone⟩ := released_update hk₁ hdeleted
        refine succeeds_bind.2 ((Prog.runs_op (c := Call.kube (.updateCluster _))).2 ⟨trivial, ?_⟩)
        rw [hk.answer, ApiServer.answer, hs', hk.kube_put, hupdate]
        refine succeeds_pure.2 ?_
        rw [hk.kube_put]
        refine ⟨hpvcs, hfreed, fun c' hc' _ hall => hgone ?_⟩
        obtain rfl : c = c' := Option.some.inj (hnamed.symm.trans hc')
        exact hall
      · next hfin =>
          refine succeeds_pure.2 (hidle fun hdying => ?_)
          obtain ⟨c', hc', -, -, -, hfin'⟩ := hdying
          obtain rfl : c = c' := Option.some.inj (hc.symm.trans hc')
          exact hfin hfin'

end

/-- A deletion that has been asked for is carried through, among others that respect it and with a
cache that has seen it. Wherever the operator's passes fail or are cut short, and whatever became
of the call they were at, as long as a claim with the cluster's label is left the operator holds on
to the resource; and from every such point one pass that nothing gets in the way of ends without
error, deletes exactly these claims and lets go. -/
theorem deletion_carried_through {name nspace : String} {k : ApiServer} {s : Registry}
    (hk : Dying name nspace k) (h : Operated (Considerate name nspace)
      (Contended.restrict Abreast) name nspace (.opening k) s) :
    (Dying name nspace s.kube ∨ ∀ p ∈ s.kube.pvcs, ¬ Claimed name nspace p) ∧
      ∀ {S : Type} {run : Handler Call Call.Reply S} {kube : S → ApiServer}
        {put : ApiServer → S → S} (t : S), KubeBacked run kube put → kube t = s.kube →
        ∃ r t', exec run (reconcile name nspace) t = (.ok r, t') ∧
          Reclaimed name nspace s.kube (kube t') := by
  have hstart : Ending name nspace k := by
    refine ⟨fun c' hc' => ?_, .inl hk⟩
    obtain ⟨c, hc, -, -, hdeleted, -⟩ := hk
    obtain rfl : c = c' := Option.some.inj (hc.symm.trans hc')
    exact hdeleted
  have hend : Ending name nspace s.kube :=
    h.invariant (I := fun t : Registry => Ending name nspace t.kube)
      (fun _ _ h ho => h.considerate ho) (fun _ hs => ending_reconcile hs) hstart
  refine ⟨hend.guarded, fun t hback ht => ?_⟩
  obtain ⟨r, t', hexec, hreclaimed⟩ := (backed_reconcile hback (ht ▸ hend)).exec
  exact ⟨r, t', hexec, ht ▸ hreclaimed⟩

/-- The first deletion is carried out but its answer is lost, so the pass gives up; the next one
ends it. -/
theorem deletion_carried_through_retry : ∃ s, Operated (Considerate "shop" "default")
      (Contended.restrict Abreast) "shop" "default"
      (.opening { cluster := some doomed, pvcs := [doomedData, uploads] }) s ∧
    s.kube.pvcs = [uploads] ∧ ∃ r t', exec (World.answer fun _ => asWritten)
      (reconcile "shop" "default") ⟨.empty, s.kube, 0⟩ = (.ok r, t') ∧
      t'.kube.pvcs = [] ∧ t'.kube.cluster = none := by
  let before : Registry := .opening { cluster := some doomed, pvcs := [doomedData, uploads] }
  have hread : (Contended.restrict Abreast) (.kube (.getCluster "shop" "default")) before
      (.ok doomed) before := by
    refine ⟨⟨rfl, fun c hc => ?_⟩, fun c hc => ?_⟩
    · cases hc
      exact ⟨List.mem_singleton.2 rfl, rfl, rfl⟩
    · cases hc
      rfl
  have hlist : (Contended.restrict Abreast)
      (.kube (.listPVCs "default" (instanceSelector doomed))) before (.ok [doomedData, uploads])
      (before.put before.kube) := by
    refine ⟨.inr ⟨.inr ?_, rfl⟩, trivial⟩
    decide +kernel
  have hlost : (Contended.restrict Abreast) (.kube (.deletePVC doomedData))
      (before.put before.kube) (.error ⟨.other, "timeout"⟩)
      ((before.put before.kube).put (before.kube.answer (.deletePVC doomedData)).2) :=
    ⟨.inr ⟨.inl ⟨_, rfl⟩, rfl⟩, fun e he hreason => by cases he; cases hreason⟩
  have hrun : Operated (Considerate "shop" "default") (Contended.restrict Abreast) "shop" "default"
      before ((before.put before.kube).put (before.kube.answer (.deletePVC doomedData)).2) :=
    .pass (.refl _) (.head (.call hread) (.head (.call hlist) (.single (.call hlost))))
  have hpvcs : ((before.put before.kube).put
      (before.kube.answer (.deletePVC doomedData)).2).kube.pvcs = [uploads] := by
    decide +kernel
  have hdying : Dying "shop" "default" { cluster := some doomed, pvcs := [doomedData, uploads] } :=
    ⟨doomed, rfl, rfl, rfl, rfl, List.mem_singleton.2 rfl⟩
  obtain ⟨r, t', hexec, hreclaimed⟩ := (deletion_carried_through hdying hrun).2
    (⟨.empty, _, 0⟩ : World) (World.kubeBacked fun _ => asWritten) rfl
  refine ⟨_, hrun, hpvcs, r, t', hexec, ?_, hreclaimed.gone doomed ?_ ?_ ?_⟩
  · rw [hreclaimed.pvcs, hpvcs]
    decide +kernel
  · decide +kernel
  · exact List.mem_singleton.2 rfl
  · exact fun f hf => List.mem_singleton.1 hf

end Valkeyop.Controller
