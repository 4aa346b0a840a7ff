import Valkeyop.Controller.FakeWorld
import Valkeyop.Proofs.Workloads

/-!
# Whose volumes are deleted

Both ways to delete volume claims go by labels: the claims of a shard are selected by
the labels of the cluster and of the shard, those of a whole cluster by the label of the
cluster alone, which is a common one. Every claim that is selected is deleted, and
nothing else is looked at. The finalizer goes only when all selected claims are gone,
and the cluster's own claims are among them.
-/

namespace Valkeyop.Controller

open Valkeyop.Lib Valkeyop.Lib.Fallible Valkeyop.Cluster Valkeyop.Api Valkeyop.Resources

/-- The claim is the data volume of a pod of one of the shards. -/
def OwnClaim (cr : ValkeyCluster) (pvc : PVC) : Prop :=
  pvc.nspace = cr.nspace ∧ ∃ i j, pvc.name = "data-" ++ podName cr i j

/-- A call that neither makes nor deletes claims. -/
def LeavesClaims : Call → Prop
  | .kube (.applyStatefulSet _) | .kube (.deletePVC _) => False
  | _ => True

/-- The claims of a server whose calls may fail. One that is deleted is gone, and one that
cannot be found is not there. -/
structure Volumes {S : Type} (h : Handler Call Call.Reply S) (claims : S → List PVC) : Prop where
  list : ∀ nspace selector s found, (h (.kube (.listPVCs nspace selector)) s).1 = .ok found →
    found = (claims s).filter fun p => p.nspace == nspace && Labels.matching selector p.labels
  delete : ∀ pvc s, claims (h (.kube (.deletePVC pvc)) s).2 ⊆ claims s
  gone : ∀ pvc s, (∀ e, (h (.kube (.deletePVC pvc)) s).1 = .error e → e.reason = .notFound) →
    pvc ∉ claims (h (.kube (.deletePVC pvc)) s).2
  leaves : ∀ c s, LeavesClaims c → claims (h c s).2 = claims s

section

variable {S : Type} {h : Handler Call Call.Reply S} {claims : S → List PVC} {cr : ValkeyCluster}

/-! ## Deleting what is selected -/

theorem runs_deleteClaim (hv : Volumes h claims) (pvc : PVC) (s : S) :
    Prog.Runs h (fun c _ => c = .kube (.deletePVC pvc))
      (Post (fun _ s' => ∀ q ∈ claims s', q ∈ claims s ∧ q ≠ pvc) fun _ _ => True)
      (ignoreNotFound (Kube.deletePVC pvc)).run s := by
  have hdone : (∀ e, (h (.kube (.deletePVC pvc)) s).1 = .error e → e.reason = .notFound) →
      ∀ q ∈ claims (h (.kube (.deletePVC pvc)) s).2, q ∈ claims s ∧ q ≠ pvc := by
    intro hok q hq
    exact ⟨hv.delete pvc s hq, fun heq => hv.gone pvc s hok (heq ▸ hq)⟩
  refine Prog.runs_bind.2 ((Prog.runs_op (c := Call.kube (.deletePVC pvc))).2 ⟨rfl, ?_⟩)
  cases hreply : (h (.kube (.deletePVC pvc)) s).1 with
  | ok u =>
      refine Prog.runs_pure.2 (hdone fun e he => ?_)
      cases hreply.symm.trans he
  | error e =>
      simp only []
      split
      · next hreason =>
          refine Prog.runs_pure.2 (hdone fun e' he' => ?_)
          cases hreply.symm.trans he'
          exact hreason
      · exact Prog.runs_pure.2 trivial

theorem runs_deleteClaims (hv : Volumes h claims) (l : List PVC) (s : S) :
    Prog.Runs h (fun c _ => ∃ pvc ∈ l, c = .kube (.deletePVC pvc))
      (Post (fun _ s' => ∀ q ∈ claims s', q ∈ claims s ∧ q ∉ l) fun _ _ => True)
      (l.forM fun pvc => ignoreNotFound (Kube.deletePVC pvc)).run s := by
  induction l generalizing s with
  | nil => exact Prog.runs_pure.2 fun q hq => ⟨hq, List.not_mem_nil⟩
  | cons pvc l ih =>
      change Prog.Runs h _ _ (ignoreNotFound (Kube.deletePVC pvc) >>= fun _ => l.forM _).run s
      rw [Fallible.runs_bind]
      refine ((runs_deleteClaim hv pvc s).guard_mono fun c _ hc =>
        ⟨pvc, List.mem_cons_self, hc⟩).mono ?_
      intro r s₁ hr
      cases r with
      | error e => trivial
      | ok u =>
          refine ((ih s₁).guard_mono fun c _ hc => ?_).mono ?_
          · obtain ⟨q, hq, hc⟩ := hc
            exact ⟨q, List.mem_cons_of_mem _ hq, hc⟩
          · intro r s₂ hr₂
            cases r with
            | error e => trivial
            | ok u =>
                intro q hq
                obtain ⟨hq₁, hnot⟩ := hr₂ q hq
                obtain ⟨hold, hne⟩ := hr q hq₁
                exact ⟨hold, fun hmem => (List.mem_cons.1 hmem).elim hne hnot⟩

/-- The claims with these labels. -/
def selectedClaims (cr : ValkeyCluster) (selector : Labels) (claims : List PVC) : List PVC :=
  claims.filter fun p => p.nspace == cr.nspace && Labels.matching selector p.labels

theorem runs_deletePVCs (hv : Volumes h claims) (selector : Labels) (s : S) :
    Prog.Runs h (fun c _ => c = .kube (.listPVCs cr.nspace selector) ∨
        ∃ pvc ∈ selectedClaims cr selector (claims s), c = .kube (.deletePVC pvc))
      (Post (fun _ s' => ∀ q ∈ claims s', q ∈ claims s ∧
        q ∉ selectedClaims cr selector (claims s)) fun _ _ => True)
      (deletePVCs cr selector).run s := by
  unfold deletePVCs
  rw [Fallible.runs_bind]
  refine (Prog.runs_op (c := Call.kube (.listPVCs cr.nspace selector))).2 ⟨Or.inl rfl, ?_⟩
  cases hreply : (h (.kube (.listPVCs cr.nspace selector)) s).1 with
  | error e => trivial
  | ok found =>
      have hfound := hv.list cr.nspace selector s found hreply
      have hsame := hv.leaves (.kube (.listPVCs cr.nspace selector)) s trivial
      subst hfound
      refine ((runs_deleteClaims hv _ _).guard_mono fun _ _ => Or.inr).mono ?_
      intro r s' hr
      cases r with
      | error e => trivial
      | ok u =>
          intro q hq
          obtain ⟨hold, hnot⟩ := hr q hq
          exact ⟨hsame ▸ hold, hnot⟩

theorem runs_deleteShard (hv : Volumes h claims) (i : Nat) (s : S) :
    Prog.Runs h (fun c _ => ∀ pvc, c = .kube (.deletePVC pvc) → pvc ∈ selectedClaims cr
        [(labelShard, toString i), (labelInstance, cr.name)] (claims s))
      (fun _ _ => True) (deleteShard cr i).run s := by
  rw [deleteShard, Fallible.runs_bind]
  refine Prog.runs_bind.2 ((Prog.runs_op (c := Call.kube (.deleteStatefulSet ..))).2 ⟨?_, ?_⟩)
  · intro pvc hc
    cases hc
  have hsame := hv.leaves (.kube (.deleteStatefulSet (statefulSetName cr i) cr.nspace)) s trivial
  have hrest : Prog.Runs h (fun c _ => ∀ pvc, c = .kube (.deletePVC pvc) → pvc ∈ selectedClaims cr
      [(labelShard, toString i), (labelInstance, cr.name)] (claims s)) (fun _ _ => True)
      (deleteShardPVCs cr i).run
      (h (.kube (.deleteStatefulSet (statefulSetName cr i) cr.nspace)) s).2 := by
    rw [← hsame]
    refine ((runs_deletePVCs hv _ _).guard_mono fun c _ hc pvc hpvc => ?_).mono
      fun _ _ _ => trivial
    subst hpvc
    rcases hc with hc | ⟨q, hq, hc⟩
    · cases hc
    · cases hc
      exact hq
  cases (h (.kube (.deleteStatefulSet (statefulSetName cr i) cr.nspace)) s).1 with
  | ok u => exact Prog.runs_pure.2 hrest
  | error e =>
      simp only []
      split
      · exact Prog.runs_pure.2 hrest
      · exact Prog.runs_pure.2 trivial

/-- The finalizer goes when all that is selected is gone. -/
theorem runs_reconcileDelete (cr : ValkeyCluster) (hv : Volumes h claims) (s : S) :
    Prog.Runs h (fun c t =>
        (∀ pvc, c = .kube (.deletePVC pvc) → finalizer ∈ cr.finalizers ∧
          pvc ∈ selectedClaims cr (instanceSelector cr) (claims s)) ∧
        ∀ new, c = .kube (.updateCluster new) → ∀ q ∈ claims t, q ∈ claims s ∧
          q ∉ selectedClaims cr (instanceSelector cr) (claims s))
      (fun _ _ => True) (reconcileDelete cr).run s := by
  unfold reconcileDelete
  split
  · next hfin =>
      rw [Fallible.runs_bind]
      refine ((runs_deletePVCs hv (instanceSelector cr) s).guard_mono fun c _ hc => ?_).mono ?_
      · rcases hc with rfl | ⟨q, hq, rfl⟩
        · constructor
          · intro pvc hc
            cases hc
          · intro new hc
            cases hc
        · constructor
          · intro pvc hc
            cases hc
            exact ⟨hfin, hq⟩
          · intro new hc
            cases hc
      · intro r s' hgone
        cases r with
        | error e => trivial
        | ok u =>
            show Prog.Runs h _ _ _ _
            rw [Fallible.runs_bind]
            refine (Prog.runs_op (c := Call.kube (.updateCluster _))).2 ⟨?_, ?_⟩
            · constructor
              · intro pvc hc
                cases hc
              · intro new _
                exact hgone
            · cases (h (.kube (.updateCluster _)) s').1 with
              | error e => trivial
              | ok new => exact Fallible.runs_pure.2 trivial
  · exact Fallible.runs_pure.2 trivial

end

/-! ## The fake's server

Nothing fails there, so everything that is selected is deleted. -/

section

variable {order : RangeOrders} {cr : ValkeyCluster} {pvc : PVC}

theorem volumes_world (order : RangeOrders) :
    Volumes (World.answer order) fun w => w.kube.pvcs where
  list nspace selector w found hreply := by
    cases hreply
    rfl
  delete pvc w := by
    simp only [World.answer, ApiServer.answer]
    split
    · exact List.filter_subset_self _
    · exact List.Subset.refl _
  gone pvc w hreply := by
    simp only [World.answer, ApiServer.answer] at hreply ⊢
    split
    · simp
    · next habsent => simpa using habsent
  leaves c w hc := by
    cases c with
    | admin c => rfl
    | rangeOver m => rfl
    | kube c =>
        cases c with
        | applyStatefulSet sts => exact hc.elim
        | deletePVC pvc => exact hc.elim
        | updateCluster new =>
            simp only [World.answer, ApiServer.answer, ApiServer.update]
            repeat' split
            all_goals rfl
        | updateClusterStatus new =>
            simp only [World.answer, ApiServer.answer, ApiServer.updateStatus]
            repeat' split
            all_goals rfl
        | deleteStatefulSet name nspace =>
            simp only [World.answer, ApiServer.answer]
            split
            all_goals rfl
        | _ => rfl

theorem exec_deleteClaim (order : RangeOrders) (pvc : PVC) (w : World) :
    ∃ w', exec (World.answer order) (ignoreNotFound (Kube.deletePVC pvc)) w = (.ok (), w') := by
  have hdone : Succeeds (World.answer order) (fun _ _ => True) (fun _ _ => True)
      (ignoreNotFound (Kube.deletePVC pvc)) w := by
    refine succeeds_ignoreNotFound ((Prog.runs_op (c := Call.kube (.deletePVC pvc))).2
      ⟨trivial, ?_⟩)
    simp only [World.answer, ApiServer.answer]
    split
    · trivial
    · exact ⟨rfl, trivial⟩
  obtain ⟨_, w', hexec, -⟩ := hdone.exec
  exact ⟨w', hexec⟩

theorem mem_calls_deleteClaims {l : List PVC} (hl : pvc ∈ l) (w : World) :
    ∃ t, (Call.kube (.deletePVC pvc), t) ∈ calls (World.answer order)
      (l.forM fun pvc => ignoreNotFound (Kube.deletePVC pvc)) w := by
  induction l generalizing w with
  | nil => cases hl
  | cons q l ih =>
      rcases List.mem_cons.1 hl with rfl | hl
      · exact ⟨w, mem_calls_bind (List.mem_append_left _ (List.mem_singleton_self _))⟩
      · obtain ⟨w', hexec⟩ := exec_deleteClaim order q w
        obtain ⟨t, ht⟩ := ih hl w'
        exact ⟨t, mem_calls_bind_ok hexec ht⟩

theorem mem_calls_deletePVCs (w : World) {selector : Labels}
    (hpvc : pvc ∈ selectedClaims cr selector w.kube.pvcs) :
    ∃ t, (Call.kube (.deletePVC pvc), t) ∈
      calls (World.answer order) (deletePVCs cr selector) w := by
  have hlist : exec (World.answer order) (Kube.listPVCs cr.nspace selector) w =
      (.ok (selectedClaims cr selector w.kube.pvcs), w) := rfl
  obtain ⟨t, ht⟩ := mem_calls_deleteClaims hpvc w
  exact ⟨t, mem_calls_bind_ok hlist ht⟩

theorem mem_selectedClaims {selector : Labels} {claims : List PVC} :
    pvc ∈ selectedClaims cr selector claims ↔
      pvc ∈ claims ∧ pvc.nspace = cr.nspace ∧ Labels.matching selector pvc.labels = true := by
  rw [selectedClaims, List.mem_filter, Bool.and_eq_true, beq_iff_eq]

theorem matching_instance {labels : Labels} :
    Labels.matching (instanceSelector cr) labels = true ↔
      labels.lookup labelInstance = some cr.name := by
  simp [Labels.matching, instanceSelector]

theorem matching_shard {i : Nat} {labels : Labels} :
    Labels.matching [(labelShard, toString i), (labelInstance, cr.name)] labels = true ↔
      labels.lookup labelShard = some (toString i) ∧
        labels.lookup labelInstance = some cr.name := by
  simp [Labels.matching]

theorem instance_of_shardLabels {i : Nat} {labels : Labels}
    (h : Labels.matching (shardLabels cr i) labels = true) :
    labels.lookup labelInstance = some cr.name := by
  have hall := List.all_eq_true.1 h (labelInstance, cr.name) (by simp [shardLabels, commonLabels])
  exact beq_iff_eq.1 hall

/-- Only volumes of the cluster are deleted, and the finalizer goes last, exactly when no
other claim of the namespace has the label of the cluster, and that of a shard if there is
no finalizer. -/
theorem teardown_own_iff (cr : ValkeyCluster) (pvcs : List PVC)
    (hlabels : ∀ pvc ∈ pvcs, ∀ i j, pvc.name = "data-" ++ podName cr i j →
      pvc.nspace = cr.nspace → Labels.matching (shardLabels cr i) pvc.labels = true) :
    (∀ (S : Type) (h : Handler Call Call.Reply S) (claims : S → List PVC) (s : S),
      Volumes h claims → claims s = pvcs →
      (∀ pvc t, (Call.kube (.deletePVC pvc), t) ∈ calls h (reconcileDelete cr) s →
        OwnClaim cr pvc) ∧
      (∀ i pvc t, (Call.kube (.deletePVC pvc), t) ∈ calls h (deleteShard cr i) s →
        OwnClaim cr pvc) ∧
      ∀ new t, (Call.kube (.updateCluster new), t) ∈ calls h (reconcileDelete cr) s →
        ∀ pvc ∈ claims t, ¬ OwnClaim cr pvc) ↔
    ∀ pvc ∈ pvcs, pvc.nspace = cr.nspace → pvc.labels.lookup labelInstance = some cr.name →
      (finalizer ∈ cr.finalizers ∨ ∃ i : Nat, pvc.labels.lookup labelShard = some (toString i)) →
      OwnClaim cr pvc := by
  constructor
  · intro hown pvc hpvc hns hinstance hselected
    let w : World := ⟨.empty, { cluster := some cr, pvcs }, 0⟩
    obtain ⟨hdelete, hshard, -⟩ := hown World (World.answer fun _ => asWritten)
      (fun w => w.kube.pvcs) w (volumes_world _) rfl
    rcases hselected with hfin | ⟨i, hi⟩
    · obtain ⟨t, ht⟩ := mem_calls_deletePVCs w
        (mem_selectedClaims.2 ⟨hpvc, hns, matching_instance.2 hinstance⟩)
      refine hdelete pvc t ?_
      rw [reconcileDelete, if_pos hfin]
      exact mem_calls_bind ht
    · obtain ⟨t, ht⟩ := mem_calls_deletePVCs w
        (mem_selectedClaims.2 ⟨hpvc, hns, matching_shard.2 ⟨hi, hinstance⟩⟩)
      have hset : exec (World.answer fun _ => asWritten)
          (ignoreNotFound (Kube.deleteStatefulSet (statefulSetName cr i) cr.nspace)) w =
          (.ok (), w) := rfl
      exact hshard i pvc t (mem_calls_bind_ok hset ht)
  · intro hcond S h claims s hv hs
    subst hs
    have hruns := (Prog.runs_iff.1 (runs_reconcileDelete cr hv s)).2
    refine ⟨fun pvc t ht => ?_, fun i pvc t ht => ?_, fun new t ht pvc hpvc hown => ?_⟩
    · obtain ⟨hfin, hmem⟩ := (hruns _ ht).1 pvc rfl
      obtain ⟨hpvc, hns, hmatch⟩ := mem_selectedClaims.1 hmem
      exact hcond pvc hpvc hns (matching_instance.1 hmatch) (Or.inl hfin)
    · have hmem := (Prog.runs_iff.1 (runs_deleteShard hv i s)).2 _ ht pvc rfl
      obtain ⟨hpvc, hns, hmatch⟩ := mem_selectedClaims.1 hmem
      obtain ⟨hshard, hinstance⟩ := matching_shard.1 hmatch
      exact hcond pvc hpvc hns hinstance (Or.inr ⟨i, hshard⟩)
    · obtain ⟨hold, hnot⟩ := (hruns _ ht).2 new rfl pvc hpvc
      obtain ⟨hns, i, j, hname⟩ := hown
      refine hnot (mem_selectedClaims.2 ⟨hold, hns, matching_instance.2 ?_⟩)
      exact instance_of_shardLabels (hlabels pvc hold i j hname hns)

end

theorem dataName_inj {cr : ValkeyCluster} {i j i' j' : Nat}
    (h : "data-" ++ podName cr i j = "data-" ++ podName cr i' j') : i = i' ∧ j = j' := by
  have hpod : podName cr i j = podName cr i' j' := by
    have hlist := congrArg String.toList h
    rw [String.toList_append, String.toList_append] at hlist
    exact String.toList_inj.1 (List.append_cancel_left hlist)
  exact podFQDN_inj (by rw [podFQDN, podFQDN, hpod])

/-- A cluster that is being deleted. -/
def doomed : ValkeyCluster where
  name := "shop"
  nspace := "default"
  spec := { shards := 1, replicasPerShard := 0 }
  finalizers := [finalizer]
  deletionTimestamp := some 0

/-- The claim of its only pod. -/
def doomedData : PVC := ⟨"data-shop-shard-0-0", "default", shardLabels doomed 0⟩

/-- A claim of another workload of the same release. -/
def uploads : PVC := ⟨"uploads", "default", [(labelInstance, "shop")]⟩

theorem name_doomedData : doomedData.name = "data-" ++ podName doomed 0 0 := by
  decide +kernel

/-- Claims of another release, and of another namespace. -/
def strangers : List PVC :=
  [⟨"cache", "default", [(labelInstance, "mail")]⟩,
    ⟨"uploads", "staging", [(labelInstance, "shop")]⟩]

/-- The names of the volumes of the cluster have a common beginning. -/
theorem ne_dataName {name : String} (hname : name.toList.head? ≠ some 'd') (cr : ValkeyCluster)
    (i j : Nat) : name ≠ "data-" ++ podName cr i j := by
  rintro rfl
  simp at hname

theorem not_ownClaim_uploads : ¬ OwnClaim doomed uploads := fun hown => by
  obtain ⟨-, i, j, hname⟩ := hown
  exact ne_dataName (by decide +kernel) doomed i j hname

/-- The claim of the cluster goes, those of the others are left when the finalizer is taken off. -/
theorem teardown_own_doomed :
    let w : World := ⟨.empty, { cluster := some doomed, pvcs := doomedData :: strangers }, 0⟩
    OwnClaim doomed doomedData ∧
    (∀ pvc t, (Call.kube (.deletePVC pvc), t) ∈ calls (World.answer fun _ => asWritten)
        (reconcileDelete doomed) w → OwnClaim doomed pvc) ∧
    ∃ new t, (Call.kube (.updateCluster new), t) ∈ calls (World.answer fun _ => asWritten)
        (reconcileDelete doomed) w ∧ finalizer ∉ new.finalizers ∧ t.kube.pvcs = strangers ∧
      ∀ pvc ∈ t.kube.pvcs, ¬ OwnClaim doomed pvc := by
  intro w
  have hown : OwnClaim doomed doomedData := ⟨rfl, 0, 0, name_doomedData⟩
  have hforeign : ∀ pvc ∈ strangers, pvc.name.toList.head? ≠ some 'd' := by decide +kernel
  have hlabels : ∀ pvc ∈ doomedData :: strangers, ∀ i j,
      pvc.name = "data-" ++ podName doomed i j → pvc.nspace = doomed.nspace →
      Labels.matching (shardLabels doomed i) pvc.labels = true := by
    intro pvc hpvc i j hname _
    rcases List.mem_cons.1 hpvc with rfl | hpvc
    · have hdata : "data-" ++ podName doomed 0 0 = "data-" ++ podName doomed i j :=
        name_doomedData.symm.trans hname
      obtain ⟨rfl, -⟩ := dataName_inj hdata
      decide +kernel
    · exact absurd hname (ne_dataName (hforeign pvc hpvc) doomed i j)
  have hothers : ∀ pvc ∈ strangers, pvc.nspace = doomed.nspace →
      pvc.labels.lookup labelInstance ≠ some doomed.name := by decide +kernel
  obtain ⟨hdelete, -, hfinal⟩ := (teardown_own_iff doomed (doomedData :: strangers) hlabels).2
    (fun pvc hpvc hns hinstance _ => by
      rcases List.mem_cons.1 hpvc with rfl | hpvc
      · exact hown
      · exact absurd hinstance (hothers pvc hpvc hns)) World _ _ w (volumes_world _) rfl
  have hupdate : (calls (World.answer fun _ => asWritten) (reconcileDelete doomed) w)[2]? =
      some (Call.kube (.updateCluster { doomed with finalizers := [] }), _) := rfl
  exact ⟨hown, hdelete, _, _, List.mem_of_getElem? hupdate, List.not_mem_nil, rfl,
    hfinal _ _ (List.mem_of_getElem? hupdate)⟩

/-- The claim of another workload is deleted with the cluster. -/
theorem uploads_deleted :
    (∃ t, (Call.kube (.deletePVC uploads), t) ∈ calls (World.answer fun _ => asWritten)
      (reconcileDelete doomed)
      ⟨.empty, { cluster := some doomed, pvcs := [doomedData, uploads] }, 0⟩) ∧
    ¬ OwnClaim doomed uploads := by
  refine ⟨?_, not_ownClaim_uploads⟩
  let w : World := ⟨.empty, { cluster := some doomed, pvcs := [doomedData, uploads] }, 0⟩
  have hmem : uploads ∈ selectedClaims doomed (instanceSelector doomed) w.kube.pvcs := by
    decide +kernel
  obtain ⟨t, ht⟩ := mem_calls_deletePVCs w hmem
  exact ⟨t, mem_calls_bind ht⟩

end Valkeyop.Controller
