import Valkeyop.Proofs.Publishing
import Valkeyop.Proofs.ScaleInSafety

/-!
# The calls of a pass

Most of a pass is routine: it looks at the cluster and at the workloads, introduces
nodes to each other, attaches replicas, forgets who has gone, and publishes a status.
None of that moves a slot, touches a StatefulSet or a claim, or writes the spec. What
is not routine is short: the slots are dealt out, filled in or drained, StatefulSets
are applied or deleted with their claims, and the finalizer is stored.
-/

namespace Valkeyop.Controller

open Valkeyop.Lib Valkeyop.Lib.Fallible Valkeyop.Cluster Valkeyop.Api Valkeyop.Resources

def Routine : Call → Prop
  | .admin (.state _) | .admin (.myID _) | .admin (.meet ..) | .admin (.replicate ..)
  | .admin (.forget ..) | .admin (.repairSlots _) => True
  | .kube (.getCluster ..) | .kube (.updateClusterStatus _) | .kube (.applyConfigMap _)
  | .kube (.applyService _) | .kube (.getStatefulSet ..) | .kube (.listStatefulSets ..)
  | .kube (.listPVCs ..) | .kube .now => True
  | .rangeOver _ => True
  | _ => False

theorem Publishes.routine {c : Call} (hc : Publishes c) : Routine c :=
  hc.of_calls (fun _ _ => trivial) (fun _ => trivial) trivial

section

variable {cr : ValkeyCluster}

theorem only_ignoreNotFound {P : Call → Prop} {p : Act Unit} (hp : Prog.Only P p.run) :
    Prog.Only P (ignoreNotFound p).run := by
  refine Prog.Only.bind hp fun r => ?_
  cases r with
  | ok a => exact Prog.only_pure _
  | error e =>
      simp only []
      split
      · exact Prog.only_pure _
      · exact Prog.only_pure _

theorem routine_announce (phase : ValkeyClusterPhase) (reason msg : String) :
    (announce cr phase reason msg).Only Routine :=
  (only_announce cr phase reason msg).mono fun _ => Publishes.routine

theorem routine_updateStatus (state : ClusterState) :
    Prog.Only Routine (updateStatus cr state).run :=
  (only_updateStatus cr state).mono fun _ => Publishes.routine

theorem routine_choosePlan (observed : Topology.Observed) :
    Prog.Only Routine (choosePlan cr observed).run :=
  only_choosePlan trivial observed

theorem routine_findShardPrimary (idx : NodeMap) (shard : Nat) :
    (findShardPrimary cr shard idx).Only Routine :=
  only_findShardPrimary (fun _ => trivial) shard

theorem only_attachReplicas {P : Call → Prop} (hid : ∀ ep, P (.admin (.myID ep)))
    (hreplicate : ∀ ep id, P (.admin (.replicate ep id))) (state : ClusterState) :
    Prog.Only P (attachReplicas cr state).run := by
  refine only_forM fun i _ => only_bind (only_lift (only_findShardPrimary hid i)) fun found => ?_
  obtain ⟨id, ord⟩ := found
  simp only []
  split
  · exact Prog.only_pure _
  refine only_forM fun j _ => ?_
  unfold attachReplica
  split
  · exact Prog.only_pure _
  refine only_bind (only_lift (Prog.only_op.2 (hid _))) fun r => ?_
  cases r with
  | error e => exact Prog.only_pure _
  | ok id =>
      simp only []
      split
      · exact Prog.only_pure _
      · exact only_wrap _ (Prog.only_op.2 (hreplicate ..))

theorem routine_attachReplicas (state : ClusterState) :
    Prog.Only Routine (attachReplicas cr state).run :=
  only_attachReplicas (fun _ => trivial) (fun _ _ => trivial) state

theorem routine_reconcileMembership (state : ClusterState) :
    Prog.Only Routine (reconcileMembership cr state).run := by
  refine only_bind (only_forM fun ep _ => ?_) fun _ =>
    only_bind (routine_attachReplicas state) fun _ =>
      only_lift (only_forgetStaleNodes (fun _ _ => trivial) trivial state)
  split
  · exact Prog.only_pure _
  · exact Prog.only_op.2 trivial

theorem routine_sweep : Prog.Only Routine (sweep cr).run :=
  only_sweep (fun _ => trivial) (fun _ _ => trivial) trivial

theorem routine_forgetShard (shard : Nat) : (forgetShard cr shard).Only Routine :=
  only_forgetShard (fun _ => trivial) (fun _ _ => trivial) shard

theorem only_joinShard {P : Call → Prop} (hmeet : ∀ a b, P (.admin (.meet a b))) (shard : Nat) :
    Prog.Only P (joinShard cr shard).run :=
  only_forM fun _ _ => Prog.only_op.2 (hmeet ..)

theorem routine_joinShard (shard : Nat) : Prog.Only Routine (joinShard cr shard).run :=
  only_joinShard (fun _ _ => trivial) shard

theorem only_newPrimaryID {P : Call → Prop} (hid : ∀ ep, P (.admin (.myID ep))) (shard : Nat) :
    Prog.Only P (newPrimaryID cr shard).run := by
  refine only_bind (only_wrap _ (Prog.only_op.2 (hid _))) fun id => ?_
  split
  · exact Prog.only_pure _
  · exact Prog.only_pure _

theorem routine_newPrimaryID (shard : Nat) : Prog.Only Routine (newPrimaryID cr shard).run :=
  only_newPrimaryID (fun _ => trivial) shard

theorem only_fattestPrimary {P : Call → Prop} (hrange : ∀ m, P (.rangeOver m)) (idx : NodeMap)
    (excludeID : String) : (fattestPrimary idx excludeID).Only P :=
  Prog.Only.bind (Prog.only_op.2 (hrange _)) fun _ => Prog.only_pure _

theorem routine_fattestPrimary (idx : NodeMap) (excludeID : String) :
    (fattestPrimary idx excludeID).Only Routine :=
  only_fattestPrimary (fun _ => trivial) idx excludeID

theorem routine_shardsReady : Prog.Only Routine (shardsReady cr).run := by
  have hfrom : ∀ shards, Prog.Only Routine (shardsReadyFrom cr shards).run := by
    intro shards
    induction shards with
    | nil => exact Prog.only_pure _
    | cons i shards ih =>
        refine only_bind (only_lift (Prog.only_op.2 trivial)) fun r => ?_
        cases r with
        | error e =>
            simp only []
            split
            · exact Prog.only_pure _
            · exact Prog.only_pure _
        | ok sts =>
            simp only []
            split
            · exact Prog.only_pure _
            · exact ih
  exact hfrom _

/-- Forming talks to the cluster and to nobody else. -/
theorem only_formCluster {P : Call → Prop} (hmeet : ∀ a b, P (.admin (.meet a b)))
    (hdeal : ∀ i r, P (.admin (.addSlots (endpoint cr i 0) r)))
    (hstate : ∀ ep, P (.admin (.state ep))) (hid : ∀ ep, P (.admin (.myID ep)))
    (hreplicate : ∀ ep id, P (.admin (.replicate ep id))) :
    Prog.Only P (formCluster cr).run := by
  refine only_bind (only_forM fun ep _ => ?_) fun _ => only_bind (only_forM fun x _ => ?_)
    fun _ => only_bind (Prog.only_op.2 (hstate _)) fun state =>
      only_attachReplicas hid hreplicate state
  · split
    · exact Prog.only_pure _
    · exact only_wrap _ (Prog.only_op.2 (hmeet ..))
  · exact only_wrap _ (Prog.only_op.2 (hdeal ..))

theorem only_fillShard {P : Call → Prop} (hrange : ∀ m, P (.rangeOver m))
    (hmove : ∀ ep a b n, P (.admin (.moveSlots ep a b n))) (hstate : ∀ ep, P (.admin (.state ep)))
    (ep : Endpoint) (shard : Nat) (id : String) :
    ∀ fuel need idx, Prog.Only P (fillShard ep shard id fuel need idx).run := by
  intro fuel
  induction fuel with
  | zero => intro need idx; exact Prog.only_pure _
  | succ fuel ih =>
      intro need idx
      unfold fillShard
      split
      · exact Prog.only_pure _
      refine only_bind (only_lift (only_fattestPrimary hrange idx id)) fun src => ?_
      obtain ⟨srcID, srcSlots⟩ := src
      simp only []
      split
      · exact Prog.only_pure _
      refine only_bind (only_lift (Prog.only_op.2 (hmove ..))) fun reply => ?_
      obtain ⟨moved, e⟩ := reply
      cases e with
      | some e => exact Prog.only_pure _
      | none =>
          simp only []
          split
          · exact Prog.only_pure _
          · exact only_bind (Prog.only_op.2 (hstate _)) fun st => ih _ _

/-- The calls of scaling out. -/
def Widens : Call → Prop
  | .admin (.state _) | .admin (.myID _) | .admin (.meet ..) | .admin (.replicate ..)
  | .admin (.moveSlots ..) | .rangeOver _ => True
  | _ => False

/-- Scaling out talks to the cluster and to nobody else. -/
theorem widens_scaleOut (oldShards : Nat) : Prog.Only Widens (scaleOut cr oldShards).run := by
  have hstate : ∀ ep, Prog.Only Widens (Admin.state ep).run := fun ep => Prog.only_op.2 trivial
  have hattach : ∀ state, Prog.Only Widens (attachReplicas cr state).run :=
    only_attachReplicas (fun _ => trivial) fun _ _ => trivial
  have hfill : ∀ i, Prog.Only Widens (fillNewShard cr i).run := fun i =>
    only_bind (only_newPrimaryID (fun _ => trivial) i) fun id =>
      only_bind (hstate _) fun st =>
        only_fillShard (fun _ => trivial) (fun _ _ _ _ => trivial) (fun _ => trivial) ..
  exact only_bind (only_forM fun i _ => only_joinShard (fun _ _ => trivial) i) fun _ =>
    only_bind (hstate _) fun st => only_bind (hattach st) fun _ =>
      only_bind (only_forM fun i _ => hfill i) fun _ =>
        only_bind (hstate _) fun st => hattach st

/-- It is routine but for the moves. -/
theorem only_scaleOut {P : Call → Prop} (hP : ∀ c, Routine c → P c)
    (hmove : ∀ ep a b n, P (.admin (.moveSlots ep a b n))) (oldShards : Nat) :
    Prog.Only P (scaleOut cr oldShards).run := by
  refine (widens_scaleOut oldShards).mono fun c hc => ?_
  unfold Widens at hc
  split at hc
  · exact hP _ trivial
  · exact hP _ trivial
  · exact hP _ trivial
  · exact hP _ trivial
  · exact hmove ..
  · exact hP _ trivial
  · exact hc.elim

/-- Deleting a shard is two deletions and a listing. -/
theorem only_deleteShard {P : Call → Prop} (hP : ∀ c, Routine c → P c)
    (hset : ∀ name nspace, P (.kube (.deleteStatefulSet name nspace)))
    (hclaim : ∀ pvc, P (.kube (.deletePVC pvc))) (shard : Nat) :
    Prog.Only P (deleteShard cr shard).run :=
  only_bind (only_ignoreNotFound (Prog.only_op.2 (hset ..))) fun _ =>
    only_bind (Prog.only_op.2 (hP _ trivial)) fun _ =>
      only_forM fun _ _ => only_ignoreNotFound (Prog.only_op.2 (hclaim _))

/-- Removing shards is routine but for the drain and the deletions. -/
theorem only_removeShards {P : Call → Prop} (hP : ∀ c, Routine c → P c)
    (hmove : ∀ ep a b n, P (.admin (.moveSlots ep a b n)))
    (hset : ∀ name nspace, P (.kube (.deleteStatefulSet name nspace)))
    (hclaim : ∀ pvc, P (.kube (.deletePVC pvc))) (idxs : List Nat) :
    Prog.Only P (removeShards cr idxs).run := by
  induction idxs with
  | nil => exact Prog.only_pure _
  | cons i idxs ih =>
      unfold removeShards
      split
      · exact ih
      refine only_bind (Prog.only_op.2 (hP _ trivial)) fun st =>
        only_bind (only_lift ((routine_findShardPrimary _ i).mono hP)) fun found => ?_
      obtain ⟨departID, ord⟩ := found
      simp only []
      split
      · exact only_drainShard (fun _ => hP _ trivial) hmove i departID
      · exact only_bind (only_lift ((routine_forgetShard i).mono hP)) fun _ =>
          only_bind (only_deleteShard hP hset hclaim i) fun _ => ih

/-- Every call of an action is routine, or deals, moves or deletes. -/
theorem only_act {P : Call → Prop} (hP : ∀ c, Routine c → P c)
    (hdeal : ∀ i r, P (.admin (.addSlots (endpoint cr i 0) r)))
    (hmove : ∀ ep a b n, P (.admin (.moveSlots ep a b n)))
    (hset : ∀ name nspace, P (.kube (.deleteStatefulSet name nspace)))
    (hclaim : ∀ pvc, P (.kube (.deletePVC pvc))) (state : ClusterState)
    (observed : Topology.Observed) (kind : Topology.ActionKind) :
    Prog.Only P (act cr state observed kind).run := by
  have hannounce : ∀ phase reason msg, Prog.Only P
      (liftM (announce cr phase reason msg) : Act Unit).run := fun phase reason msg =>
    only_lift ((routine_announce phase reason msg).mono hP)
  have hmember : Prog.Only P (reconcileMembership cr state).run :=
    (routine_reconcileMembership state).mono hP
  cases kind with
  | form =>
      exact only_bind (hannounce ..) fun _ => only_formCluster (fun _ _ => hP _ trivial) hdeal
        (fun _ => hP _ trivial) (fun _ => hP _ trivial) (fun _ _ => hP _ trivial)
  | repair =>
      exact only_bind (hannounce ..) fun _ =>
        only_bind (only_lift (Prog.only_op.2 (hP _ trivial))) fun _ => Prog.only_pure _
  | scaleOutShards => exact only_bind (hannounce ..) fun _ => only_scaleOut hP hmove _
  | scaleInShards =>
      exact only_bind (hannounce ..) fun _ => only_bind (routine_sweep.mono hP) fun _ =>
        only_bind (only_existingShardIndexes (hP _ trivial)) fun _ =>
          only_removeShards hP hmove hset hclaim _
  | scaleReplicas => exact only_bind (hannounce ..) fun _ => hmember
  | none => exact hmember

end

/-! ## Before the cluster is looked at -/

/-- What is made sure of before the cluster is looked at. -/
def provision (cr : ValkeyCluster) : Act Bool := do
  ensureConfigMap cr
  ensureHeadlessService cr
  ensureStatefulSets cr
  shardsReady cr

theorem provision_bind {β : Type} (cr : ValkeyCluster) (k : Bool → Act β) :
    (do
      ensureConfigMap cr
      ensureHeadlessService cr
      ensureStatefulSets cr
      let ready ← shardsReady cr
      k ready) = provision cr >>= k := by
  simp only [provision, bind_assoc]

/-- What is left to do once that is done. -/
def settle (cr : ValkeyCluster) (ready : Bool) : Act Result :=
  if !ready then do
    announce cr .provisioning "Provisioning" "waiting for shard pods"
    pure { requeueAfter := requeueAfter }
  else do
    match ← (reconcileCluster cr).attempt with
    | .error _ => pure { requeueAfter := requeueAfter }
    | .ok progressing =>
        pure { requeueAfter := if progressing then reshardRequeue else requeueAfter }

theorem reconcileLive_eq (cr : ValkeyCluster) :
    reconcileLive cr = ensureFinalizer cr >>= fun cr => provision cr >>= settle cr := by
  simp only [reconcileLive, provision_bind]
  rfl

section

variable {P : Call → Prop} {cr : ValkeyCluster} (hP : ∀ c, Routine c → P c)
  (hdeal : ∀ i r, P (.admin (.addSlots (endpoint cr i 0) r)))
  (hmove : ∀ ep a b n, P (.admin (.moveSlots ep a b n)))
  (hset : ∀ name nspace, P (.kube (.deleteStatefulSet name nspace)))
  (hclaim : ∀ pvc, P (.kube (.deletePVC pvc)))

include hP hdeal hmove hset hclaim

theorem only_reconcileCluster : Prog.Only P (reconcileCluster cr).run := by
  have hobserve : ∀ context, Prog.Only P (wrap context (Admin.state (seed cr))).run :=
    fun context => only_wrap _ (Prog.only_op.2 (hP _ trivial))
  exact only_bind (hobserve _) fun _ => only_bind ((routine_choosePlan _).mono hP) fun _ =>
    only_bind (only_act hP hdeal hmove hset hclaim ..) fun _ => only_bind (hobserve _) fun _ =>
      only_bind ((routine_updateStatus _).mono hP) fun _ => Prog.only_pure _

theorem only_settle (ready : Bool) : Prog.Only P (settle cr ready).run := by
  cases ready with
  | false =>
      exact only_bind (only_lift ((routine_announce ..).mono hP)) fun _ => Prog.only_pure _
  | true =>
      refine only_bind (only_lift (only_reconcileCluster hP hdeal hmove hset hclaim)) fun r => ?_
      cases r with
      | error e => exact Prog.only_pure _
      | ok progressing => exact Prog.only_pure _

end

/-! ## Invariants of a pass

An invariant that the routine calls keep is to be checked on the four programs that do
more than that. -/

section

variable {S : Type} {h : Handler Call Call.Reply S} {G : Call → S → Prop} {I : S → Prop}
  {cr : ValkeyCluster} {s : S}

theorem keeps_removeShards
    (hroutine : ∀ {α : Type} {p : Act α} {s : S}, Prog.Only Routine p.run → I s →
      Keeps h G I p s)
    (hdrain : ∀ i idx departID s, 0 < (NodeMap.get idx departID).slotCount → I s →
      Keeps h G I (drainShard cr i idx departID) s)
    (hdelete : ∀ i s, I s → Keeps h G I (deleteShard cr i) s) (idxs : List Nat) (hs : I s) :
    Keeps h G I (removeShards cr idxs) s := by
  induction idxs generalizing s with
  | nil => exact keeps_pure hs
  | cons i idxs ih =>
      unfold removeShards
      split
      · exact ih hs
      refine (hroutine (Prog.only_op.2 trivial) hs).bind fun st s₁ hs₁ => ?_
      refine Keeps.bind (hroutine (only_lift (routine_findShardPrimary _ i)) hs₁) ?_
      intro found s₂ hs₂
      obtain ⟨departID, ord⟩ := found
      simp only []
      split
      · next hslots => exact hdrain i _ departID s₂ hslots.2 hs₂
      · refine Keeps.bind (hroutine (only_lift (routine_forgetShard i)) hs₂) ?_
        intro _ s₃ hs₃
        exact (hdelete i s₃ hs₃).bind fun _ s₄ hs₄ => ih hs₄

theorem keeps_act
    (hroutine : ∀ {α : Type} {p : Act α} {s : S}, Prog.Only Routine p.run → I s →
      Keeps h G I p s)
    (hform : ∀ s, I s → Keeps h G I (formCluster cr) s)
    (hscaleOut : ∀ oldShards s, I s → Keeps h G I (scaleOut cr oldShards) s)
    (hremove : ∀ idxs s, I s → Keeps h G I (removeShards cr idxs) s) (state : ClusterState)
    (observed : Topology.Observed) (kind : Topology.ActionKind) (hs : I s) :
    Keeps h G I (act cr state observed kind) s := by
  have hannounced : ∀ phase reason msg (next : Act Unit),
      (∀ s, I s → Keeps h G I next s) →
      Keeps h G I (liftM (announce cr phase reason msg) >>= fun _ => next) s := by
    intro phase reason msg next hnext
    exact (hroutine (only_lift (routine_announce phase reason msg)) hs).bind
      fun _ s' hs' => hnext s' hs'
  cases kind with
  | form => exact hannounced _ _ _ _ hform
  | repair =>
      refine hannounced _ _ _ _ fun s₁ hs₁ => hroutine ?_ hs₁
      exact only_bind (only_lift (Prog.only_op.2 trivial)) fun _ => Prog.only_pure _
  | scaleOutShards => exact hannounced _ _ _ _ (hscaleOut _)
  | scaleInShards =>
      refine hannounced _ _ _ _ fun s₁ hs₁ => ?_
      refine (hroutine routine_sweep hs₁).bind fun _ s₂ hs₂ => ?_
      exact (hroutine (only_existingShardIndexes trivial) hs₂).bind fun _ s₃ hs₃ =>
        hremove _ s₃ hs₃
  | scaleReplicas =>
      exact hannounced _ _ _ _ fun s₁ hs₁ => hroutine (routine_reconcileMembership _) hs₁
  | none => exact hroutine (routine_reconcileMembership _) hs

theorem keeps_reconcileCluster
    (hroutine : ∀ {α : Type} {p : Act α} {s : S}, Prog.Only Routine p.run → I s →
      Keeps h G I p s)
    (hact : ∀ state observed kind s, I s → Keeps h G I (act cr state observed kind) s)
    (hs : I s) : Keeps h G I (reconcileCluster cr) s := by
  have hobserve : ∀ context s, I s → Keeps h G I (wrap context (Admin.state (seed cr))) s :=
    fun context s hs => hroutine (only_wrap _ (Prog.only_op.2 trivial)) hs
  refine (hobserve _ _ hs).bind fun state s₁ hs₁ => ?_
  refine (hroutine (routine_choosePlan _) hs₁).bind fun plan s₂ hs₂ => ?_
  refine (hact state _ plan.kind s₂ hs₂).bind fun _ s₃ hs₃ => ?_
  refine (hobserve _ _ hs₃).bind fun state' s₄ hs₄ => ?_
  exact (hroutine (routine_updateStatus state') hs₄).bind fun _ _ => keeps_pure

end

/-! ## The resource -/

/-- No call but an update of the resource changes more of it than its status. -/
theorem cluster_answer {c : KubeCall} (hc : ∀ new, c ≠ .updateCluster new) {k : ApiServer}
    {stored : ValkeyCluster} (hstored : (k.answer c).2.cluster = some stored) :
    ∃ old, k.cluster = some old ∧ (stored = old ∨ ∃ status, stored = withStatus status old) := by
  cases c with
  | updateCluster new => exact absurd rfl (hc new)
  | updateClusterStatus new =>
      simp only [ApiServer.answer, ApiServer.updateStatus] at hstored
      split at hstored
      · exact ⟨stored, hstored, .inl rfl⟩
      · next old hold =>
          split at hstored
          · exact ⟨stored, hstored, .inl rfl⟩
          · cases hstored
            exact ⟨old, (Option.filter_eq_some_iff.1 hold).1, .inr ⟨new.status, rfl⟩⟩
  | deleteStatefulSet name nspace =>
      simp only [ApiServer.answer] at hstored
      split at hstored
      · exact ⟨stored, hstored, .inl rfl⟩
      · exact ⟨stored, hstored, .inl rfl⟩
  | deletePVC pvc =>
      simp only [ApiServer.answer] at hstored
      split at hstored
      · exact ⟨stored, hstored, .inl rfl⟩
      · exact ⟨stored, hstored, .inl rfl⟩
  | _ => exact ⟨stored, hstored, .inl rfl⟩

/-- An update stores the spec it is given, under the name it is given. -/
theorem cluster_update {new stored : ValkeyCluster} {k : ApiServer}
    (hstored : (k.update new).2.cluster = some stored) :
    k.cluster = some stored ∨
      stored.name = new.name ∧ stored.nspace = new.nspace ∧ stored.spec = new.spec := by
  unfold ApiServer.update at hstored
  split at hstored
  · exact .inl hstored
  · split at hstored
    · exact .inl hstored
    · simp only [] at hstored
      split at hstored
      · cases hstored
      · cases hstored
        exact .inr ⟨rfl, rfl, rfl⟩

/-- Nor does it revive a resource that is being deleted. -/
theorem deletion_update {new stored : ValkeyCluster} {k : ApiServer}
    (hstored : (k.update new).2.cluster = some stored) :
    ∃ old, k.cluster = some old ∧ stored.deletionTimestamp = old.deletionTimestamp := by
  unfold ApiServer.update at hstored
  split at hstored
  · exact ⟨stored, hstored, rfl⟩
  · next old hold =>
      split at hstored
      · exact ⟨stored, hstored, rfl⟩
      · simp only [] at hstored
        split at hstored
        · cases hstored
        · cases hstored
          exact ⟨old, (Option.filter_eq_some_iff.1 hold).1, rfl⟩

theorem update_reply {new stored : ValkeyCluster} {k : ApiServer}
    (hreply : (k.update new).1 = .ok stored) :
    stored.name = new.name ∧ stored.nspace = new.nspace ∧ stored.spec = new.spec := by
  unfold ApiServer.update at hreply
  split at hreply
  · cases hreply
  · split at hreply
    · cases hreply
    · cases hreply
      exact ⟨rfl, rfl, rfl⟩

end Valkeyop.Controller
