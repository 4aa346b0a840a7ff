import Valkeyop.Lib.Demonic
import Valkeyop.Controller.FakeWorld

/-!
# Who is told to replicate whom

`attachReplicas` takes for the primary of a shard the first pod that answers and is
listed with slots, and pod 0 when there is none. Each pod is asked again before it is
told to replicate, so one that did not answer the search may answer then. Whatever
fails, the pods that can be taken for the primary are pod 0 and the slot owners, and
any other pod that does not follow it already can be told to.
-/

namespace Valkeyop.Controller

open Valkeyop.Lib Valkeyop.Lib.Fallible Valkeyop.Cluster Valkeyop.Api Valkeyop.Resources

/-- A pod answers with the ID of its node, if it answers. -/
def MayReply (ids : Endpoint → String) : (c : Call) → c.Reply → Prop
  | .admin (.myID ep), r => r = .ok (ids ep) ∨ ∃ e, r = .error e
  | _, _ => True

/-- A replica is attached to a listed primary, and it owns no slots. -/
def LegalReplicate (ids : Endpoint → String) (state : ClusterState) : Call → Prop
  | .admin (.replicate ep primaryID) =>
      (∃ n, (byID state).lookup primaryID = some n ∧ n.isPrimary = true) ∧
        ∀ n, (byID state).lookup (ids ep) = some n → ¬ n.slotCount > 0
  | _ => True

/-- The pod can be taken for the primary of its shard. -/
def MayLead (cr : ValkeyCluster) (idx : NodeMap) (ids : Endpoint → String) (shard o : Nat) :
    Prop :=
  o = 0 ∨ o ≤ cr.spec.replicasPerShard ∧
    ∃ n, idx.lookup (ids (endpoint cr shard o)) = some n ∧ ownsSlots n = true

section

variable {cr : ValkeyCluster} {idx : NodeMap} {ids : Endpoint → String} {shard : Nat}
  {G : Call → Prop}

theorem exists_mayReply (ids : Endpoint → String) (c : Call) : ∃ r, MayReply ids c r := by
  have hany : ∀ c : Call, Nonempty c.Reply := fun c =>
    ⟨(World.answer (fun _ => asWritten) c ⟨.empty, { cluster := none }, 0⟩).1⟩
  cases c with
  | admin c =>
      cases c with
      | myID ep => exact ⟨.ok (ids ep), Or.inl rfl⟩
      | _ => exact ⟨Classical.choice (hany _), trivial⟩
  | kube c => exact ⟨Classical.choice (hany _), trivial⟩
  | rangeOver m => exact ⟨asWritten m, trivial⟩

instance : Nonempty Err := ⟨⟨.other, ""⟩⟩

theorem always_myID {ep : Endpoint} {Q : Except Err String → Prop} :
    Prog.Always (MayReply ids) G Q (Admin.myID ep).run ↔
      G (.admin (.myID ep)) ∧ Q (.ok (ids ep)) ∧ ∀ e, Q (.error e) := by
  refine Prog.always_op.trans (and_congr_right fun _ => ?_)
  constructor
  · intro hQ
    exact ⟨hQ _ (Or.inl rfl), fun e => hQ _ (Or.inr ⟨e, rfl⟩)⟩
  · intro hQ r hr
    rcases hr with rfl | ⟨e, rfl⟩
    · exact hQ.1
    · exact hQ.2 e

theorem always_replicate {ep : Endpoint} {primaryID context : String}
    {Q : Except Err Unit → Prop} :
    Prog.Always (MayReply ids) G Q (wrap context (Admin.replicate ep primaryID)).run ↔
      G (.admin (.replicate ep primaryID)) ∧ Q (.ok ()) ∧
        ∀ e : Err, Q (.error (e.wrap context)) := by
  refine Prog.always_bind.trans (Prog.always_op.trans (and_congr_right fun _ => ?_))
  constructor
  · intro hQ
    exact ⟨Prog.always_pure.1 (hQ (.ok ()) trivial),
      fun e => Prog.always_pure.1 (hQ (.error e) trivial)⟩
  · intro hQ r _
    cases r with
    | ok u => exact Prog.always_pure.2 hQ.1
    | error e => exact Prog.always_pure.2 (hQ.2 e)

variable (hG : ∀ ep, G (.admin (.myID ep)))

include hG

theorem always_findSlotOwner {Q : Option (String × Nat) → Prop} (js : List Nat) :
    Prog.Always (MayReply ids) G Q (findSlotOwner cr shard idx js) ↔
      Q none ∧ ∀ j ∈ js, ∀ n, idx.lookup (ids (endpoint cr shard j)) = some n →
        ownsSlots n = true → Q (some (ids (endpoint cr shard j), j)) := by
  induction js with
  | nil => simp [findSlotOwner]
  | cons j js ih =>
      rw [findSlotOwner, Prog.always_bind, always_myID, List.forall_mem_cons]
      simp only [forall_const, ih, hG, true_and]
      cases hn : idx.lookup (ids (endpoint cr shard j)) with
      | none => simp [ih]
      | some n =>
          by_cases howns : ownsSlots n = true
          · simp only [Prog.always_pure, Option.some.injEq, forall_eq', howns, if_true,
              true_implies]
            exact and_left_comm
          · simp [howns, ih]

theorem always_findShardPrimary {Q : String × Int → Prop} :
    Prog.Always (MayReply ids) G Q (findShardPrimary cr shard idx) ↔
      Q ("", -1) ∧ ∀ o, MayLead cr idx ids shard o →
        Q (ids (endpoint cr shard o), (o : Int)) := by
  rw [findShardPrimary, Prog.always_bind, always_findSlotOwner hG]
  simp only [Prog.always_bind, always_myID, Prog.always_pure, hG, forall_const, true_and]
  constructor
  · intro hQ
    obtain ⟨⟨hzero, hnone⟩, howners⟩ := hQ
    refine ⟨hnone, fun o ho => ?_⟩
    rcases ho with rfl | ⟨ho, n, hn, howns⟩
    · exact hzero
    · exact howners o (List.mem_range.2 (by omega)) n hn howns
  · intro hQ
    obtain ⟨hnone, hlead⟩ := hQ
    refine ⟨⟨hlead 0 (Or.inl rfl), hnone⟩, fun o ho n hn howns => ?_⟩
    exact hlead o (Or.inr ⟨Nat.lt_succ_iff.1 (List.mem_range.1 ho), n, hn, howns⟩)

theorem always_attachReplica {primaryID : String} {primaryOrd : Int} {j : Nat}
    {Q : Except Err Unit → Prop} :
    Prog.Always (MayReply ids) G Q (attachReplica cr idx shard primaryID primaryOrd j).run ↔
      Q (.ok ()) ∧ ((j : Int) ≠ primaryOrd →
        ((idx.lookup (ids (endpoint cr shard j))).any fun n => n.masterID == primaryID) = false →
        G (.admin (.replicate (endpoint cr shard j) primaryID)) ∧
          ∀ e : Err, Q (.error (e.wrap ("replicate " ++ (endpoint cr shard j).host)))) := by
  unfold attachReplica
  by_cases hj : (j : Int) = primaryOrd
  · rw [if_pos hj]
    exact Prog.always_pure.trans (by simp [hj])
  · rw [if_neg hj, Fallible.always_run_bind, Fallible.always_attempt, always_myID]
    simp only [hG, true_and, Except.ok.injEq, forall_eq', reduceCtorEq, false_implies,
      implies_true, and_true, forall_const]
    have hpure : Prog.Always (MayReply ids) G Q (pure () : Act Unit).run ↔ Q (.ok ()) :=
      Prog.always_pure
    cases hfollows : (idx.lookup (ids (endpoint cr shard j))).any
        fun n => n.masterID == primaryID with
    | true => simp
    | false =>
        simp only [Bool.false_eq_true, if_false, always_replicate, hpure, ne_eq, hj,
          not_false_eq_true, true_implies]
        constructor
        · intro hQ
          exact ⟨hQ.2, hQ.1.1, hQ.1.2.2⟩
        · intro hQ
          exact ⟨⟨hQ.2.1, hQ.1, hQ.2.2⟩, hQ.1⟩

theorem always_attachShardReplicas {Q : Except Err Unit → Prop} :
    Prog.Always (MayReply ids) G Q (attachShardReplicas cr idx shard).run ↔
      Q (.ok ()) ∧ ∀ o, MayLead cr idx ids shard o → ids (endpoint cr shard o) ≠ "" →
        Prog.Always (MayReply ids) G Q ((List.range (cr.spec.replicasPerShard + 1)).forM
          (attachReplica cr idx shard (ids (endpoint cr shard o)) o)).run := by
  have hpure : Prog.Always (MayReply ids) G Q (pure () : Act Unit).run ↔ Q (.ok ()) :=
    Prog.always_pure
  rw [attachShardReplicas, Fallible.always_run_bind, Fallible.always_lift,
    always_findShardPrimary hG]
  simp only [Except.ok.injEq, forall_eq', reduceCtorEq, false_implies, implies_true, and_true,
    if_true, hpure]
  refine and_congr_right fun hok => forall₂_congr fun o _ => ?_
  by_cases hid : ids (endpoint cr shard o) = ""
  · simp [hid, hok]
  · simp [hid]

/-- No shard is told anything but that: its other pods to replicate what may lead it. -/
theorem always_attachReplicas {state : ClusterState} :
    Prog.Always (MayReply ids) G (fun _ => True) (attachReplicas cr state).run ↔
      ∀ i < cr.spec.shards, ∀ o, MayLead cr (byID state) ids i o → ids (endpoint cr i o) ≠ "" →
        ∀ j ≤ cr.spec.replicasPerShard, j ≠ o →
          (((byID state).lookup (ids (endpoint cr i j))).any
            fun n => n.masterID == ids (endpoint cr i o)) = false →
          G (.admin (.replicate (endpoint cr i j) (ids (endpoint cr i o)))) := by
  rw [attachReplicas, Fallible.always_forM fun i _ Q h => ((always_attachShardReplicas hG).1 h).1]
  simp only [List.mem_range, always_attachShardReplicas hG, true_and]
  refine forall₂_congr fun i _ => forall₃_congr fun o _ _ => ?_
  rw [Fallible.always_forM fun j _ Q h => ((always_attachReplica hG).1 h).1]
  simp only [List.mem_range, always_attachReplica hG, true_and, implies_true, and_true,
    Nat.lt_succ_iff, ne_eq, Nat.cast_inj]

omit hG

/-- Whichever calls fail, each replica is attached to a listed primary and owns no slots,
exactly when this is so of whatever may be taken for a primary and the pods that do not
follow it. -/
theorem attachReplicas_legal_iff (cr : ValkeyCluster) (state : ClusterState)
    (ids : Endpoint → String) :
    (∀ (S : Type) (h : Handler Call Call.Reply S) (s : S),
      (∀ c t, MayReply ids c (h c t).1) →
      ∀ e ∈ calls h (attachReplicas cr state) s, LegalReplicate ids state e.1) ↔
    ∀ i < cr.spec.shards, ∀ o, MayLead cr (byID state) ids i o → ids (endpoint cr i o) ≠ "" →
      ∀ j ≤ cr.spec.replicasPerShard, j ≠ o →
        (((byID state).lookup (ids (endpoint cr i j))).any
          fun n => n.masterID == ids (endpoint cr i o)) = false →
        (∃ n, (byID state).lookup (ids (endpoint cr i o)) = some n ∧ n.isPrimary = true) ∧
          ∀ n, (byID state).lookup (ids (endpoint cr i j)) = some n → ¬ n.slotCount > 0 := by
  have hlegal : Prog.Always (MayReply ids) (LegalReplicate ids state) (fun _ => True)
      (attachReplicas cr state).run ↔ _ := always_attachReplicas fun _ => trivial
  rw [Prog.always_iff_runs (exists_mayReply ids)] at hlegal
  simp only [Prog.runs_iff, true_and] at hlegal
  exact hlegal

end

/-- A shard of two pods. -/
def podPair : ValkeyCluster where
  name := "pair"
  nspace := "default"
  spec := { shards := 1, replicasPerShard := 1 }

def podPairIDs (ep : Endpoint) : String := if ep = endpoint podPair 0 0 then "a" else "b"

/-- Pod 1 has taken over, and pod 0 has come back as its replica. -/
def failedOver : ClusterState where
  formed := true
  slotsCovered := true
  openSlots := false
  nodes :=
    [{ NodeInfo.zero with
        id := "a", host := podFQDN podPair 0 0, flags := ["slave"], masterID := "b" },
      { NodeInfo.zero with
        id := "b", host := podFQDN podPair 0 1, flags := ["master"], slots := [⟨0, 16383⟩] }]

/-- The second call of all times out. -/
def secondLost (ids : Endpoint → String) : Handler Call Call.Reply Nat
  | .admin (.myID ep), n => (if n = 1 then .error ⟨.other, "i/o timeout"⟩ else .ok (ids ep), n + 1)
  | c, n => ((World.answer (fun _ => asWritten) c ⟨.empty, { cluster := none }, 0⟩).1, n + 1)

/-- The owner of all slots is told to replicate its replica. -/
theorem owner_replicates_replica :
    (∀ c t, MayReply podPairIDs c (secondLost podPairIDs c t).1) ∧
    ∃ t, (Call.admin (.replicate (endpoint podPair 0 1) "a"), t) ∈
        calls (secondLost podPairIDs) (attachReplicas podPair failedOver) 0 ∧
      ¬ LegalReplicate podPairIDs failedOver
        (.admin (.replicate (endpoint podPair 0 1) "a")) := by
  refine ⟨fun c t => ?_, 4, ?_, fun hlegal => ?_⟩
  · cases c with
    | admin c =>
        cases c with
        | myID ep =>
            by_cases ht : t = 1
            · exact Or.inr ⟨_, if_pos ht⟩
            · exact Or.inl (if_neg ht)
        | _ => trivial
    | kube c => trivial
    | rangeOver m => trivial
  · have hcall : (calls (secondLost podPairIDs) (attachReplicas podPair failedOver) 0)[4]? =
        some _ := rfl
    exact List.mem_of_getElem? hcall
  · obtain ⟨⟨n, hn, hprimary⟩, -⟩ := hlegal
    have hlookup : (byID failedOver).lookup "a" = some { NodeInfo.zero with
        id := "a", host := podFQDN podPair 0 0, flags := ["slave"], masterID := "b" } := rfl
    cases hn.symm.trans hlookup
    exact absurd hprimary (by decide)

end Valkeyop.Controller
