import Valkeyop.Proofs.Wiring

/-!
# Membership on the fake cluster

Finding primaries, attaching replicas and forgetting who has gone. None of it moves
a slot: `Undisturbed` is what all of it leaves behind, and at every call it makes
the node that is forgotten or made a replica owns nothing.
-/

namespace Valkeyop.Controller

open Valkeyop.Lib Valkeyop.Lib.Fallible Valkeyop.Cluster Valkeyop.Api Valkeyop.Resources

/-- No slot owner is forgotten or made a replica. -/
def Spared : Call → World → Prop
  | .admin (.forget _ nodeID), w => (NodeMap.get w.fake.nodes nodeID).slotCount = 0
  | .admin (.replicate replica _), w => (NodeMap.get w.fake.nodes replica.host).slotCount = 0
  | _, _ => True

/-- The world is as the placement says. -/
structure Placed (cr : ValkeyCluster) (w : World) (p : Placement) : Prop where
  holds : Holds cr w.fake p.slots
  own : OwnSets cr w.kube.statefulSets
  hasSet : ∀ i, HasSet cr w.kube.statefulSets i ↔ i ∈ p.sets

/-- The call gives slots to nobody. -/
def Still : Call → Prop
  | .admin (.addSlots ..) | .admin (.moveSlots ..) | .admin (.failover ..) => False
  | .admin (.rebalance ..) | .admin (.reshard ..) | .admin (.fix ..) => False
  | _ => True

/-- Whatever `G` asks for, it has when a call leaves the slots of a world alone that is
as the placement says. -/
def Guards (cr : ValkeyCluster) (p : Placement) (G : Call → World → Prop) : Prop :=
  ∀ c w, Placed cr w p → Spared c w → Still c → G c w

/-- Pod `j` of shard `i` replicates the first pod of the shard. -/
def Follows (cr : ValkeyCluster) (f : Fake) (i j : Nat) : Prop :=
  ∃ n, f.nodes.lookup (podFQDN cr i j) = some n ∧ n.masterID = podFQDN cr i 0

/-- The placement is the same, and nobody has lost its primary. -/
structure Undisturbed (cr : ValkeyCluster) (p : Placement) (w w' : World) : Prop where
  placed : Placed cr w' p
  kube : w'.kube = w.kube
  follows : ∀ i j, Follows cr w.fake i j → Follows cr w'.fake i j

theorem World.kubeBacked (order : RangeOrders) :
    KubeBacked (World.answer order) World.kube World.putKube :=
  ⟨fun _ _ => rfl, fun _ _ => rfl, fun _ => rfl, fun _ _ _ => rfl⟩

section

variable {cr : ValkeyCluster} {order : RangeOrders} {p : Placement} {w w' w'' : World}
  {idx : NodeMap} {i j : Nat} {G : Call → World → Prop}

theorem guards_placed : Guards cr p fun _ w => Placed cr w p := fun _ _ h _ _ => h

theorem Undisturbed.refl (h : Placed cr w p) : Undisturbed cr p w w := ⟨h, rfl, fun _ _ => id⟩

theorem Undisturbed.trans (h : Undisturbed cr p w w') (h' : Undisturbed cr p w' w'') :
    Undisturbed cr p w w'' :=
  ⟨h'.placed, h'.kube.trans h.kube, fun i j hf => h'.follows i j (h.follows i j hf)⟩

theorem Placed.putFake (h : Placed cr w p) {f : Fake} (hf : Holds cr f p.slots) :
    Placed cr { w with fake := f } p := ⟨hf, h.own, h.hasSet⟩

/-! ## The calls -/

theorem undisturbed_ensure (h : Placed cr w p) (i j : Nat) :
    Undisturbed cr p w { w with fake := w.fake.ensure (endpoint cr i j) } := by
  refine ⟨h.putFake (h.holds.ensure i j), rfl, fun i' j' ⟨n, hn, hmaster⟩ => ⟨n, ?_, hmaster⟩⟩
  by_cases hkey : podFQDN cr i' j' = podFQDN cr i j
  · rwa [ensure_of_mem]
    rw [endpoint_host, ← hkey, ← AList.lookup_isSome, hn]
    rfl
  · rwa [lookup_ensure_ne hkey]

theorem succeeds_myID (hG : Guards cr p G) (h : Placed cr w p) (i j : Nat) :
    Succeeds (World.answer order) G (fun id w' => id = podFQDN cr i j ∧
      podFQDN cr i j ∈ w'.fake.nodes ∧ Undisturbed cr p w w')
      (Admin.myID (endpoint cr i j)) w := by
  refine (Prog.runs_op (c := Call.admin (.myID (endpoint cr i j)))).2 ⟨hG _ _ h trivial trivial, ?_,
    mem_ensure _ (endpoint cr i j), undisturbed_ensure h i j⟩
  obtain ⟨n, hn⟩ := exists_lookup (mem_ensure w.fake (endpoint cr i j))
  rw [NodeMap.get, hn]
  exact ((h.holds.ensure i j).roles hn).id

theorem succeeds_meet (hG : Guards cr p G) (h : Placed cr w p) (i j : Nat) :
    Succeeds (World.answer order) G (fun _ => Undisturbed cr p w)
      (Admin.meet (seed cr) (endpoint cr i j)) w := by
  refine (Prog.runs_op (c := Call.admin (.meet (seed cr) (endpoint cr i j)))).2
    ⟨hG _ _ h trivial trivial, ?_⟩
  have hseed := undisturbed_ensure h 0 0
  exact hseed.trans (undisturbed_ensure hseed.placed i j)

theorem succeeds_replicate (hG : Guards cr p G) (h : Placed cr w p) (hj : j ≠ 0) :
    Succeeds (World.answer order) G
      (fun _ w' => Undisturbed cr p w w' ∧ Follows cr w'.fake i j)
      (Admin.replicate (endpoint cr i j) (podFQDN cr i 0)) w := by
  have hself : (w.fake.replicate (endpoint cr i j) (podFQDN cr i 0)).nodes.lookup
      (podFQDN cr i j) = some _ :=
    lookup_modify_self.trans (congrArg _ (lookup_ensure_self w.fake (endpoint cr i j)))
  refine (Prog.runs_op (c := Call.admin (.replicate (endpoint cr i j) (podFQDN cr i 0)))).2
    ⟨?_, ⟨h.putFake (h.holds.replicate hj _), rfl, ?_⟩, _, hself, rfl⟩
  · exact hG _ _ h (h.holds.slotCount_zero fun i' hkey => absurd (podFQDN_inj hkey).2 hj) trivial
  · intro i' j' ⟨n, hn, hmaster⟩
    by_cases hkey : podFQDN cr i' j' = podFQDN cr i j
    · obtain ⟨rfl, rfl⟩ := podFQDN_inj hkey
      exact ⟨_, hself, rfl⟩
    · refine ⟨n, ?_, hmaster⟩
      exact (lookup_modify_ne hkey).trans ((lookup_ensure_ne hkey).trans hn)

theorem runs_forget (hG : Guards cr p G) (h : Placed cr w p) (ep : Endpoint) {id : String}
    (hid : ∀ i, id = podFQDN cr i 0 → p.slots i = 0) :
    Prog.Runs (World.answer order) G
      (fun _ w' => w' = { w with fake := w.fake.forget id }) (Admin.forget ep id).run w :=
  (Prog.runs_op (c := Call.admin (.forget ep id))).2
    ⟨hG _ _ h (h.holds.slotCount_zero hid) trivial, rfl⟩

/-! ## Finding primaries -/

/-- Only first pods are listed with slots. -/
def FirstsOwn (cr : ValkeyCluster) (idx : NodeMap) : Prop :=
  ∀ key n, idx.lookup key = some n → ownsSlots n = true → ∃ i, key = podFQDN cr i 0

theorem Holds.firstsOwn {f : Fake} {slots : Nat → Nat} (h : Holds cr f slots) :
    FirstsOwn cr (byID f.state) := by
  intro key n hn howns
  rw [h.lookup_byID] at hn
  have hcount := ((h.roles hn).ownsSlots_iff).1 howns
  obtain ⟨i, hkey, -⟩ := h.owner hn (by omega)
  exact ⟨i, hkey⟩

theorem runs_findSlotOwner (hG : Guards cr p G) (hidx : FirstsOwn cr idx) (js : List Nat)
    (h : Placed cr w p) :
    Prog.Runs (World.answer order) G (fun r w' => Undisturbed cr p w w' ∧
      ∀ found, r = some found → found = (podFQDN cr i 0, 0) ∧ podFQDN cr i 0 ∈ w'.fake.nodes)
      (findSlotOwner cr i idx js) w := by
  induction js generalizing w with
  | nil => exact Prog.runs_pure.2 ⟨.refl h, fun _ hr => nomatch hr⟩
  | cons j js ih =>
      rw [findSlotOwner]
      refine Prog.runs_bind.2 (Prog.Runs.mono (succeeds_myID hG h i j) fun r w' hr => ?_)
      cases r with
      | error e => exact hr.elim
      | ok id =>
          obtain ⟨rfl, hmem, hw'⟩ := hr
          have hrest := (ih hw'.placed).mono fun r w'' hr => And.imp_left hw'.trans hr
          simp only []
          split
          · next n hn =>
              split
              · next howns =>
                  refine Prog.runs_pure.2 ⟨hw', fun found hfound => ?_⟩
                  obtain ⟨i', hkey⟩ := hidx _ n hn howns
                  obtain ⟨rfl, rfl⟩ := podFQDN_inj hkey
                  exact ⟨(Option.some.inj hfound).symm, hmem⟩
              · exact hrest
          · exact hrest

/-- The primary of a shard is its first pod. -/
theorem runs_findShardPrimary (hG : Guards cr p G) (hidx : FirstsOwn cr idx) (h : Placed cr w p) :
    Prog.Runs (World.answer order) G (fun r w' => r = (podFQDN cr i 0, 0) ∧
      podFQDN cr i 0 ∈ w'.fake.nodes ∧ Undisturbed cr p w w') (findShardPrimary cr i idx) w := by
  refine Prog.runs_bind.2 ((runs_findSlotOwner hG hidx _ h).mono fun r w' hr => ?_)
  cases r with
  | some found =>
      obtain ⟨rfl, hmem⟩ := hr.2 found rfl
      exact Prog.runs_pure.2 ⟨rfl, hmem, hr.1⟩
  | none =>
      refine Prog.runs_bind.2 (Prog.Runs.mono (succeeds_myID hG hr.1.placed i 0) ?_)
      intro r w'' hr'
      cases r with
      | error e => exact hr'.elim
      | ok id =>
          obtain ⟨rfl, hmem, hw''⟩ := hr'
          exact Prog.runs_pure.2 ⟨rfl, hmem, hr.1.trans hw''⟩

/-! ## Attaching replicas -/

/-- Whoever is listed as a replica of its shard's first pod is one. -/
def Fresh (cr : ValkeyCluster) (idx : NodeMap) (f : Fake) : Prop :=
  ∀ i j n, idx.lookup (podFQDN cr i j) = some n → n.masterID = podFQDN cr i 0 → Follows cr f i j

theorem Holds.fresh {f : Fake} {slots : Nat → Nat} (h : Holds cr f slots) :
    Fresh cr (byID f.state) f := by
  intro i j n hn hmaster
  rw [h.lookup_byID] at hn
  exact ⟨n, hn, hmaster⟩

theorem Fresh.undisturbed (h : Fresh cr idx w.fake) (hw : Undisturbed cr p w w') :
    Fresh cr idx w'.fake := fun i j n hn hmaster => hw.follows i j (h i j n hn hmaster)

theorem succeeds_wrap {S α : Type} {h : Handler Call Call.Reply S} {G : Call → S → Prop}
    {Q : α → S → Prop} {a : Act α} {s : S} (context : String) (ha : Succeeds h G Q a s) :
    Succeeds h G Q (wrap context a) s := by
  refine Prog.runs_bind.2 (Prog.Runs.mono ha fun r w' hr => ?_)
  cases r with
  | ok u => exact Prog.runs_pure.2 hr
  | error e => exact hr.elim

theorem succeeds_attachReplica (hG : Guards cr p G) (hidx : Fresh cr idx w.fake)
    (h : Placed cr w p) :
    Succeeds (World.answer order) G
      (fun _ w' => Undisturbed cr p w w' ∧ (j ≠ 0 → Follows cr w'.fake i j))
      (attachReplica cr idx i (podFQDN cr i 0) 0 j) w := by
  unfold attachReplica
  split
  · next hj => exact succeeds_pure.2 ⟨.refl h, fun hne => absurd (Int.ofNat_eq_zero.1 hj) hne⟩
  next hj =>
  have hj : j ≠ 0 := fun h0 => hj (by simp [h0])
  refine succeeds_bind.2 (succeeds_attempt.2 (Prog.Runs.mono (succeeds_myID hG h i j) ?_))
  intro r w' hr
  cases r with
  | error e => exact hr.elim
  | ok id =>
      obtain ⟨rfl, -, hw'⟩ := hr
      simp only []
      split
      · next hany =>
          obtain ⟨n, hn, hmaster⟩ := (Option.any_eq_true _ _).1 hany
          refine succeeds_pure.2 ⟨hw', fun _ => ?_⟩
          exact hw'.follows i j (hidx i j n hn (by simpa using hmaster))
      · refine succeeds_wrap _ ((succeeds_replicate hG hw'.placed hj).mono fun _ w'' hr => ?_)
        exact ⟨hw'.trans hr.1, fun _ => hr.2⟩

theorem succeeds_attachShardReplicas (hG : Guards cr p G) (hfirsts : FirstsOwn cr idx)
    (hidx : Fresh cr idx w.fake) (h : Placed cr w p) :
    Succeeds (World.answer order) G (fun _ w' => Undisturbed cr p w w' ∧
      ∀ j ≤ cr.spec.replicasPerShard, j ≠ 0 → Follows cr w'.fake i j)
      (attachShardReplicas cr idx i) w := by
  refine succeeds_bind.2 (succeeds_lift.2 ((runs_findShardPrimary hG hfirsts h).mono ?_))
  rintro r w' ⟨rfl, -, hw'⟩
  simp only [if_neg (podFQDN_ne_empty cr i 0)]
  -- the pods that are done follow, and nobody stops following
  refine (Succeeds.forM (I := fun done w'' => Undisturbed cr p w w'' ∧
    ∀ j ∈ done, j ≠ 0 → Follows cr w''.fake i j) (fun done j todo _ w₁ hw₁ => ?_)
    ⟨hw', by simp⟩).mono fun _ w'' hw'' => ⟨hw''.1, fun j hj => hw''.2 j (by simp; omega)⟩
  refine (succeeds_attachReplica hG (hidx.undisturbed hw₁.1) hw₁.1.placed).mono fun _ w₂ hw₂ => ?_
  refine ⟨hw₁.1.trans hw₂.1, fun k hk hne => ?_⟩
  rcases List.mem_append.1 hk with hk | hk
  · exact hw₂.1.follows i k (hw₁.2 k hk hne)
  · obtain rfl := List.mem_singleton.1 hk
    exact hw₂.2 hne

theorem succeeds_attachReplicas (hG : Guards cr p G) {state : ClusterState}
    (hfirsts : FirstsOwn cr (byID state)) (hidx : Fresh cr (byID state) w.fake)
    (h : Placed cr w p) :
    Succeeds (World.answer order) G (fun _ w' => Undisturbed cr p w w' ∧
      ∀ i < cr.spec.shards, ∀ j ≤ cr.spec.replicasPerShard, j ≠ 0 → Follows cr w'.fake i j)
      (attachReplicas cr state) w := by
  refine (Succeeds.forM (I := fun done w' => Undisturbed cr p w w' ∧ ∀ i ∈ done,
    ∀ j ≤ cr.spec.replicasPerShard, j ≠ 0 → Follows cr w'.fake i j)
    (fun done i todo _ w₁ hw₁ => ?_) ⟨.refl h, by simp⟩).mono fun _ w' hw' =>
      ⟨hw'.1, fun i hi => hw'.2 i (List.mem_range.2 hi)⟩
  refine (succeeds_attachShardReplicas hG hfirsts (hidx.undisturbed hw₁.1) hw₁.1.placed).mono ?_
  intro _ w₂ hw₂
  refine ⟨hw₁.1.trans hw₂.1, fun k hk j hj hne => ?_⟩
  rcases List.mem_append.1 hk with hk | hk
  · exact hw₂.1.follows k j (hw₁.2 k hk j hj hne)
  · obtain rfl := List.mem_singleton.1 hk
    exact hw₂.2 j hj hne

/-- With the state just observed. -/
theorem succeeds_attachReplicas_now (hG : Guards cr p G) (h : Placed cr w p) :
    Succeeds (World.answer order) G (fun _ w' => Undisturbed cr p w w' ∧
      ∀ i < cr.spec.shards, ∀ j ≤ cr.spec.replicasPerShard, j ≠ 0 → Follows cr w'.fake i j)
      (attachReplicas cr w.fake.state) w :=
  succeeds_attachReplicas hG h.holds.firstsOwn h.holds.fresh h

/-! ## Forgetting -/

/-- Nodes have been dropped, none of them to keep. -/
structure Dropped (cr : ValkeyCluster) (p : Placement) (keep : String → Prop) (w w' : World) :
    Prop where
  placed : Placed cr w' p
  kube : w'.kube = w.kube
  kept : ∀ key, keep key → w'.fake.nodes.lookup key = w.fake.nodes.lookup key

section

variable {keep : String → Prop}

theorem Dropped.refl (h : Placed cr w p) : Dropped cr p keep w w := ⟨h, rfl, fun _ _ => rfl⟩

theorem Dropped.trans (h : Dropped cr p keep w w') (h' : Dropped cr p keep w' w'') :
    Dropped cr p keep w w'' :=
  ⟨h'.placed, h'.kube.trans h.kube, fun key hk => (h'.kept key hk).trans (h.kept key hk)⟩

theorem runs_forgetEverywhere (hG : Guards cr p G) {id : String}
    (hid : ∀ i, id = podFQDN cr i 0 → p.slots i = 0) (hkeep : ¬ keep id) (h : Placed cr w p) :
    Prog.Runs (World.answer order) G (fun _ => Dropped cr p keep w)
      (forgetEverywhere cr id) w := by
  refine Prog.Runs.forM_inv (fun ep _ w₁ hw₁ => ?_) (.refl h)
  refine Prog.runs_bind.2 ((runs_forget hG hw₁.placed ep hid).mono ?_)
  rintro r _ rfl
  refine Prog.runs_pure.2 (hw₁.trans ⟨hw₁.placed.putFake (hw₁.placed.holds.forget hid), rfl, ?_⟩)
  exact fun key hk => lookup_forget_ne fun heq => hkeep (heq ▸ hk)

/-- Only pods of shards without a StatefulSet, or beyond the replica count, go. -/
theorem runs_forgetStaleNodes (hG : Guards cr p G) {state : ClusterState}
    (hstate : ∀ n ∈ state.nodes, n.id = n.host) (h : Placed cr w p) :
    Prog.Runs (World.answer order) G
      (fun _ => Dropped cr p (· ∈ podHosts cr w.kube.statefulSets) w)
      (forgetStaleNodes cr state) w := by
  have hlist : (existingPodHosts cr).run.run (World.answer order) w =
      (.ok (podHosts cr w.kube.statefulSets), w) :=
    exec_existingPodHosts (World.kubeBacked order) h.own
  refine Prog.runs_bind.2 (Prog.runs_iff.2 ⟨?_, fun e he => ?_⟩)
  · rw [hlist]
    refine Prog.Runs.forM_inv (fun n hn w₁ hw₁ => ?_) (.refl h)
    split
    · next hstale =>
        refine (runs_forgetEverywhere hG (fun i hi => ?_) ?_ hw₁.placed).mono
          fun _ w₂ hw₂ => hw₁.trans hw₂
        · -- an owner has a StatefulSet, so its first pod is known
          refine Nat.eq_zero_of_not_pos fun hpos => hstale.2 ?_
          refine (mem_podHosts h.own).2 ⟨i, 0, (h.hasSet i).2 (p.housed i hpos), by omega, ?_⟩
          rw [← hstate n hn, hi]
        · rw [hstate n hn]
          exact hstale.2
    · exact Prog.runs_pure.2 hw₁
  · rw [show (existingPodHosts cr).run.trace (World.answer order) w = _ from
      calls_existingPodHosts (World.kubeBacked order) h.own] at he
    obtain rfl := List.mem_singleton.1 he
    exact hG _ _ h trivial trivial

end

theorem Holds.id_eq_host {f : Fake} {slots : Nat → Nat} (h : Holds cr f slots) :
    ∀ n ∈ f.state.nodes, n.id = n.host := by
  intro n hn
  obtain ⟨key, hn⟩ := mem_state_nodes.1 hn
  exact (h.roles hn).id.trans (h.roles hn).host.symm

/-! ## Membership -/

/-- Every desired pod but the first of its shard follows it. -/
def Attached (cr : ValkeyCluster) (f : Fake) : Prop :=
  ∀ i < cr.spec.shards, ∀ j ≤ cr.spec.replicasPerShard, j ≠ 0 → Follows cr f i j

theorem mem_allEndpoints {ep : Endpoint} : ep ∈ allEndpoints cr ↔
    ∃ i < cr.spec.shards, ∃ j ≤ cr.spec.replicasPerShard, ep = endpoint cr i j := by
  simp only [allEndpoints, List.mem_flatMap, List.mem_map, List.mem_range, Nat.lt_succ_iff,
    eq_comm]

theorem succeeds_reconcileMembership (hG : Guards cr p G) (h : Placed cr w p)
    (hsets : ∀ i < cr.spec.shards, i ∈ p.sets) :
    Succeeds (World.answer order) G
      (fun _ w' => Placed cr w' p ∧ w'.kube = w.kube ∧ Attached cr w'.fake)
      (reconcileMembership cr w.fake.state) w := by
  unfold reconcileMembership
  have hmeet : Succeeds (World.answer order) G (fun _ => Undisturbed cr p w)
      ((allEndpoints cr).forM fun ep =>
        if ep.host ∈ hostIndex w.fake.state then pure () else Admin.meet (seed cr) ep) w := by
    refine Succeeds.forM_inv (fun ep hep w₁ hw₁ => ?_) (.refl h)
    obtain ⟨i, -, j, -, rfl⟩ := mem_allEndpoints.1 hep
    split
    · exact succeeds_pure.2 hw₁
    · exact (succeeds_meet hG hw₁.placed i j).mono fun _ w₂ hw₂ => hw₁.trans hw₂
  refine succeeds_bind.2 (hmeet.mono fun _ w₁ hw₁ => ?_)
  refine succeeds_bind.2 ((succeeds_attachReplicas hG h.holds.firstsOwn
    (h.holds.fresh.undisturbed hw₁) hw₁.placed).mono fun _ w₂ hw₂ => ?_)
  refine succeeds_lift.2 ((runs_forgetStaleNodes hG h.holds.id_eq_host hw₂.1.placed).mono ?_)
  intro _ w₃ hw₃
  refine ⟨hw₃.placed, hw₃.kube.trans (hw₂.1.kube.trans hw₁.kube), fun i hi j hj hne => ?_⟩
  obtain ⟨n, hn, hmaster⟩ := hw₂.2 i hi j hj hne
  refine ⟨n, (hw₃.kept _ ?_).trans hn, hmaster⟩
  exact (mem_podHosts hw₂.1.placed.own).2
    ⟨i, j, (hw₂.1.placed.hasSet i).2 (hsets i hi), hj, rfl⟩

end

end Valkeyop.Controller
