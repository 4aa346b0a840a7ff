import Valkeyop.Proofs.Conditions
import Valkeyop.Proofs.FakePass
import Valkeyop.Proofs.Shards

/-!
# Healing after failovers

A failover swaps the roles of a replica and of what it follows. Done again and again
it leaves replicas of former primaries and primaries without slots, but within a
shard there is always one owner, with the slots the shard has always had. Membership
finds it at whichever ordinal it is and attaches the other pods to it, so one pass
makes the cluster healthy, and the next one has nothing to do.
-/

namespace Valkeyop.Controller

open Valkeyop.Lib Valkeyop.Lib.Fallible Valkeyop.Cluster Valkeyop.Api Valkeyop.Resources

section

variable {cr : ValkeyCluster} {owner : Nat → Nat} {ranges : Nat → List SlotRange}
  {Rest Rest' : Nat → Nat → NodeInfo → Prop} {f f' : Fake} {i j : Nat}

/-! ## Failovers -/

theorem isPrimary_replica {m : NodeInfo} (hflags : m.flags = ["slave"])
    (hmaster : m.masterID ≠ "") : m.isPrimary = false := by
  simp [NodeInfo.isPrimary, hflags, hmaster]

/-- Two pods of a shard have swapped roles; the slots have moved if one was the owner. -/
theorem Sharded.swap (h : Sharded cr owner ranges (Loose cr) f) {k : Nat} {r m : NodeInfo}
    (hi : i < cr.spec.shards) (hj : j ≤ cr.spec.replicasPerShard) (howner : j ≠ owner i)
    (hr : f'.nodes.lookup (podFQDN cr i j) = some r)
    (hrole : InShard cr (fun _ => if k = owner i then j else owner i) ranges (Loose cr) i j r)
    (hm : f'.nodes.lookup (podFQDN cr i k) = some m)
    (hrole' : InShard cr (fun _ => if k = owner i then j else owner i) ranges (Loose cr) i k m)
    (hother : ∀ key, key ≠ podFQDN cr i j → key ≠ podFQDN cr i k →
      f'.nodes.lookup key = f.nodes.lookup key)
    (honly : ∀ key ∈ f'.nodes, key ∈ f.nodes) :
    Sharded cr (Function.update owner i (if k = owner i then j else owner i)) ranges (Loose cr)
      f' := by
  refine h.renew (fun i' hi' => ?_) (fun i' hi' j' hj' m' hm' hpod => ?_) honly
  · by_cases heq : i' = i
    · subst heq
      rw [Function.update_self]
      split
      · exact hj
      · exact h.owner_le i' hi'
    · rw [Function.update_of_ne heq]
      exact h.owner_le i' hi'
  · unfold InShard at *
    by_cases heq : i' = i
    · subst heq
      rw [Function.update_self]
      by_cases hj' : j' = j
      · subst hj'
        exact ⟨r, hr, hrole⟩
      by_cases hk' : j' = k
      · subst hk'
        exact ⟨m, hm, hrole'⟩
      · have hkeys : ∀ {k'}, j' ≠ k' → podFQDN cr i' j' ≠ podFQDN cr i' k' :=
          fun hne heq => hne (podFQDN_inj heq).2
        refine ⟨m', (hother _ (hkeys hj') (hkeys hk')).trans hm', hpod.1, ?_⟩
        grind
    · have hkeys : ∀ k', podFQDN cr i' j' ≠ podFQDN cr i k' :=
        fun k' hkey => heq (podFQDN_inj hkey).1
      rw [Function.update_of_ne heq]
      exact ⟨m', (hother _ (hkeys j) (hkeys k)).trans hm', hpod⟩

/-- A failover leaves every shard with one owner and the same slots. -/
theorem Sharded.failover (h : Sharded cr owner ranges (Loose cr) f) (e : Endpoint) :
    ∃ owner', Sharded cr owner' ranges (Loose cr) (f.failover e) := by
  unfold Fake.failover
  split
  · exact ⟨owner, h⟩
  next r hr =>
  split
  · exact ⟨owner, h⟩
  next hmaster =>
  split
  · exact ⟨owner, h⟩
  next m hm =>
  obtain ⟨i, hi, j, hj, hhost, hrole⟩ := h.of_lookup hr
  have howner : j ≠ owner i := fun heq => hmaster (hrole.primary heq).1
  obtain ⟨-, k, hkj, hk⟩ := (hrole.rest howner).2.resolve_left hmaster
  rw [hhost] at hr ⊢
  rw [hk] at hm ⊢
  have hkrole := h.inShard hm
  have hpods : podFQDN cr i k ≠ podFQDN cr i j := fun heq => hkj (podFQDN_inj heq).2
  refine ⟨_, h.swap (k := k) (r := { Fake.asPrimary r with slots := m.slots })
    (m := { m with slots := [], masterID := r.id, flags := ["slave"] }) hi hj howner
    ?_ ?_ ?_ ?_ ?_ ?_⟩
  · rw [lookup_modify_ne hpods.symm, lookup_modify_self, hr]
    rfl
  · by_cases hko : k = owner i
    · refine inShard_owner hrole.1 (by rw [if_pos hko]) rfl ?_
      exact (hkrole.primary hko).2
    · refine inShard_rest hrole.1 (by rw [if_neg hko]; exact howner) ?_ (.inl rfl)
      exact (hkrole.rest hko).1
  · rw [lookup_modify_self, lookup_modify_ne hpods, hm]
    rfl
  · refine inShard_rest hkrole.1 ?_ rfl (.inr ⟨isPrimary_replica rfl ?_, j, hkj.symm, hrole.1.1⟩)
    · split
      · exact hkj
      · next hko => exact hko
    · show r.id ≠ ""
      rw [hrole.1.1]
      exact podFQDN_ne_empty cr i j
  · intro key hne hne'
    rw [lookup_modify_ne hne', lookup_modify_ne hne]
  · intro key hkey
    exact mem_modify.1 (mem_modify.1 hkey)

theorem Sharded.failovers (pods : List Endpoint) (h : Sharded cr owner ranges (Loose cr) f) :
    ∃ owner', Sharded cr owner' ranges (Loose cr) (pods.foldl Fake.failover f) := by
  induction pods generalizing owner f with
  | nil => exact ⟨owner, h⟩
  | cons e pods ih =>
      obtain ⟨owner', h'⟩ := h.failover e
      exact ih h'

theorem Healthy.loose (h : Healthy cr owner ranges f) :
    Sharded cr owner ranges (Loose cr) f :=
  h.mono fun i _ _ _ hj _ _ hrest => .inr ⟨hrest.1, owner i, Ne.symm hj, hrest.2⟩

end

/-! ## Attaching -/

section

variable {cr : ValkeyCluster} {owner : Nat → Nat} {ranges : Nat → List SlotRange}
  {Rest : Nat → Nat → NodeInfo → Prop} {order : RangeOrders} {w w' : World} {i j : Nat}
  {G : Call → World → Prop}

/-- A pod of the cluster answers with its name, and is not changed by that. -/
theorem run_myID_sharded (h : Sharded cr owner ranges Rest w.fake) (hi : i < cr.spec.shards)
    (hj : j ≤ cr.spec.replicasPerShard) :
    Prog.run (World.answer order) (Admin.myID (endpoint cr i j)).run w =
      (.ok (podFQDN cr i j), w) := by
  obtain ⟨m, hm, hrole⟩ := h.pod i hi j hj
  have hensure : w.fake.ensure (endpoint cr i j) = w.fake :=
    ensure_of_mem (AList.lookup_isSome.1 (by rw [endpoint_host, hm]; rfl))
  have hget : (NodeMap.get w.fake.nodes (podFQDN cr i j)).id = podFQDN cr i j := by
    rw [NodeMap.get, hm]
    exact hrole.1.1
  change World.answer order (.admin (.myID (endpoint cr i j))) w = _
  rw [World.answer, Fake.answer, hensure]
  exact Prod.ext (congrArg Except.ok hget) rfl

/-- The owner of a shard is found at its ordinal. -/
theorem run_findSlotOwner_sharded {w₀ : World} (h₀ : Sharded cr owner ranges Rest w₀.fake)
    {Rest' : Nat → Nat → NodeInfo → Prop} (h : Sharded cr owner ranges Rest' w.fake)
    (hi : i < cr.spec.shards) {js : List Nat} (hjs : ∀ j ∈ js, j ≤ cr.spec.replicasPerShard)
    (howner : owner i ∈ js) :
    (findSlotOwner cr i (byID w₀.fake.state) js).run (World.answer order) w =
      (some (podFQDN cr i (owner i), owner i), w) := by
  induction js with
  | nil => cases howner
  | cons j js ih =>
      obtain ⟨m, hm, -⟩ := h₀.pod i hi j (hjs j (by simp))
      rw [findSlotOwner, Prog.run_bind, run_myID_sharded h hi (hjs j (by simp))]
      simp only [h₀.lookup_byID, hm]
      by_cases hj : j = owner i
      · rw [if_pos ((h₀.ownsSlots_iff hi hm).2 hj), hj]
        rfl
      · rw [if_neg fun howns => hj ((h₀.ownsSlots_iff hi hm).1 howns)]
        exact ih (fun j hj => hjs j (List.mem_cons_of_mem _ hj))
          ((List.mem_cons.1 howner).resolve_left (Ne.symm hj))

theorem run_findShardPrimary_sharded {w₀ : World} (h₀ : Sharded cr owner ranges Rest w₀.fake)
    {Rest' : Nat → Nat → NodeInfo → Prop} (h : Sharded cr owner ranges Rest' w.fake)
    (hi : i < cr.spec.shards) :
    (findShardPrimary cr i (byID w₀.fake.state)).run (World.answer order) w =
      ((podFQDN cr i (owner i), (owner i : Int)), w) := by
  have hjs : ∀ j ∈ List.range (cr.spec.replicasPerShard + 1), j ≤ cr.spec.replicasPerShard :=
    fun j hj => Nat.lt_succ_iff.1 (List.mem_range.1 hj)
  have howner : owner i ∈ List.range (cr.spec.replicasPerShard + 1) :=
    List.mem_range.2 (Nat.lt_succ_of_le (h.owner_le i hi))
  rw [findShardPrimary, Prog.run_bind, run_findSlotOwner_sharded h₀ h hi hjs howner]
  rfl

/-- Attaching has come some way: the pods that are done follow their owner, the others
do or are as they were. -/
structure Attaching (cr : ValkeyCluster) (owner : Nat → Nat) (ranges : Nat → List SlotRange)
    (w₀ : World) (done : Nat → Nat → Prop) (w : World) : Prop where
  rest : w = { w₀ with fake := w.fake }
  sharded : Sharded cr owner ranges (fun i j m =>
    (w₀.fake.nodes.lookup (podFQDN cr i j) = some m ∨ Follower cr owner i j m) ∧
      (done i j → Follower cr owner i j m)) w.fake
  same : Healthy cr owner ranges w₀.fake → w = w₀

theorem attaching_nothing (h : Sharded cr owner ranges (Loose cr) w.fake) :
    Attaching cr owner ranges w (fun _ _ => False) w :=
  ⟨rfl, h.mono fun _ _ _ _ _ _ hm _ => ⟨.inl hm, fun hdone => hdone.elim⟩, fun _ => rfl⟩

theorem Attaching.mono {w₀ : World} {done done' : Nat → Nat → Prop}
    (h : Attaching cr owner ranges w₀ done w)
    (hdone : ∀ i < cr.spec.shards, ∀ j ≤ cr.spec.replicasPerShard, done' i j → done i j) :
    Attaching cr owner ranges w₀ done' w :=
  ⟨h.rest, h.sharded.mono fun i hi j hj _ _ _ hrest =>
    ⟨hrest.1, fun hd => hrest.2 (hdone i hi j hj hd)⟩, h.same⟩

theorem Sharded.replicate {Rest' : Nat → Nat → NodeInfo → Prop} {f : Fake}
    (h : Sharded cr owner ranges Rest f) (hi : i < cr.spec.shards)
    (hj : j ≤ cr.spec.replicasPerShard) (hne : j ≠ owner i) (id : String)
    (hself : ∀ m, m.flags = ["slave"] → m.masterID = id → Rest' i j m)
    (hother : ∀ i' j' m, ¬ (i' = i ∧ j' = j) → Rest i' j' m → Rest' i' j' m) :
    Sharded cr owner ranges Rest' (f.replicate (endpoint cr i j) id) := by
  obtain ⟨m, hm, hrole⟩ := h.pod i hi j hj
  have hmem : (endpoint cr i j).host ∈ f.nodes :=
    AList.lookup_isSome.1 (by rw [endpoint_host, hm]; rfl)
  unfold Fake.replicate
  rw [ensure_of_mem hmem, endpoint_host]
  refine h.renew h.owner_le (fun i' _ j' _ m' hm' hrole' => ?_) fun key => mem_modify.1
  by_cases hpod : i' = i ∧ j' = j
  · obtain ⟨rfl, rfl⟩ := hpod
    exact ⟨_, lookup_modify_self.trans (congrArg _ hm'),
      inShard_rest hrole'.1 hne rfl (hself _ rfl rfl)⟩
  · have hkey : podFQDN cr i' j' ≠ podFQDN cr i j := fun heq => hpod (podFQDN_inj heq)
    refine ⟨m', (lookup_modify_ne hkey).trans hm', ?_⟩
    by_cases howner : j' = owner i'
    · obtain ⟨hmaster, hslots⟩ := hrole'.primary howner
      exact inShard_owner hrole'.1 howner hmaster hslots
    · obtain ⟨hslots, hrest⟩ := hrole'.rest howner
      exact inShard_rest hrole'.1 howner hslots (hother i' j' m' hpod hrest)

theorem Attaching.attachReplica {w₀ : World} {done : Nat → Nat → Prop}
    (h₀ : Sharded cr owner ranges (Loose cr) w₀.fake)
    (h : Attaching cr owner ranges w₀ done w) (hi : i < cr.spec.shards)
    (hj : j ≤ cr.spec.replicasPerShard) :
    Succeeds (World.answer order) (fun _ _ => True)
      (fun _ => Attaching cr owner ranges w₀ fun i' j' => done i' j' ∨ i' = i ∧ j' = j)
      (attachReplica cr (byID w₀.fake.state) i (podFQDN cr i (owner i)) (owner i) j) w := by
  unfold Controller.attachReplica
  split
  · next heq =>
      refine succeeds_pure.2 ⟨h.rest, h.sharded.mono ?_, h.same⟩
      intro i' _ j' _ hne m _ hrest
      refine ⟨hrest.1, fun hdone => hrest.2 (hdone.resolve_right ?_)⟩
      intro ⟨hi', hj'⟩
      exact hne (by rw [hj', hi']; exact Int.ofNat_inj.1 heq)
  next hne =>
  have hne : j ≠ owner i := fun heq => hne (by rw [heq])
  obtain ⟨m, hm, hrole⟩ := h₀.pod i hi j hj
  have hask : exec (World.answer order) (Admin.myID (endpoint cr i j)).attempt w =
      (.ok (.ok (podFQDN cr i j)), w) := by
    rw [exec_attempt, exec, run_myID_sharded h.sharded hi hj]
  refine succeeds_bind.2 (succeeds_of_exec hask ?_)
  simp only [h₀.lookup_byID, hm, Option.any_some]
  by_cases hmaster : m.masterID = podFQDN cr i (owner i)
  · rw [if_pos (by rw [hmaster, beq_self_eq_true])]
    refine succeeds_pure.2 ⟨h.rest, h.sharded.mono ?_, h.same⟩
    intro i' _ j' _ _ m' hm' hrest
    refine ⟨hrest.1, fun hdone => ?_⟩
    rcases hdone with hdone | ⟨rfl, rfl⟩
    · exact hrest.2 hdone
    rcases hrest.1 with hsame | hfollows
    · -- it was a replica of the owner all along
      obtain rfl : m = m' := Option.some.inj (hm.symm.trans hsame)
      rcases (hrole.rest hne).2 with hfree | ⟨hreplica, -⟩
      · exact absurd (hmaster.symm.trans hfree) (podFQDN_ne_empty cr _ _)
      · exact ⟨hreplica, hmaster⟩
    · exact hfollows
  · rw [if_neg (by simpa using hmaster)]
    refine succeeds_wrap _ ((Prog.runs_op (c := Call.admin (.replicate ..))).2 ⟨trivial, ?_⟩)
    refine ⟨by rw [h.rest]; rfl, h.sharded.replicate hi hj hne _ ?_ ?_, fun hhealthy => ?_⟩
    · intro m' hflags hmaster'
      have hfollows : Follower cr owner i j m' :=
        ⟨isPrimary_replica hflags (hmaster' ▸ podFQDN_ne_empty cr _ _), hmaster'⟩
      exact ⟨.inr hfollows, fun _ => hfollows⟩
    · intro i' j' m' hpod hrest
      exact ⟨hrest.1, fun hdone => hrest.2 (hdone.resolve_right hpod)⟩
    · exact absurd ((hhealthy.inShard hm).rest hne).2.2 hmaster

theorem Attaching.attachShardReplicas {w₀ : World} {done : Nat → Nat → Prop}
    (h₀ : Sharded cr owner ranges (Loose cr) w₀.fake)
    (h : Attaching cr owner ranges w₀ done w) (hi : i < cr.spec.shards) :
    Succeeds (World.answer order) (fun _ _ => True)
      (fun _ => Attaching cr owner ranges w₀ fun i' j' => done i' j' ∨ i' = i)
      (attachShardReplicas cr (byID w₀.fake.state) i) w := by
  have hfind : exec (World.answer order)
      (liftM (findShardPrimary cr i (byID w₀.fake.state)) : Act (String × Int)) w =
        (.ok (podFQDN cr i (owner i), (owner i : Int)), w) := by
    rw [exec_lift, run_findShardPrimary_sharded h₀ h.sharded hi]
  refine succeeds_bind.2 (succeeds_of_exec hfind ?_)
  simp only [if_neg (podFQDN_ne_empty cr i (owner i))]
  refine (Succeeds.forM (I := fun js => Attaching cr owner ranges w₀
    fun i' j' => done i' j' ∨ i' = i ∧ j' ∈ js) (fun js j todo hl w₁ hw₁ => ?_) ?_).mono ?_
  · have hj : j ∈ List.range (cr.spec.replicasPerShard + 1) := by simp [hl]
    refine (hw₁.attachReplica h₀ hi (Nat.lt_succ_iff.1 (List.mem_range.1 hj))).mono ?_
    intro _ w₂ hw₂
    refine hw₂.mono fun i' _ j' _ hdone => ?_
    simp only [List.mem_append, List.mem_singleton] at hdone
    tauto
  · exact h.mono fun i' _ j' _ hdone => hdone.resolve_right (by simp)
  · intro _ w₁ hw₁
    refine hw₁.mono fun i' _ j' hj' hdone => ?_
    exact hdone.imp_right fun hi' => ⟨hi', List.mem_range.2 (Nat.lt_succ_of_le hj')⟩

/-- Attaching makes a cluster healthy, and leaves a healthy one alone. -/
theorem succeeds_attachReplicas_sharded (h : Sharded cr owner ranges (Loose cr) w.fake) :
    Succeeds (World.answer order) (fun _ _ => True)
      (fun _ w' => w' = { w with fake := w'.fake } ∧ Healthy cr owner ranges w'.fake ∧
        (Healthy cr owner ranges w.fake → w' = w))
      (attachReplicas cr w.fake.state) w := by
  refine (Succeeds.forM (I := fun is => Attaching cr owner ranges w fun i' _ => i' ∈ is)
    (fun is i todo hl w₁ hw₁ => ?_) ?_).mono ?_
  · have hi : i ∈ List.range cr.spec.shards := by simp [hl]
    refine (hw₁.attachShardReplicas h (List.mem_range.1 hi)).mono ?_
    intro _ w₂ hw₂
    refine hw₂.mono fun i' _ j' _ hdone => ?_
    simpa using hdone
  · exact (attaching_nothing h).mono fun _ _ _ _ hdone => nomatch hdone
  · intro _ w' hw'
    refine ⟨hw'.rest, hw'.sharded.mono ?_, hw'.same⟩
    intro i hi _ _ _ _ _ hrest
    exact hrest.2 (List.mem_range.2 hi)

/-! ## Membership -/

/-- The StatefulSets are those of the desired shards. -/
structure DesiredSets (cr : ValkeyCluster) (k : ApiServer) : Prop where
  own : OwnSets cr k.statefulSets
  hasSet : ∀ i, HasSet cr k.statefulSets i ↔ i < cr.spec.shards

/-- The StatefulSets and the claims are the same. -/
def SameWorkloads (k k' : ApiServer) : Prop :=
  k'.statefulSets = k.statefulSets ∧ k'.pvcs = k.pvcs

theorem SameWorkloads.trans {k k' k'' : ApiServer} (h : SameWorkloads k k')
    (h' : SameWorkloads k' k'') : SameWorkloads k k'' :=
  ⟨h'.1.trans h.1, h'.2.trans h.2⟩

theorem DesiredSets.numbered {k : ApiServer} (h : DesiredSets cr k) : Numbered cr.spec.shards :=
  fun i hi => h.own.fits i ((h.hasSet i).2 hi)

theorem DesiredSets.of_same {k k' : ApiServer} (h : DesiredSets cr k) (hsame : SameWorkloads k k') :
    DesiredSets cr k' := by
  constructor
  · rw [hsame.1]
    exact h.own
  · rw [hsame.1]
    exact h.hasSet

theorem desiredSets_provisioned (hnum : Numbered cr.spec.shards) :
    DesiredSets cr (.provisioned cr) := by
  have h := provisioned_provisioned hnum
  refine ⟨h.own, fun i => (h.hasSet i).trans ?_⟩
  simp [HasSet]

/-- Nobody is met, for everybody is known, and nobody is forgotten. -/
theorem succeeds_reconcileMembership_sharded (order : RangeOrders)
    (h : Sharded cr owner ranges (Loose cr) w.fake) (hsets : DesiredSets cr w.kube) :
    Succeeds (World.answer order) (fun _ _ => True)
      (fun _ w' => w' = { w with fake := w'.fake } ∧ Healthy cr owner ranges w'.fake ∧
        (Healthy cr owner ranges w.fake → w' = w))
      (reconcileMembership cr w.fake.state) w := by
  have hmet : Succeeds (World.answer order) (fun _ _ => True) (fun _ => (· = w))
      ((allEndpoints cr).forM fun ep =>
        if ep.host ∈ hostIndex w.fake.state then pure () else Admin.meet (seed cr) ep) w := by
    refine Succeeds.forM_inv (fun ep hep w₁ hw₁ => ?_) rfl
    obtain ⟨i, hi, j, hj, rfl⟩ := mem_allEndpoints.1 hep
    obtain ⟨m, hm, -⟩ := h.pod i hi j hj
    rw [if_pos]
    · exact succeeds_pure.2 hw₁
    · exact AList.lookup_isSome.1 (by rw [h.lookup_hostIndex, endpoint_host, hm]; rfl)
  refine succeeds_bind.2 (hmet.mono ?_)
  intro _ w₁ hw₁
  subst hw₁
  refine succeeds_bind.2 ((succeeds_attachReplicas_sharded h).mono ?_)
  intro _ w₂ hw₂
  refine succeeds_lift.2 (Prog.runs_bind.2 (Prog.runs_iff.2 ⟨?_, fun _ _ => trivial⟩))
  have hkube : w₂.kube = w₁.kube := by rw [hw₂.1]
  have hlist : (existingPodHosts cr).run.run (World.answer order) w₂ =
      (.ok (podHosts cr w₂.kube.statefulSets), w₂) :=
    exec_existingPodHosts (World.kubeBacked order) (hkube ▸ hsets.own)
  rw [hlist]
  refine (Prog.Runs.forM_inv (I := (· = w₂)) (fun m hm w₃ hw₃ => ?_) rfl).mono ?_
  · obtain ⟨key, hkey⟩ := mem_state_nodes.1 hm
    obtain ⟨i, hi, j, hj, rfl, hrole⟩ := h.of_lookup hkey
    rw [if_neg]
    · exact Prog.runs_pure.2 hw₃
    · rintro ⟨-, hnot⟩
      refine hnot ((mem_podHosts (hkube ▸ hsets.own)).2 ⟨i, j, ?_, hj, hrole.1.2⟩)
      rw [hkube]
      exact (hsets.hasSet i).2 hi
  · intro _ w₃ hw₃
    subst hw₃
    exact hw₂

/-! ## A pass -/

theorem Sharded.congr {c c' : ValkeyCluster} {Rest : Nat → Nat → NodeInfo → Prop} {f : Fake}
    (h : Sharded c owner ranges Rest f) (hsame : SameCluster c c') :
    Sharded c' owner ranges Rest f := by
  have hpod := podFQDN_congr hsame.name hsame.nspace
  constructor
  · rw [hsame.spec]
    exact h.owner_le
  · rw [hsame.spec]
    exact h.serving
  · rw [hsame.spec]
    exact h.total
  · unfold InShard
    rw [hsame.spec, hpod]
    exact h.pod
  · rw [hsame.spec, hpod]
    exact h.only

theorem Healthy.congr {c c' : ValkeyCluster} {f : Fake} (h : Healthy c owner ranges f)
    (hsame : SameCluster c c') : Healthy c' owner ranges f := by
  unfold Healthy Follower
  rw [podFQDN_congr hsame.name hsame.nspace]
  exact Sharded.congr h hsame

theorem DesiredSets.congr {c c' : ValkeyCluster} {k : ApiServer} (h : DesiredSets c k)
    (hsame : SameCluster c c') : DesiredSets c' k := by
  refine ⟨h.own.congr hsame.name hsame.nspace, fun i => ?_⟩
  rw [hasSet_congr hsame.name, hsame.spec]
  exact h.hasSet i

/-- What is published does not depend on the status that was. -/
theorem publishedStatus_congr {c c' : ValkeyCluster} (hsame : SameCluster c c') :
    publishedStatus c' = publishedStatus c := by
  obtain ⟨hname, hns, hspec, -⟩ := hsame
  obtain ⟨name, nspace, _, _, _, _, spec, _⟩ := c
  obtain ⟨name', nspace', _, _, _, _, spec', _⟩ := c'
  simp only at hname hns hspec
  subst hname hns hspec
  rfl

theorem sameCluster_withStatus (status : ValkeyClusterStatus) (c : ValkeyCluster) :
    SameCluster c (withStatus status c) :=
  ⟨rfl, rfl, rfl, rfl⟩

/-- A pass for the resource as it is stored. -/
def World.clusterPass (order : RangeOrders) (w : World) : World :=
  match w.kube.cluster with
  | none => w
  | some c => (exec (World.answer order) (reconcileCluster c) w).2

/-- The cluster is healthy, and what is published of it is up to date. -/
structure AtRest (owner : Nat → Nat) (ranges : Nat → List SlotRange) (w : World)
    (c : ValkeyCluster) : Prop where
  stored : w.kube.cluster = some c
  healthy : Healthy c owner ranges w.fake
  sets : DesiredSets c w.kube
  published : ∀ time, publishedStatus c w.fake.state time c = c.status

variable {c : ValkeyCluster}

theorem AtRest.ready (h : AtRest owner ranges w c) :
    c.status.phase = some .ready ∧ c.status.readyShards = c.spec.shards := by
  rw [← h.published 0]
  refine ⟨?_, h.healthy.readyShards⟩
  show some (verdict c w.fake.state) = _
  rw [verdict, if_pos h.healthy.allReady]

/-- A healthy cluster of the desired shards is at rest once its status is published. -/
theorem exec_updateStatus_atRest (order : RangeOrders) {cr : ValkeyCluster}
    (hc : w.kube.cluster = some c) (hsame : SameCluster cr c)
    (h : Healthy cr owner ranges w.fake) (hsets : DesiredSets cr w.kube) :
    ∃ w' c' time, exec (World.answer order) (updateStatus cr w.fake.state) w = (.ok (), w') ∧
      AtRest owner ranges w' c' ∧ SameCluster cr c' ∧ w'.fake = w.fake ∧
      SameWorkloads w.kube w'.kube ∧
      c'.status = publishedStatus cr w.fake.state time c := by
  have hsame' : SameCluster cr (withStatus
      (publishedStatus cr w.fake.state w.kube.clock c) c) :=
    hsame.trans (sameCluster_withStatus _ c)
  refine ⟨_, withStatus (publishedStatus cr w.fake.state w.kube.clock c) c, w.kube.clock,
    exec_updateStatus (World.kubeBacked order) hc hsame.name hsame.nspace w.fake.state,
    ⟨rfl, h.congr hsame', ?_, fun time => ?_⟩, hsame', rfl, ⟨rfl, rfl⟩, rfl⟩
  · exact DesiredSets.congr ⟨hsets.own, hsets.hasSet⟩ hsame'
  · rw [publishedStatus_congr hsame']
    exact publishedStatus_again cr w.fake.state w.kube.clock time c

/-- An announcement is written to the status and changes nothing else. -/
theorem exec_announce (order : RangeOrders) (hc : w.kube.cluster = some c)
    (phase : ValkeyClusterPhase) (reason msg : String) :
    ∃ k c', exec (World.answer order) (liftM (announce c phase reason msg) : Act Unit) w =
        (.ok (), w.putKube k) ∧
      k.cluster = some c' ∧ SameCluster c c' ∧ SameWorkloads w.kube k := by
  have hrun := exec_setPhase (World.kubeBacked order) hc rfl rfl phase reason msg
  have hexec : exec (World.answer order) (liftM (announce c phase reason msg) : Act Unit) w =
      (.ok (), (exec (World.answer order) (setPhase c phase reason msg) w).2) := by
    rw [exec_lift, announce, Prog.run_bind]
    rfl
  rw [hrun] at hexec
  exact ⟨_, _, hexec, rfl, sameCluster_withStatus _ c, rfl, rfl⟩

/-- What is left behind by an action that only attends to membership. -/
structure Attended (c : ValkeyCluster) (owner : Nat → Nat) (ranges : Nat → List SlotRange)
    (w w' : World) (c' : ValkeyCluster) : Prop where
  stored : w'.kube.cluster = some c'
  same : SameCluster c c'
  healthy : Healthy c owner ranges w'.fake
  sets : SameWorkloads w.kube w'.kube

/-- Membership makes the cluster healthy, and does nothing if it is. -/
def Mends (order : RangeOrders) (c : ValkeyCluster) (owner : Nat → Nat)
    (ranges : Nat → List SlotRange) (w : World) : Prop :=
  ∀ k, SameWorkloads w.kube k → ∃ w',
    exec (World.answer order) (reconcileMembership c w.fake.state) (w.putKube k) = (.ok (), w') ∧
      w' = { w.putKube k with fake := w'.fake } ∧ Healthy c owner ranges w'.fake ∧
      (Healthy c owner ranges w.fake → w' = w.putKube k)

theorem mends_of_sharded (order : RangeOrders) (h : Sharded c owner ranges (Loose c) w.fake)
    (hsets : DesiredSets c w.kube) : Mends order c owner ranges w := by
  intro k hk
  obtain ⟨_, w', hexec, hw'⟩ := (succeeds_reconcileMembership_sharded order (w := w.putKube k) h
    (hsets.of_same hk)).exec
  exact ⟨w', hexec, hw'⟩

theorem Mends.membership (h : Mends order c owner ranges w) (hc : w.kube.cluster = some c) :
    ∃ w', exec (World.answer order) (act c w.fake.state (summarize c w.fake.state) .none) w =
        (.ok (), w') ∧ Attended c owner ranges w w' c ∧
      (Healthy c owner ranges w.fake → w' = w) := by
  obtain ⟨w', hexec, hw', hhealthy, hsame⟩ := h w.kube ⟨rfl, rfl⟩
  have hkube : w'.kube = w.kube := by rw [hw']; rfl
  refine ⟨w', hexec, ⟨hkube ▸ hc, ⟨rfl, rfl, rfl, rfl⟩, hhealthy,
    by rw [hkube]; exact ⟨rfl, rfl⟩⟩, hsame⟩

theorem Mends.scaleReplicas (h : Mends order c owner ranges w) (hc : w.kube.cluster = some c) :
    ∃ w' c', exec (World.answer order)
        (act c w.fake.state (summarize c w.fake.state) .scaleReplicas) w = (.ok (), w') ∧
      Attended c owner ranges w w' c' := by
  obtain ⟨k, c', hexec, hc', hsame, hk⟩ := exec_announce order hc .scalingReplicas
    "ScalingReplicas" "adjusting replicas"
  obtain ⟨w', hexec', hw', hhealthy, -⟩ := h k hk
  refine ⟨w', c', (exec_bind_ok hexec).trans hexec', ?_, hsame, hhealthy, ?_⟩
  · rw [hw']
    exact hc'
  · rw [hw']
    exact hk

/-- A pass that finds the shards complete makes the cluster healthy and publishes that.
If it is so already, nothing happens to it. -/
theorem Mends.reconcileCluster (h : Mends order c owner ranges w)
    (hc : w.kube.cluster = some c) (hsets : DesiredSets c w.kube)
    (hformed : (summarize c w.fake.state).formed = true)
    (hcovered : (summarize c w.fake.state).slotsCovered = true)
    (hcount : (summarize c w.fake.state).primaryCount = c.spec.shards) :
    ∃ w' c', exec (World.answer order) (reconcileCluster c) w = (.ok false, w') ∧
      AtRest owner ranges w' c' ∧ SameCluster c c' ∧
      SameWorkloads w.kube w'.kube ∧
      (Healthy c owner ranges w.fake → w'.fake = w.fake ∧
        ∃ time, c'.status = publishedStatus c w.fake.state time c) := by
  have hplan := exec_choosePlan (World.kubeBacked order) hsets.own (summarize c w.fake.state)
  rw [chosenPlan_of_none hsets.own fun i => (hsets.hasSet i).1] at hplan
  have hobserve : ∀ context (w : World), exec (World.answer order)
      (wrap context (Admin.state (seed c))) w = (.ok w.fake.state, w) := fun context w =>
    exec_wrap_ok context rfl
  have hact : ∃ w₁ c₁, exec (World.answer order) (act c w.fake.state
        (summarize c w.fake.state)
        (Topology.decide (desired c) (summarize c w.fake.state)).kind) w = (.ok (), w₁) ∧
      Attended c owner ranges w w₁ c₁ ∧
      (Healthy c owner ranges w.fake → w₁ = w) ∧
      isProgressing (Topology.decide (desired c) (summarize c w.fake.state)).kind = false := by
    rcases Topology.decide_enough (d := desired c) hformed hcovered hcount.symm with hkind | hkind
    · obtain ⟨w₁, c₁, hexec, hattended⟩ := h.scaleReplicas hc
      rw [hkind]
      refine ⟨w₁, c₁, hexec, hattended, fun hhealthy => ?_, rfl⟩
      rw [hhealthy.decide] at hkind
      cases hkind
    · obtain ⟨w₁, hexec, hattended, hsame⟩ := h.membership hc
      rw [hkind]
      exact ⟨w₁, c, hexec, hattended, hsame, rfl⟩
  obtain ⟨w₁, c₁, hexec, hattended, hsame, hquiet⟩ := hact
  obtain ⟨w₂, c₂, time, hpublish, hrest, hsame', hfake, hsets', hstatus⟩ :=
    exec_updateStatus_atRest order hattended.stored hattended.same hattended.healthy
      (hsets.of_same hattended.sets)
  refine ⟨w₂, c₂, ?_, hrest, hsame', hattended.sets.trans hsets', fun hhealthy => ?_⟩
  · rw [Controller.reconcileCluster, exec_bind_ok (hobserve _ w), exec_bind_ok hplan,
      exec_bind_ok hexec, exec_bind_ok (hobserve _ w₁), exec_bind_ok hpublish, exec_pure, hquiet]
  · obtain rfl := hsame hhealthy
    obtain rfl : c = c₁ := Option.some.inj (hc.symm.trans hattended.stored)
    exact ⟨hfake, time, hstatus⟩

theorem exec_reconcileCluster_sharded (order : RangeOrders)
    (h : Sharded c owner ranges (Loose c) w.fake) (hc : w.kube.cluster = some c)
    (hsets : DesiredSets c w.kube) :
    ∃ w' c', exec (World.answer order) (reconcileCluster c) w = (.ok false, w') ∧
      AtRest owner ranges w' c' ∧ SameCluster c c' ∧
      SameWorkloads w.kube w'.kube ∧
      (Healthy c owner ranges w.fake → w'.fake = w.fake ∧
        ∃ time, c'.status = publishedStatus c w.fake.state time c) := by
  obtain ⟨hformed, hcovered, hcount⟩ := h.summarize
  exact (mends_of_sharded order h hsets).reconcileCluster hc hsets hformed hcovered hcount

theorem clusterPass_eq (hc : w.kube.cluster = some c) {progressing : Bool}
    (hexec : exec (World.answer order) (reconcileCluster c) w = (.ok progressing, w')) :
    w.clusterPass order = w' := by
  rw [World.clusterPass, hc]
  exact congrArg Prod.snd hexec

/-- A cluster at rest stays there. -/
theorem AtRest.clusterPass (order : RangeOrders) (h : AtRest owner ranges w c) :
    ∃ c', AtRest owner ranges (w.clusterPass order) c' ∧ SameCluster c c' ∧
      (w.clusterPass order).fake = w.fake ∧
      SameWorkloads w.kube (w.clusterPass order).kube ∧
      c'.status = c.status := by
  obtain ⟨w', c', hexec, hrest, hsame, hsets, hquiet⟩ :=
    exec_reconcileCluster_sharded order h.healthy.loose h.stored h.sets
  obtain ⟨hfake, time, hstatus⟩ := hquiet h.healthy
  rw [clusterPass_eq h.stored hexec]
  exact ⟨c', hrest, hsame, hfake, hsets, hstatus.trans (h.published time)⟩

theorem failovers_healed (order : RangeOrders) (hc : w.kube.cluster = some c)
    (hsets : DesiredSets c w.kube) (h : Healthy c owner ranges w.fake) (pods : List Endpoint) :
    let w₁ := World.clusterPass order { w with fake := pods.foldl Fake.failover w.fake }
    ∃ owner' c₁, w₁.kube.cluster = some c₁ ∧ SameCluster c c₁ ∧
      Healthy c₁ owner' ranges w₁.fake ∧ DesiredSets c₁ w₁.kube ∧
      c₁.status.phase = some .ready ∧
      (w₁.clusterPass order).fake = w₁.fake ∧
      (w₁.clusterPass order).kube.statefulSets = w₁.kube.statefulSets ∧
      ∃ c₂, (w₁.clusterPass order).kube.cluster = some c₂ ∧ SameCluster c₁ c₂ ∧
        c₂.status = c₁.status := by
  obtain ⟨owner', hloose⟩ := h.loose.failovers pods
  let w₀ : World := { w with fake := pods.foldl Fake.failover w.fake }
  obtain ⟨w₁, c₁, hexec, hrest, hsame, -, -⟩ :=
    exec_reconcileCluster_sharded (w := w₀) order hloose hc hsets
  obtain ⟨c₂, hrest', hsame', hfake, hsets', hstatus⟩ := hrest.clusterPass order
  rw [clusterPass_eq (w := w₀) hc hexec]
  exact ⟨owner', c₁, hrest.stored, hsame, hrest.healthy, hrest.sets, hrest.ready.1, hfake,
    hsets'.1, c₂, hrest'.stored, hsame', hstatus⟩

end

/-- One shard with one replica. -/
def pair : ValkeyCluster where
  name := "pair"
  nspace := "default"
  spec := { shards := 1, replicasPerShard := 1 }

def pairWorld : World where
  fake := (Fake.empty.addSlots (endpoint pair 0 0) [⟨0, 16383⟩]).replicate (endpoint pair 0 1)
    (podFQDN pair 0 0)
  kube := .provisioned pair
  ranges := 0

theorem desiredSets_pair : DesiredSets pair (.provisioned pair) :=
  desiredSets_provisioned (numbered_of_le (by decide))

theorem healthy_pair :
    Healthy pair (fun _ => 0) (fun _ => [⟨0, 16383⟩]) pairWorld.fake where
  owner_le := fun _ _ => Nat.zero_le _
  serving := fun _ _ => by decide
  total := by decide
  pod := by
    intro i hi j hj
    obtain rfl : i = 0 := Nat.lt_one_iff.1 hi
    obtain rfl | rfl : j = 0 ∨ j = 1 := by
      have : j ≤ 1 := hj
      omega
    · exact ⟨_, rfl, inShard_owner ⟨rfl, rfl⟩ rfl rfl rfl⟩
    · exact ⟨_, rfl, inShard_rest ⟨rfl, rfl⟩ (by decide) rfl ⟨rfl, rfl⟩⟩
  only := by
    intro key hkey
    have hkeys : pairWorld.fake.nodes.keys = [podFQDN pair 0 1, podFQDN pair 0 0] := rfl
    rw [AList.mem_keys, hkeys, List.mem_cons, List.mem_singleton] at hkey
    rcases hkey with rfl | rfl
    · exact ⟨0, by decide, 1, by decide, rfl⟩
    · exact ⟨0, by decide, 0, by decide, rfl⟩

/-- The replica has taken over. -/
theorem failovers_healed_pair :
    ∃ owner c, Healthy c owner (fun _ => [⟨0, 16383⟩]) (World.clusterPass (fun _ => asWritten)
        { pairWorld with fake := [endpoint pair 0 1].foldl Fake.failover pairWorld.fake }).fake ∧
      c.status.phase = some .ready := by
  obtain ⟨owner, c, -, -, hhealthy, -, hphase, -⟩ := failovers_healed (fun _ => asWritten)
    (w := pairWorld) (c := pair) rfl desiredSets_pair healthy_pair [endpoint pair 0 1]
  exact ⟨owner, c, hhealthy, hphase⟩

end Valkeyop.Controller
