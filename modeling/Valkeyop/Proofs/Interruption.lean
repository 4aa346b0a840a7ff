import Valkeyop.Lib.Interrupted
import Valkeyop.Proofs.FakeRuns
import Valkeyop.Proofs.PassCalls
import Valkeyop.Proofs.ScaleInProgress

/-!
# Scaling out with moves that break off

A pass gives up at the first move that breaks off, so it is a pass on the in-memory
cluster up to there. Between passes nothing is remembered but the slots: the next one
takes every shard that owns a slot for one that has been filled, and goes on with the
first that owns none. What it does to the others is what it would do anyway.

So a shard that was left with a part of its share keeps just that part. The fattest
primary has more than a share as long as a new shard lacks something, which is why a new
shard is never robbed to fill another; for the same reason none ever gets more.
-/

namespace Valkeyop.Controller

open Valkeyop.Lib Valkeyop.Lib.Fallible Valkeyop.Cluster Valkeyop.Api Valkeyop.Resources

/-! ## Giving up -/

/-- The reply to a move that broke off. -/
def Broken : (c : Call) → c.Reply → Prop
  | .admin (.moveSlots ..), r => r.2 ≠ none
  | _, _ => False

section

variable {cr : ValkeyCluster} {α : Type}

/-- The call does not break off. -/
def Firm (c : Call) : Prop := ∀ r, ¬ Broken c r

theorem Routine.firm {c : Call} (hc : Routine c) : Firm c := by
  intro r
  unfold Broken
  split
  · exact hc.elim
  · exact id

theorem aborts_firm {p : Act α} (hp : Prog.Only Firm p.run) : Aborts Broken p :=
  aborts_of_only hp fun _ r hc => hc r

theorem aborts_routine {p : Act α} (hp : Prog.Only Routine p.run) : Aborts Broken p :=
  aborts_firm (hp.mono fun _ => Routine.firm)

/-- A move whose error is passed on. -/
theorem aborts_moveSlots_bind {ep : Endpoint} {source target : String} {n : Int}
    {f : Int × Option Err → Act α} (hsome : ∀ moved e, ∃ e', f (moved, some e) = throw e')
    (hnone : ∀ moved, Aborts Broken (f (moved, none))) :
    Aborts Broken (liftM (Admin.moveSlots ep source target n) >>= f) := by
  refine aborts_op_bind (fun reply hreply => ?_) fun reply => ?_
  · obtain ⟨moved, e⟩ := reply
    cases e with
    | some e => exact hsome moved e
    | none => exact absurd rfl hreply
  · obtain ⟨moved, e⟩ := reply
    cases e with
    | some e =>
        obtain ⟨e', he'⟩ := hsome moved e
        rw [he']
        exact aborts_throw _
    | none => exact hnone moved

theorem aborts_fillShard (ep : Endpoint) (shard : Nat) (id : String) :
    ∀ fuel need idx, Aborts Broken (fillShard ep shard id fuel need idx) := by
  intro fuel
  induction fuel with
  | zero => intro need idx; exact aborts_pure _
  | succ fuel ih =>
      intro need idx
      unfold fillShard
      split
      · exact aborts_pure _
      refine aborts_bind (aborts_routine (only_lift (routine_fattestPrimary idx id))) fun src => ?_
      obtain ⟨srcID, srcSlots⟩ := src
      simp only []
      split
      · exact aborts_pure _
      refine aborts_moveSlots_bind (fun _ _ => ⟨_, rfl⟩) fun moved => ?_
      simp only []
      split
      · exact aborts_pure _
      · exact aborts_bind (aborts_routine (Prog.only_op.2 trivial)) fun st => ih _ _

theorem aborts_scaleOut (oldShards : Nat) : Aborts Broken (scaleOut cr oldShards) := by
  have hstate : Aborts Broken (Admin.state (seed cr)) := aborts_routine (Prog.only_op.2 trivial)
  have hattach : ∀ state, Aborts Broken (attachReplicas cr state) := fun state =>
    aborts_routine (routine_attachReplicas state)
  have hfill : ∀ i, Aborts Broken (fillNewShard cr i) := fun i =>
    aborts_bind (aborts_routine (routine_newPrimaryID i)) fun id =>
      aborts_bind hstate fun st => aborts_fillShard ..
  exact aborts_bind (aborts_forM fun i _ => aborts_routine (routine_joinShard i)) fun _ =>
    aborts_bind hstate fun st => aborts_bind (hattach st) fun _ =>
      aborts_bind (aborts_forM fun i _ => hfill i) fun _ =>
        aborts_bind hstate fun st => hattach st

theorem aborts_drainShard (shard : Nat) (idx : NodeMap) (departID : String) :
    Aborts Broken (drainShard cr shard idx departID) := by
  have hfirst : (firstSurvivorPrimary cr idx departID (List.range cr.spec.shards)).Only Routine :=
    only_firstSurvivorPrimary (fun _ => trivial) departID _
  refine aborts_bind (aborts_routine (only_lift hfirst)) fun survID => ?_
  split
  · exact aborts_throw _
  exact aborts_moveSlots_bind (fun _ _ => ⟨_, rfl⟩) fun _ => aborts_pure _

theorem aborts_removeShards (idxs : List Nat) : Aborts Broken (removeShards cr idxs) := by
  induction idxs with
  | nil => exact aborts_pure _
  | cons i idxs ih =>
      unfold removeShards
      split
      · exact ih
      refine aborts_bind (aborts_routine (Prog.only_op.2 trivial)) fun st =>
        aborts_bind (aborts_routine (only_lift (routine_findShardPrimary _ i))) fun found => ?_
      obtain ⟨departID, ord⟩ := found
      simp only []
      split
      · exact aborts_drainShard ..
      · exact aborts_bind (aborts_routine (only_lift (routine_forgetShard i))) fun _ =>
          aborts_bind (aborts_firm (only_deleteShard (fun _ => Routine.firm) (fun _ _ _ => id)
            (fun _ _ => id) i)) fun _ => ih

theorem aborts_act (state : ClusterState) (observed : Topology.Observed)
    (kind : Topology.ActionKind) : Aborts Broken (act cr state observed kind) := by
  have hannounce : ∀ phase reason msg,
      Aborts Broken (liftM (announce cr phase reason msg) : Act Unit) := fun phase reason msg =>
    aborts_routine (only_lift (routine_announce phase reason msg))
  have hmember : Aborts Broken (reconcileMembership cr state) :=
    aborts_routine (routine_reconcileMembership state)
  cases kind with
  | form =>
      exact aborts_bind (hannounce _ _ _) fun _ => aborts_firm (only_formCluster (fun _ _ _ => id)
        (fun _ _ _ => id) (fun _ _ => id) (fun _ _ => id) (fun _ _ _ => id))
  | repair =>
      exact aborts_bind (hannounce _ _ _) fun _ =>
        aborts_bind (aborts_routine (only_lift (Prog.only_op.2 trivial))) fun _ => aborts_pure _
  | scaleOutShards => exact aborts_bind (hannounce _ _ _) fun _ => aborts_scaleOut _
  | scaleInShards =>
      exact aborts_bind (hannounce _ _ _) fun _ =>
        aborts_bind (aborts_routine routine_sweep) fun _ =>
        aborts_bind (aborts_routine (only_existingShardIndexes trivial)) fun _ =>
          aborts_removeShards _
  | scaleReplicas => exact aborts_bind (hannounce _ _ _) fun _ => hmember
  | none => exact hmember

theorem aborts_reconcileCluster : Aborts Broken (reconcileCluster cr) :=
  aborts_bind (aborts_routine (only_wrap _ (Prog.only_op.2 trivial))) fun _ =>
    aborts_bind (aborts_routine (routine_choosePlan _)) fun _ =>
      aborts_bind (aborts_act ..) fun _ =>
        aborts_bind (aborts_routine (only_wrap _ (Prog.only_op.2 trivial))) fun state =>
          aborts_bind (aborts_routine (routine_updateStatus state)) fun _ => aborts_pure _

theorem firm_ensureFinalizer : Prog.Only Firm (ensureFinalizer cr).run := by
  unfold ensureFinalizer
  split
  · exact Prog.only_pure _
  · exact Prog.only_op.2 fun _ => id

theorem firm_provision : Prog.Only Firm (provision cr).run :=
  only_bind (Prog.only_op.2 fun _ => id) fun _ => only_bind (Prog.only_op.2 fun _ => id) fun _ =>
    only_bind (only_forM fun _ _ => Prog.only_op.2 fun _ => id) fun _ =>
      routine_shardsReady.mono fun _ => Routine.firm

theorem firm_reconcileDelete : Prog.Only Firm (reconcileDelete cr).run := by
  unfold reconcileDelete
  split
  · exact only_bind (only_bind (Prog.only_op.2 fun _ => id) fun _ => only_forM fun _ _ =>
      only_ignoreNotFound (Prog.only_op.2 fun _ => id)) fun _ =>
        only_bind (Prog.only_op.2 fun _ => id) fun _ => Prog.only_pure _
  · exact Prog.only_pure _

/-- A pass ends with the move that breaks off. -/
theorem quits_reconcile (name nspace : String) :
    (reconcile name nspace).run.Quits Broken fun _ => True := by
  have hfirm : ∀ c r, Firm c → ¬ Broken c r := fun _ r hc => hc r
  have hlive : ∀ cr, (reconcileLive cr).run.Quits Broken fun _ => True := by
    intro cr
    refine quits_only_bind firm_ensureFinalizer hfirm fun cr => ?_
    rw [provision_bind]
    refine quits_only_bind firm_provision hfirm fun ready => ?_
    cases ready with
    | false =>
        refine Prog.Only.quits (P := Routine) ?_ fun _ r hc => hc.firm r
        exact only_bind (only_lift (routine_announce ..)) fun _ => Prog.only_pure _
    | true =>
        refine quits_attempt_bind aborts_reconcileCluster (fun r => ?_) fun e => ⟨_, rfl⟩
        cases r with
        | ok progressing => trivial
        | error e => trivial
  refine quits_only_bind (P := Routine) (only_lift (Prog.only_op.2 trivial))
    (fun _ r hc => hc.firm r) fun found => ?_
  cases found with
  | error e =>
      simp only []
      split
      · trivial
      · trivial
  | ok cr =>
      simp only []
      split
      · exact firm_reconcileDelete.quits hfirm
      · exact hlive cr

end

/-! ## Placements on the way out -/

namespace Placement

open Finset

/-- On the way from `old` shards to `n`: the first shards own all the slots, the old ones
among them, and no other than those has more than its share. -/
structure Growing (old n : ℕ) (p : Placement) : Prop where
  total : p.total = slotSpace
  owners : ∃ m, old ≤ m ∧ m ≤ n ∧ p.owners = range m
  share : ∀ i, old ≤ i → p.slots i ≤ slotSpace / n

/-- What a pass that gets through does to the shards that are not old. -/
def Topped (old n : ℕ) (p : Placement) (slots : ℕ → ℕ) : Prop :=
  ∀ i, old ≤ i → slots i = p.slots i ∨ p.owners.card ≤ i ∧ slots i = slotSpace / n

section

variable {old n a b k x i : ℕ} {p p' q q' : Placement}

theorem Growing.pos_iff (hp : p.Growing old n) : 0 < p.slots i ↔ i < p.owners.card := by
  obtain ⟨m, -, -, howners⟩ := hp.owners
  rw [← mem_owners, howners, card_range, mem_range]

theorem Growing.old_le (hp : p.Growing old n) : old ≤ p.owners.card := by
  obtain ⟨m, hold, -, howners⟩ := hp.owners
  rwa [howners, card_range]

theorem Growing.card_le (hp : p.Growing old n) : p.owners.card ≤ n := by
  obtain ⟨m, -, hm, howners⟩ := hp.owners
  rwa [howners, card_range]

theorem Growing.provision (hp : p.Growing old n) : (p.provision n).Growing old n := by
  refine ⟨(total_provision n p).trans hp.total, ?_, hp.share⟩
  rw [owners_provision]
  exact hp.owners

theorem Topped.of_provision {slots : ℕ → ℕ} (h : (p.provision n).Topped old n slots) :
    p.Topped old n slots := by
  intro i hi
  rw [← owners_provision n p]
  exact h i hi

theorem Topped.share (h : p.Topped old n q.slots) (hp : p.Growing old n) (hi : old ≤ i) :
    q.slots i ≤ slotSpace / n := by
  rcases h i hi with heq | ⟨-, heq⟩
  · rw [heq]
    exact hp.share i hi
  · exact heq.le

/-- No new shard is robbed. -/
theorem Fills.donor_lt (h : Fills n p q a b k) (hp : p.Growing old n)
    (hq : p.Topped old n q.slots) : a < old := by
  have hlt := share_lt_fattest (h.filled.total.trans h.total)
    (h.filled.card_others_lt h.old h.lt) h.max h.need
  by_contra hge
  have := hq.share hp (Nat.le_of_not_lt hge)
  omega

/-- The shard that is filled owned nothing. -/
theorem Fills.empty (h : Fills n p q a b k) (hp : p.Growing old n) : q.slots b = 0 := by
  have hold := h.old
  have := (h.filled.owners b).not
  rw [hp.pos_iff] at this
  omega

/-- Wherever a move breaks off, the placement is still on its way. -/
theorem Growing.moved (hp : p.Growing old n) (h : Fills n p q a b k)
    (hq : p.Topped old n q.slots) (hx : x ≤ k) (hslots : q'.slots = moved q.slots a b x) :
    q'.Growing old n := by
  have hdonor := h.donor_lt hp hq
  have hempty := h.empty hp
  have hold := hp.old_le
  have hfat := share_lt_fattest (h.filled.total.trans h.total)
    (h.filled.card_others_lt h.old h.lt) h.max h.need
  obtain ⟨hnew, hlt, hneed, hamount⟩ := And.intro h.old (And.intro h.lt (And.intro h.need h.amount))
  have hn : n ≤ slotSpace := by
    by_contra hgt
    rw [Nat.div_eq_of_lt (by omega)] at hneed
    omega
  have htarget : q'.slots b = x := by
    rw [hslots, moved_target]
    omega
  have hothers : ∀ i, i ≠ b → (0 < q'.slots i ↔ i < b) := by
    intro i hib
    have hfilled := h.filled.owners i
    rw [hp.pos_iff] at hfilled
    rw [hslots]
    by_cases hia : i = a
    · rw [hia, moved_source h.ne]
      omega
    · rw [moved_other hia hib]
      omega
  refine ⟨?_, ⟨if x = 0 then b else b + 1, ?_, ?_, ?_⟩, fun i hi => ?_⟩
  · rw [total_moved h.ne (by omega) hslots]
    exact h.filled.total.trans h.total
  · split <;> omega
  · split <;> omega
  · ext i
    rw [mem_owners, mem_range]
    by_cases hib : i = b
    · rw [hib, htarget]
      split <;> omega
    · rw [hothers i hib]
      split <;> omega
  · by_cases hib : i = b
    · rw [hib, htarget]
      omega
    · rw [hslots, moved_other (by omega) hib]
      exact hq.share hp hi

/-- A move that gets through fills its shard. -/
theorem Topped.moved (hq : p.Topped old n q.slots) (hp : p.Growing old n)
    (h : Fills n p q a b k) (hslots : q'.slots = moved q.slots a b k) :
    p.Topped old n q'.slots := by
  have hdonor := h.donor_lt hp hq
  intro i hi
  rw [hslots]
  by_cases hib : i = b
  · refine .inr ⟨hib ▸ h.old, ?_⟩
    have hneed := h.need
    rw [hib, moved_target, h.amount]
    omega
  · rw [moved_other (by omega) hib]
    exact hq i hi

theorem Growing.pass (hp : p.Growing old n) (h : Pass n p p') (htopped : p.Topped old n p'.slots) :
    p'.Growing old n := by
  have hold := hp.old_le
  have hcard := hp.card_le
  cases h with
  | form htotal => exact absurd (htotal.symm.trans hp.total) (by decide)
  | repair _ hpart => exact absurd hp.total hpart
  | out _ _ _ htotal' howners =>
      refine ⟨htotal', ⟨if n ≤ slotSpace then n else p.owners.card, ?_, ?_, ?_⟩,
        fun i hi => htopped.share hp hi⟩
      · split <;> omega
      · split <;> omega
      · ext i
        rw [mem_owners, mem_range, howners, hp.pos_iff]
        split <;> omega
  | drain i _ _ hi hslot =>
      have := hp.pos_iff.1 hslot
      omega
  | clear _ _ _ _ hslots =>
      have howners : p'.owners = p.owners := owners_congr fun i => by rw [hslots]
      exact ⟨(total_congr hslots).trans hp.total, howners ▸ hp.owners,
        fun i hi => htopped.share hp hi⟩

/-- A pass that gets through fills the shards that own nothing. -/
theorem Growing.filled (hp : p.Growing old n) (h : Pass n p p') (htopped : p.Topped old n p'.slots)
    (hi : old ≤ i) (hlt : i < n) (hnone : p.slots i = 0) : slotSpace / n ≤ p'.slots i := by
  have hcard : p.owners.card ≤ i := Nat.le_of_not_lt (hp.pos_iff.not.1 (by omega))
  rcases htopped i hi with heq | ⟨-, heq⟩
  · -- it is left without slots only if there are not enough for all
    cases h with
    | form htotal => exact absurd (htotal.symm.trans hp.total) (by decide)
    | repair _ hpart => exact absurd hp.total hpart
    | out _ _ _ _ howners =>
        have := howners i
        rw [Nat.div_eq_of_lt (by omega)]
        exact Nat.zero_le _
    | drain _ _ hmany => omega
    | clear _ hmany => omega
  · exact heq.ge

/-- A shard that owns slots is taken for one that is filled. -/
theorem Growing.kept (hp : p.Growing old n) (htopped : p.Topped old n p'.slots) (hi : old ≤ i)
    (hpos : 0 < p.slots i) : p'.slots i = p.slots i := by
  have := hp.pos_iff.1 hpos
  exact (htopped i hi).resolve_right fun ⟨hge, _⟩ => by omega

end

end Placement

/-! ## One call -/

section

variable {f : Fake} {key : String} {w : World} {order : RangeOrders} {call : Call}

theorem slotCount_ensure (f : Fake) (e : Endpoint) (key : String) :
    (NodeMap.get (f.ensure e).nodes key).slotCount = (NodeMap.get f.nodes key).slotCount := by
  rw [NodeMap.get, NodeMap.get]
  by_cases hkey : key = e.host
  · rw [hkey, lookup_ensure_self]
    cases f.nodes.lookup e.host with
    | none => rfl
    | some n => rfl
  · rw [lookup_ensure_ne hkey]

theorem slotCount_replicate {replica : Endpoint} (id : String)
    (hnone : (NodeMap.get f.nodes replica.host).slotCount = 0) :
    (NodeMap.get (f.replicate replica id).nodes key).slotCount =
      (NodeMap.get f.nodes key).slotCount := by
  by_cases hkey : key = replica.host
  · subst hkey
    rw [hnone, NodeMap.get, Fake.replicate, lookup_modify_self]
    cases (f.ensure replica).nodes.lookup replica.host with
    | none => rfl
    | some n => rfl
  · rw [← slotCount_ensure f replica, NodeMap.get, NodeMap.get, Fake.replicate,
      lookup_modify_ne hkey]

theorem slotCount_forget {id : String} (hnone : (NodeMap.get f.nodes id).slotCount = 0) :
    (NodeMap.get (f.forget id).nodes key).slotCount = (NodeMap.get f.nodes key).slotCount := by
  by_cases hkey : key = id
  · subst hkey
    rw [hnone, NodeMap.get, lookup_forget_self]
    rfl
  · rw [NodeMap.get, NodeMap.get, lookup_forget_ne hkey]

/-- The other calls leave everybody's slots alone. -/
theorem Still.slotCount (hstill : Still call) (hspared : Spared call w) (key : String) :
    (NodeMap.get (World.answer order call w).2.fake.nodes key).slotCount =
      (NodeMap.get w.fake.nodes key).slotCount := by
  cases call with
  | kube c => rfl
  | rangeOver m => rfl
  | admin c =>
      cases c with
      | state ep => rfl
      | repairSlots ep => rfl
      | myID ep => exact slotCount_ensure w.fake ep key
      | meet source target =>
          exact (slotCount_ensure _ target key).trans (slotCount_ensure w.fake source key)
      | replicate replica id => exact slotCount_replicate id hspared
      | forget ep id => exact slotCount_forget hspared
      | addSlots ep ranges => exact hstill.elim
      | moveSlots ep source target n => exact hstill.elim
      | failover ep => exact hstill.elim
      | rebalance ep opts => exact hstill.elim
      | reshard ep source target n => exact hstill.elim
      | fix ep => exact hstill.elim

theorem Still.flaky (hstill : Still call) (fates : Fates) (s : Flaky) :
    Flaky.answer order fates call s =
      ((World.answer order call s.world).1,
        { s with world := (World.answer order call s.world).2 }) := by
  cases call with
  | kube c => rfl
  | rangeOver m => rfl
  | admin c =>
      cases c with
      | moveSlots ep source target n => exact hstill.elim
      | _ => rfl

end

section

variable {cr c : ValkeyCluster} {w : World} {p q : Placement} {old a b k x : Nat}
  {order : RangeOrders} {fates : Fates} {call : Call} {s : Flaky}

/-- What a pass on the way out may call: slots move only to fill a new shard. -/
theorem Careful.on_way (hc : Careful c p call w) (hp : p.Growing old c.spec.shards) :
    Still call ∧ Spared call w ∨ ∃ ep q a b, ∃ k : Nat,
      call = .admin (.moveSlots ep (podFQDN c a 0) (podFQDN c b 0) (k : Int)) ∧
      Movable c w q a b k ∧ Placement.Fills c.spec.shards p q a b k ∧ Stored c w := by
  have hspared := hc.spared
  cases call with
  | kube c => exact .inl ⟨trivial, hspared⟩
  | rangeOver m => exact .inl ⟨trivial, hspared⟩
  | admin e =>
      cases e with
      | addSlots ep ranges => exact absurd (hp.total.symm.trans hc) (by decide)
      | moveSlots ep source target n =>
          obtain ⟨q, a, b, k, hmovable, hwanted, rfl, rfl, rfl⟩ := hc
          rcases hwanted with ⟨hfills, hstored⟩ | ⟨hge, hpos⟩
          · exact .inr ⟨ep, q, a, b, k, rfl, hmovable, hfills, hstored⟩
          · have hlt := hp.pos_iff.1 hpos
            have hcard := hp.card_le
            omega
      | failover ep => exact hc.elim
      | rebalance ep opts => exact hc.elim
      | reshard ep source target n => exact hc.elim
      | fix ep => exact hc.elim
      | _ => exact .inl ⟨trivial, hspared⟩

/-- The resource is as it was, and the placement on its way. -/
def OnWay (cr : ValkeyCluster) (spec : ValkeyClusterSpec) (old : Nat) (w : World)
    (p : Placement) : Prop :=
  p.Growing old spec.shards ∧ ∃ c, Tracked cr w c p ∧ c.spec = spec

/-- A move that stops after `x` slots. -/
theorem Tracked.stopped {w₀ : World} {p₀ : Placement} (h : Tracked cr w₀ c p₀)
    (hmovable : Movable c w q a b k) (hfills : Placement.Fills c.spec.shards p q a b k)
    (hstored : Stored c w) (hp : p.Growing old c.spec.shards)
    (hq : p.Topped old c.spec.shards q.slots) (hx : x ≤ k) :
    ∃ q', OnWay cr c.spec old
      { w with fake := (w.fake.moveSlots (podFQDN c a 0) (podFQDN c b 0) x).2 } q' ∧
      q'.slots = Placement.moved q.slots a b x := by
  have hle : x ≤ q.slots a := hx.trans hmovable.le
  obtain ⟨-, q', hplaced, -, hslots⟩ := Movable.moveSlots { hmovable with le := hle }
  have hgrowing := hp.moved hfills hq hx hslots
  obtain ⟨latest, hcluster, hsame⟩ := hstored
  exact ⟨q', ⟨hgrowing, latest, ⟨hcluster, hsame.name.trans h.name, hsame.nspace.trans h.nspace,
    hsame.deletion.trans h.alive, hsame.spec ▸ h.shards, hsame.spec ▸ h.numbered,
    hplaced.congr hsame.name hsame.nspace, .inr (.inl hgrowing.total)⟩, hsame.spec⟩, hslots⟩

theorem Flaky.answer_through {ep : Endpoint} {source target : String} {n : Int}
    (h : breaksAt fates s.moves n = none) :
    answer order fates (.admin (.moveSlots ep source target n)) s =
      ((World.answer order (.admin (.moveSlots ep source target n)) s.world).1,
        ⟨(World.answer order (.admin (.moveSlots ep source target n)) s.world).2,
          s.moves + 1⟩) := by
  simp only [answer, h]

theorem Flaky.answer_stopped (ep : Endpoint) (source target : String) {n : Int}
    (h : breaksAt fates s.moves n = some x) :
    ∃ e, answer order fates (.admin (.moveSlots ep source target n)) s =
      (((s.world.fake.moveSlots source target x).1, some e),
        ⟨{ s.world with fake := (s.world.fake.moveSlots source target x).2 }, s.moves + 1⟩) := by
  simp only [answer, h]
  exact ⟨_, rfl⟩

/-- A call of a pass on the way out moves no slots, or fills a new shard, or breaks off
with a part of the share moved. -/
theorem Tracked.flaky_answer {w₀ : World} {p₀ : Placement} (h : Tracked cr w₀ c p₀)
    (hp : p.Growing old c.spec.shards) (hc : Careful c p call s.world)
    (htopped : p.Topped old c.spec.shards (shardSlots c s.world)) :
    let r := Flaky.answer order fates call s
    (World.answer order call s.world = (r.1, r.2.world) ∧
        shardSlots c r.2.world = shardSlots c s.world ∧ r.2.moves = s.moves) ∨
    (World.answer order call s.world = (r.1, r.2.world) ∧
        p.Topped old c.spec.shards (shardSlots c r.2.world) ∧ r.2.moves = s.moves + 1 ∧
        ∀ x ∈ fates s.moves, slotSpace / c.spec.shards ≤ x) ∨
    (Broken call r.1 ∧ r.2.moves = s.moves + 1 ∧ ∃ x ∈ fates s.moves, ∃ q a b,
        OnWay cr c.spec old r.2.world q ∧ old ≤ b ∧ b < c.spec.shards ∧ q.slots b = x ∧
        q.slots = Placement.moved (shardSlots c s.world) a b x ∧
        x < slotSpace / c.spec.shards) := by
  intro r
  rcases hc.on_way hp with ⟨hstill, hspared⟩ | ⟨ep, q, a, b, k, rfl, hmovable, hfills, hstored⟩
  · have hr : r = _ := hstill.flaky fates s
    rw [hr]
    refine .inl ⟨rfl, funext fun i => ?_, rfl⟩
    rw [shardSlots, shardSlots, hstill.slotCount hspared]
  have hq : p.Topped old c.spec.shards q.slots := funext hmovable.placed.shardSlots ▸ htopped
  have hk : k = slotSpace / c.spec.shards := by
    rw [hfills.amount, hfills.empty hp, Nat.sub_zero]
  cases hbreak : Flaky.breaksAt fates s.moves k with
  | none =>
      have hr : r = _ := Flaky.answer_through hbreak
      obtain ⟨-, q', hplaced, -, hslots⟩ := hmovable.moveSlots
      rw [hr]
      refine .inr (.inl ⟨rfl, ?_, rfl, fun x hx => ?_⟩)
      · have htopped' := hq.moved hp hfills hslots
        rw [← funext hplaced.shardSlots] at htopped'
        exact htopped'
      · have hnot := Option.filter_eq_none_iff.1 hbreak x hx
        rw [decide_eq_true_iff] at hnot
        omega
  | some x =>
      have hanswer : ∃ e, r = _ := Flaky.answer_stopped ep _ _ hbreak
      obtain ⟨e, hr⟩ := hanswer
      obtain ⟨hx, hlt⟩ := Option.filter_eq_some_iff.1 hbreak
      rw [decide_eq_true_iff] at hlt
      have hlt : x < k := by omega
      obtain ⟨q', hq', hslots⟩ := h.stopped hmovable hfills hstored hp hq hlt.le
      rw [hr]
      refine .inr (.inr ⟨Option.some_ne_none e, rfl, x, hx, q', a, b, hq', ?_, hfills.lt, ?_, ?_,
        by omega⟩)
      · exact hp.old_le.trans hfills.old
      · rw [hslots, Placement.moved_target, hfills.empty hp, Nat.zero_add]
      · rw [hslots, funext hmovable.placed.shardSlots]

/-! ## One pass -/

/-- A pass gets through as it would with moves that never break off, or ends with one. -/
theorem Tracked.flaky_pass (h : Tracked cr s.world c p) (order : RangeOrders) (fates : Fates)
    {I J : Flaky → Prop}
    (hstep : ∀ call s₁, I s₁ → Careful c (p.provision c.spec.shards) call s₁.world →
      World.answer order call s₁.world =
          ((Flaky.answer order fates call s₁).1, (Flaky.answer order fates call s₁).2.world) ∧
        I (Flaky.answer order fates call s₁).2 ∨
      Broken call (Flaky.answer order fates call s₁).1 ∧ J (Flaky.answer order fates call s₁).2)
    (hs : I s) :
    (∃ c' p', Tracked cr (Flaky.pass order fates cr s).world c' p' ∧
      Passed c p (Flaky.pass order fates cr s).world c' p') ∧ I (Flaky.pass order fates cr s) ∨
    J (Flaky.pass order fates cr s) := by
  have hruns : Prog.Runs (World.answer order) (Careful c (p.provision c.spec.shards))
      (fun _ w' => ∃ c' p', Tracked cr w' c' p' ∧ Passed c p w' c' p')
      (reconcile cr.name cr.nspace).run s.world :=
    (h.succeeds_reconcile order).runs fun _ _ hpassed => hpassed
  exact hruns.interrupted (Flaky.answer order fates) Flaky.world hstep
    (quits_reconcile cr.name cr.nspace) hs

variable {spec : ValkeyClusterSpec}

theorem OnWay.slots_eq (h : OnWay cr spec old w p) (i : Nat) : shardSlots cr w i = p.slots i := by
  obtain ⟨-, c, hc, -⟩ := h
  rw [← hc.placed.shardSlots, shardSlots, shardSlots, podFQDN_congr hc.name hc.nspace]

/-- A pass leaves what it should, or a move of it has broken off. -/
theorem OnWay.pass (h : OnWay cr spec old s.world p) (order : RangeOrders) (fates : Fates) :
    (∃ p', OnWay cr spec old (Flaky.pass order fates cr s).world p' ∧
      Placement.Pass spec.shards p p' ∧ p.Topped old spec.shards p'.slots ∧
      s.moves ≤ (Flaky.pass order fates cr s).moves) ∨
    (∃ q, OnWay cr spec old (Flaky.pass order fates cr s).world q) ∧
      ∃ m, s.moves ≤ m ∧ fates m ≠ none := by
  obtain ⟨hp, c, hc, rfl⟩ := h
  have hpass := hc.flaky_pass order fates
    (I := fun s₁ => (p.provision c.spec.shards).Topped old c.spec.shards (shardSlots c s₁.world) ∧
      s.moves ≤ s₁.moves)
    (J := fun s₁ => (∃ q, OnWay cr c.spec old s₁.world q) ∧ ∃ m, s.moves ≤ m ∧ fates m ≠ none)
    (fun call s₁ ⟨htopped, hmoves⟩ hcareful => ?_)
    ⟨fun i _ => .inl (hc.placed.shardSlots i), le_rfl⟩
  · rcases hpass with ⟨⟨c', p', hc', hpassed⟩, htopped, hmoves⟩ | hbroken
    · rw [funext hpassed.placed.shardSlots] at htopped
      have htopped := htopped.of_provision
      exact .inl ⟨p', ⟨hp.pass hpassed.pass htopped, c', hc', hpassed.same.spec⟩, hpassed.pass,
        htopped, hmoves⟩
    · exact .inr hbroken
  · rcases hc.flaky_answer hp.provision hcareful htopped with
      ⟨hsame, hslots, hcount⟩ | ⟨hsame, htopped', hcount, -⟩ | ⟨hbroken, -, x, hx, q, -, b, hq, -⟩
    · exact .inl ⟨hsame, hslots ▸ htopped, hcount ▸ hmoves⟩
    · exact .inl ⟨hsame, htopped', by omega⟩
    · exact .inr ⟨hbroken, ⟨q, hq⟩, s₁.moves, hmoves, fun hnone => by simp [hnone] at hx⟩

/-- If the first move of a pass has to break off, and a shard is missing, it does. -/
theorem OnWay.pass_stopped (h : OnWay cr spec old s.world p) (order : RangeOrders)
    (hx : fates s.moves = some x) (hlt : x < slotSpace / spec.shards)
    (hmissing : p.owners.card < spec.shards) :
    (Flaky.pass order fates cr s).moves = s.moves + 1 ∧
      ∃ q a b, OnWay cr spec old (Flaky.pass order fates cr s).world q ∧ old ≤ b ∧
        b < spec.shards ∧ q.slots b = x ∧ q.slots = Placement.moved p.slots a b x := by
  obtain ⟨hp, c, hc, rfl⟩ := h
  have hpass := hc.flaky_pass order fates
    (I := fun s₁ => shardSlots c s₁.world = p.slots ∧ s₁.moves = s.moves)
    (J := fun s₁ => s₁.moves = s.moves + 1 ∧ ∃ q a b, OnWay cr c.spec old s₁.world q ∧ old ≤ b ∧
      b < c.spec.shards ∧ q.slots b = x ∧ q.slots = Placement.moved p.slots a b x)
    (fun call s₁ ⟨hslots, hmoves⟩ hcareful => ?_) ⟨funext hc.placed.shardSlots, rfl⟩
  · rcases hpass with ⟨⟨c', p', hc', hpassed⟩, hslots, -⟩ | hbroken
    · -- without a move the missing shard would still own nothing
      rw [funext hpassed.placed.shardSlots] at hslots
      have hnone : p.slots p.owners.card = 0 :=
        Nat.eq_zero_of_not_pos (hp.pos_iff.not.2 (lt_irrefl _))
      have hfilled := hp.filled hpassed.pass (fun i _ => .inl (congrFun hslots i)) hp.old_le
        hmissing hnone
      rw [hslots, hnone] at hfilled
      omega
    · exact hbroken
  · have htopped : (p.provision c.spec.shards).Topped old c.spec.shards (shardSlots c s₁.world) :=
      fun i _ => .inl (congrFun hslots i)
    rcases hc.flaky_answer hp.provision hcareful htopped with
      ⟨hsame, hslots', hcount⟩ | ⟨-, -, -, hfate⟩ | ⟨hbroken, hcount, x', hx', q, a, b, hq, hb⟩
    · exact .inl ⟨hsame, hslots'.trans hslots, hcount.trans hmoves⟩
    · have := hfate x (hmoves ▸ hx)
      omega
    · rw [hmoves, hx] at hx'
      obtain rfl := Option.some.inj hx'
      rw [hslots] at hb
      exact .inr ⟨hbroken, hmoves ▸ hcount, q, a, b, hq, hb.1, hb.2.1, hb.2.2.1, hb.2.2.2.1⟩

/-! ## Passes over and over -/

theorem OnWay.iterate (h : OnWay cr spec old s.world p) (order : RangeOrders) (fates : Fates)
    (k : Nat) : ∃ q, OnWay cr spec old ((Flaky.pass order fates cr)^[k] s).world q := by
  induction k generalizing s p with
  | zero => exact ⟨p, h⟩
  | succ k ih =>
      rcases h.pass order fates with ⟨p', hp', -⟩ | ⟨⟨q, hq⟩, -⟩
      · exact ih hp'
      · exact ih hq

/-- No move breaks off any more. -/
def Flaky.Calm (fates : Fates) (s : Flaky) : Prop := ∀ m, s.moves ≤ m → fates m = none

theorem simulated_calm (cr : ValkeyCluster) (spec : ValkeyClusterSpec) (old : Nat)
    (order : RangeOrders) (fates : Fates) :
    Simulated (Flaky.pass order fates cr)
      (fun s p => OnWay cr spec old s.world p ∧ s.Calm fates)
      (fun p p' => p.Growing old spec.shards ∧ Placement.Pass spec.shards p p' ∧
        p.Topped old spec.shards p'.slots) := by
  intro s p ⟨h, hcalm⟩
  rcases h.pass order fates with ⟨p', hp', hpass, htopped, hmoves⟩ | ⟨-, m, hm, hfate⟩
  · exact ⟨p', ⟨hp', fun m hm => hcalm m (hmoves.trans hm)⟩, h.1, hpass, htopped⟩
  · exact absurd (hcalm m hm) hfate

/-- Once no move breaks off, the passes complete the new shards that own nothing, and no
others. -/
theorem OnWay.completed_iff (h : OnWay cr spec old s.world p) (order : RangeOrders)
    (hcalm : s.Calm fates) :
    (∃ k, ∀ i, old ≤ i → i < spec.shards → slotSpace / spec.shards ≤
      shardSlots cr ((Flaky.pass order fates cr)^[k] s).world i) ↔
    ∀ i, old ≤ i → i < spec.shards → 0 < shardSlots cr s.world i →
      slotSpace / spec.shards ≤ shardSlots cr s.world i := by
  have hsim := simulated_calm cr spec old order fates
  constructor
  · rintro ⟨k, hk⟩ i hi hlt hpos
    rw [h.slots_eq] at hpos ⊢
    obtain ⟨q, ⟨hq, -⟩, hkept⟩ := hsim.iterate (I := fun q => q.slots i = p.slots i)
      (fun a b ha ⟨hgrowing, _, htopped⟩ =>
        (hgrowing.kept htopped hi (ha ▸ hpos)).trans ha) ⟨h, hcalm⟩ rfl k
    rw [← hkept, ← hq.slots_eq]
    exact hk i hi hlt
  · intro hfull
    obtain ⟨p', ⟨hp', -⟩, hgrowing, hpass, htopped⟩ := hsim s p ⟨h, hcalm⟩
    refine ⟨1, fun i hi hlt => ?_⟩
    rw [Function.iterate_one, hp'.slots_eq]
    by_cases hpos : 0 < p.slots i
    · rw [hgrowing.kept htopped hi hpos, ← h.slots_eq]
      exact hfull i hi hlt (by rwa [h.slots_eq])
    · exact hgrowing.filled hpass htopped hi hlt (by omega)

/-! ## Scaling out -/

/-- All slots have an owner, the owners are the first pods of the first `old` shards, and
more shards are wanted (the count is an `int32` in the spec, so each has a number). -/
structure ScalingOut (cr : ValkeyCluster) (old : Nat) (w : World) : Prop where
  cluster : w.kube.cluster = some cr
  alive : cr.deletionTimestamp = none
  named : ∀ {key n}, w.fake.nodes.lookup key = some n → n.id = key ∧ n.host = key
  total : w.fake.assignedSlots = 16384
  owned : ∀ {key n}, w.fake.nodes.lookup key = some n → n.slotCount ≠ 0 →
    0 < n.slotCount ∧ n.isPrimary = true ∧
      ∃ i < old, key = podFQDN cr i 0 ∧ HasSet cr w.kube.statefulSets i
  owners : ∀ i < old, 0 < shardSlots cr w i
  own : OwnSets cr w.kube.statefulSets
  more : old < cr.spec.shards
  numbered : Numbered cr.spec.shards

theorem ScalingOut.onWay (h : ScalingOut cr old w) :
    ∃ p, OnWay cr cr.spec old w p ∧ p.owners.card = old := by
  obtain ⟨p, hp⟩ := exists_placed (w := w) h.named
    (fun hn hne => (h.owned hn hne).imp_right fun ⟨hprimary, i, _, hi⟩ => ⟨hprimary, i, hi⟩) h.own
  have htotal := hp.total_eq h.total
  have howner : ∀ i, 0 < p.slots i ↔ i < old := by
    intro i
    constructor
    · intro hpos
      have hslots := hp.holds.slots i
      rw [NodeMap.get] at hslots
      cases hn : w.fake.nodes.lookup (podFQDN cr i 0) with
      | none =>
          rw [hn] at hslots
          exact absurd (Int.ofNat_eq_zero.1 hslots.symm) (Nat.ne_of_gt hpos)
      | some n =>
          rw [hn, Option.getD_some] at hslots
          obtain ⟨-, -, i', hi', hkey, -⟩ := h.owned hn (by omega)
          rw [(podFQDN_inj hkey).1]
          exact hi'
    · intro hi
      rw [← hp.shardSlots]
      exact h.owners i hi
  have howners : p.owners = Finset.range old := by
    ext i
    rw [Placement.mem_owners, Finset.mem_range, howner]
  have hshards : 0 < cr.spec.shards := Nat.zero_lt_of_lt h.more
  refine ⟨p, ⟨⟨htotal, ⟨old, le_rfl, h.more.le, howners⟩, fun i hi => ?_⟩, cr,
    ⟨h.cluster, rfl, rfl, h.alive, hshards, h.numbered, hp, .inr (.inl htotal)⟩, rfl⟩, ?_⟩
  · rw [Nat.eq_zero_of_not_pos ((howner i).not.2 (Nat.not_lt.2 hi))]
    exact Nat.zero_le _
  · rw [howners, Finset.card_range]

/-- Where passes over and over have come to, when moves break off as they are fated to. -/
def Flaky.after (order : RangeOrders) (fates : Fates) (cr : ValkeyCluster) (w : World)
    (passes : Nat) : Flaky :=
  (Flaky.pass order fates cr)^[passes] ⟨w, 0⟩

/-- However often moves have broken off, once they no longer do the new shards are
completed if and only if none of them has been left with a part of its share. -/
theorem interrupted_scaleOut_iff (h : ScalingOut cr old w) (order : RangeOrders) (fates : Fates)
    (t : Nat) (hcalm : ∀ m, (Flaky.after order fates cr w t).moves ≤ m → fates m = none) :
    (∃ k, ∀ i, old ≤ i → i < cr.spec.shards →
      16384 / cr.spec.shards ≤ shardSlots cr (Flaky.after order fates cr w (t + k)).world i) ↔
    ∀ i, old ≤ i → i < cr.spec.shards →
      0 < shardSlots cr (Flaky.after order fates cr w t).world i →
      16384 / cr.spec.shards ≤ shardSlots cr (Flaky.after order fates cr w t).world i := by
  obtain ⟨p, hp, -⟩ := h.onWay
  obtain ⟨q, hq⟩ := OnWay.iterate (s := ⟨w, 0⟩) hp order fates t
  have hiff := hq.completed_iff order hcalm
  simp only [← Function.iterate_add_apply, Nat.add_comm _ t] at hiff
  exact hiff

end

/-- Three shards of one pod. -/
def widened : ValkeyCluster where
  name := "widened"
  nspace := "default"
  spec := { shards := 3, replicasPerShard := 0 }

/-- It had one shard so far, with all the slots. -/
def widening : World where
  fake := ⟨(∅ : NodeMap).insert (podFQDN widened 0 0)
    { Fake.newNode (endpoint widened 0 0) with slots := [⟨0, 16383⟩] }⟩
  kube := { cluster := some widened, statefulSets := [statefulSet widened 0] }
  ranges := 0

theorem lookup_widening {key : String} {n : NodeInfo}
    (hn : widening.fake.nodes.lookup key = some n) : key = podFQDN widened 0 0 ∧
      n = { Fake.newNode (endpoint widened 0 0) with slots := [⟨0, 16383⟩] } := by
  rw [widening] at hn
  by_cases hkey : key = podFQDN widened 0 0
  · subst hkey
    rw [AList.lookup_insert] at hn
    exact ⟨rfl, (Option.some.inj hn).symm⟩
  · rw [AList.lookup_insert_ne hkey] at hn
    cases hn

theorem scalingOut_widening : ScalingOut widened 1 widening where
  cluster := rfl
  alive := rfl
  named hn := by
    obtain ⟨rfl, rfl⟩ := lookup_widening hn
    exact ⟨rfl, rfl⟩
  total := by decide +kernel
  owned hn _ := by
    obtain ⟨rfl, rfl⟩ := lookup_widening hn
    exact ⟨by decide +kernel, rfl, 0, Nat.one_pos, rfl, List.mem_cons_self ..⟩
  owners i hi := by
    obtain rfl := Nat.lt_one_iff.1 hi
    decide +kernel
  own :=
    have hown : OwnSets widened ([0].map (statefulSet widened)) :=
      .map (fun _ => rfl) (fun _ => rfl) (fun _ => rfl) (by decide) (by decide)
    hown
  more := by decide
  numbered := numbered_of_le (by decide)

/-- The first move of all breaks off after `x` slots. -/
def firstStops (x : Nat) : Fates
  | 0 => some x
  | _ => none

/-- The pass with that move is the only one that is disturbed. -/
theorem widening_stopped {x : Nat} (hx : x < 5461) :
    (Flaky.after (fun _ => asWritten) (firstStops x) widened widening 1).moves = 1 ∧
    Flaky.Calm (firstStops x)
      (Flaky.after (fun _ => asWritten) (firstStops x) widened widening 1) ∧
    ∃ (slots : Nat → Nat) (q : Placement) (a b : Nat), (∀ i, 0 < slots i ↔ i < 1) ∧
      OnWay widened widened.spec 1
        (Flaky.after (fun _ => asWritten) (firstStops x) widened widening 1).world q ∧
      1 ≤ b ∧ b < 3 ∧ q.slots b = x ∧ q.slots = Placement.moved slots a b x := by
  obtain ⟨p, hp, hcard⟩ := scalingOut_widening.onWay
  have hfate : firstStops x (Flaky.mk widening 0).moves = some x := rfl
  have hshare : slotSpace / widened.spec.shards = 5461 := by decide
  obtain ⟨hmoves, q, a, b, hq, hb, hlt, hslots, hmoved⟩ := OnWay.pass_stopped
    (s := ⟨widening, 0⟩) hp (fun _ => asWritten) hfate (hshare ▸ hx) (hcard ▸ by decide)
  have hafter : Flaky.after (fun _ => asWritten) (firstStops x) widened widening 1 =
      Flaky.pass (fun _ => asWritten) (firstStops x) widened ⟨widening, 0⟩ := rfl
  rw [← hafter] at hmoves hq
  refine ⟨hmoves, fun m hm => ?_, p.slots, q, a, b, fun i => ?_, hq, hb, hlt, hslots, hmoved⟩
  · rw [hmoves] at hm
    obtain ⟨m, rfl⟩ := Nat.exists_eq_add_of_le' hm
    rfl
  · rw [hp.1.pos_iff, hcard]

/-- A move that has broken off before its first slot is made up for. -/
theorem interrupted_scaleOut_widening :
    ScalingOut widened 1 widening ∧
    (Flaky.after (fun _ => asWritten) (firstStops 0) widened widening 1).moves = 1 ∧
    ∃ k, ∀ i, 1 ≤ i → i < 3 → 5461 ≤ shardSlots widened
      (Flaky.after (fun _ => asWritten) (firstStops 0) widened widening (1 + k)).world i := by
  obtain ⟨hmoves, hcalm, slots, q, a, b, hpos, hq, -, -, -, hmoved⟩ :=
    widening_stopped (x := 0) (by decide)
  refine ⟨scalingOut_widening, hmoves, (interrupted_scaleOut_iff scalingOut_widening
    (fun _ => asWritten) (firstStops 0) 1 hcalm).2 fun i hi _ hsome => ?_⟩
  have hsame : q.slots = slots := by
    rw [hmoved, Placement.moved, Nat.sub_zero, Nat.add_zero, Function.update_eq_self,
      Function.update_eq_self]
  rw [hq.slots_eq, hsame, hpos] at hsome
  omega

/-- The shard that was given one slot keeps it, and gets no more. -/
theorem partial_fill_kept :
    ScalingOut widened 1 widening ∧
    (∀ m, (Flaky.after (fun _ => asWritten) (firstStops 1) widened widening 1).moves ≤ m →
      firstStops 1 m = none) ∧
    ¬ ∃ k, ∀ i, 1 ≤ i → i < 3 → 16384 / 3 ≤ shardSlots widened
      (Flaky.after (fun _ => asWritten) (firstStops 1) widened widening (1 + k)).world i := by
  obtain ⟨-, hcalm, -, q, -, b, -, hq, hb, hlt, hslots, -⟩ := widening_stopped (x := 1) (by decide)
  refine ⟨scalingOut_widening, hcalm, fun ⟨k, hk⟩ => ?_⟩
  have hfull := (hq.completed_iff (fun _ => asWritten) hcalm).1 ⟨k, fun i hi hi3 => ?_⟩ b hb hlt
  · rw [hq.slots_eq, hslots] at hfull
    exact absurd (hfull Nat.one_pos) (by decide)
  · have := hk i hi hi3
    rwa [Nat.add_comm] at this

end Valkeyop.Controller
