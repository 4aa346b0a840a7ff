import Valkeyop.Proofs.FakeRuns
import Valkeyop.Proofs.WholePass

/-!
# Taking replicas away

A pass brings the replica counts of the StatefulSets to the spec before it looks at
the cluster. Kubernetes then stops the pods with the highest ordinals, and if one of
them is the primary, after a failover, it goes without having handed its slots off.

Nothing a pass does before that moves slots, so whether it hands off is settled where it
starts. And only an edit gives the next pass a count to lower: a pass leaves the counts of
the spec behind. Nor does a pass itself ever put slots out of reach, as it gives them to the
first pod of a shard, or to a primary it has found among the ordinals of the spec. What edits
and failovers have come to when a pass starts is thus all there is to ask.
-/

namespace Valkeyop.Controller

open Valkeyop.Lib Valkeyop.Lib.Fallible Valkeyop.Cluster Valkeyop.Api Valkeyop.Resources

/-! ## Where slots are -/

/-- A node goes by its key, and has slots only as a primary at a pod of `ok`. -/
structure SlotsAt (cr : ValkeyCluster) (ok : Nat → Nat → Prop) (key : String) (n : NodeInfo) :
    Prop where
  id : n.id = key
  owner : 0 < n.slotCount → n.isPrimary = true ∧ ∃ i j, key = podFQDN cr i j ∧ ok i j

def Within (cr : ValkeyCluster) (ok : Nat → Nat → Prop) (f : Fake) : Prop :=
  ∀ key n, f.nodes.lookup key = some n → SlotsAt cr ok key n

section

variable {cr : ValkeyCluster} {ok : Nat → Nat → Prop} {f : Fake} {key k : String} {n : NodeInfo}
  {g : NodeInfo → NodeInfo}

theorem slotsAt_slotless (hid : n.id = key) (hslots : n.slots = []) : SlotsAt cr ok key n :=
  ⟨hid, fun hpos => absurd hpos (by rw [NodeInfo.slotCount, hslots]; decide)⟩

theorem Within.ensure (h : Within cr ok f) (e : Endpoint) : Within cr ok (f.ensure e) :=
  EveryNode.ensure h (slotsAt_slotless rfl rfl)

theorem Within.modify (h : Within cr ok f)
    (hg : ∀ n, f.nodes.lookup k = some n → SlotsAt cr ok k (g n)) :
    Within cr ok (f.modify k g) :=
  EveryNode.modify h hg

theorem Within.forget (h : Within cr ok f) (id : String) : Within cr ok (f.forget id) :=
  EveryNode.forget h id

/-- Slots that move stay within reach if their target is. -/
theorem Within.moveSlots (h : Within cr ok f) {source : String} {i j : Nat} {count : Int}
    (hcount : 0 ≤ count) (hj : ok i j) :
    Within cr ok (f.moveSlots source (podFQDN cr i j) count).2 := by
  unfold Fake.moveSlots
  split
  · next m t hm ht =>
      have hdrained : Within cr ok (f.modify source fun s =>
          { s with slots := Fake.countToRanges (s.slotCount - min count m.slotCount) }) := by
        refine h.modify fun s hs => ?_
        obtain rfl : m = s := Option.some.inj (hm.symm.trans hs)
        refine ⟨(h _ m hs).id, fun hpos => ?_⟩
        rw [slotCount_countToRanges rfl] at hpos
        exact (h _ m hs).owner (by omega)
      refine hdrained.modify fun t' ht' => ⟨(hdrained _ t' ht').id, fun _ => ?_⟩
      exact ⟨rfl, i, j, rfl, hj⟩
  · exact h

theorem Within.addSlots (h : Within cr ok f) {i j : Nat} (hj : ok i j) (ranges : List SlotRange) :
    Within cr ok (f.addSlots (endpoint cr i j) ranges) := by
  have h' := h.ensure (endpoint cr i j)
  exact h'.modify fun n hn => ⟨(h' _ n hn).id, fun _ => ⟨rfl, i, j, rfl, hj⟩⟩

theorem Within.replicate (h : Within cr ok f) (e : Endpoint) (id : String) :
    Within cr ok (f.replicate e id) := by
  have h' := h.ensure e
  exact h'.modify fun n hn => slotsAt_slotless (h' _ n hn).id rfl

/-- A replica that is promoted takes the slots of its primary. -/
theorem Within.failover (h : Within cr ok f) {i j : Nat} (hj : ok i j) :
    Within cr ok (f.failover (endpoint cr i j)) := by
  unfold Fake.failover
  split
  · exact h
  · next r hr =>
      split
      · exact h
      · split
        · exact h
        · next m hm =>
            have hpromoted : Within cr ok (f.modify (endpoint cr i j).host fun r =>
                { Fake.asPrimary r with slots := m.slots }) :=
              h.modify fun r' hr' => ⟨(h _ r' hr').id, fun _ => ⟨rfl, i, j, rfl, hj⟩⟩
            exact hpromoted.modify fun m' hm' =>
              slotsAt_slotless (hpromoted _ m' hm').id rfl

end

/-! ## The calls of a pass -/

/-- A replica count that is lowered stays above the ordinal of every slot owner of the
shard. -/
def HandedOff (cr : ValkeyCluster) : Call → World → Prop
  | .kube (.applyStatefulSet new), w => ∀ old ∈ w.kube.statefulSets, old.name = new.name →
      old.nspace = new.nspace → new.replicas < old.replicas →
      ∀ i, new.name = statefulSetName cr i → ∀ j n,
        w.fake.nodes.lookup (podFQDN cr i j) = some n → ownsSlots n = true → j < new.replicas
  | _, _ => True

/-- The slots are at pods of `ok`, and the spec is the stored one. -/
structure InReach (cr : ValkeyCluster) (ok : Nat → Nat → Prop) (w : World) : Prop where
  within : Within cr ok w.fake
  stored : ∀ c, w.kube.cluster = some c →
    c.name = cr.name ∧ c.nspace = cr.nspace ∧ c.spec = cr.spec

/-- What a pass calls: slots go to ordinals of the spec, and the spec is left alone. -/
def Aims (cr : ValkeyCluster) : Call → Prop
  | .admin (.addSlots ep _) => ∃ i, ep = endpoint cr i 0
  | .admin (.moveSlots _ _ toNodeID n) =>
      0 ≤ n ∧ ∃ i j, toNodeID = podFQDN cr i j ∧ j ≤ cr.spec.replicasPerShard
  | .kube (.updateCluster new) =>
      new.name = cr.name ∧ new.nspace = cr.nspace ∧ new.spec = cr.spec
  | .kube (.applyStatefulSet _) | .kube (.deleteStatefulSet ..) | .kube (.deletePVC _) => True
  | c => Routine c

theorem Routine.aims {cr : ValkeyCluster} {c : Call} (hc : Routine c) : Aims cr c := by
  unfold Aims
  split
  all_goals first | exact hc.elim | trivial

section

variable {cr : ValkeyCluster} {order : RangeOrders} {w : World} {ok : Nat → Nat → Prop}
  (hok : ∀ i, ∀ j ≤ cr.spec.replicasPerShard, ok i j)

include hok

theorem Aims.within {c : AdminCall} (hc : Aims cr (.admin c)) {f : Fake} (h : Within cr ok f) :
    Within cr ok (f.answer c).2 := by
  cases c with
  | state ep => exact h
  | myID ep => exact h.ensure ep
  | meet a b => exact (h.ensure a).ensure b
  | addSlots ep ranges =>
      obtain ⟨i, rfl⟩ := hc
      exact h.addSlots (hok i 0 (Nat.zero_le _)) ranges
  | replicate ep id => exact h.replicate ep id
  | forget ep id => exact h.forget id
  | moveSlots ep a b n =>
      obtain ⟨hn, i, j, rfl, hj⟩ := hc
      exact h.moveSlots hn (hok i j hj)
  | repairSlots ep => exact h
  | _ => exact hc.elim

theorem inReach_answer {c : Call} (hc : Aims cr c) (h : InReach cr ok w) :
    InReach cr ok (World.answer order c w).2 := by
  cases c with
  | admin c => exact ⟨hc.within hok h.within, h.stored⟩
  | rangeOver m => exact ⟨h.within, h.stored⟩
  | kube c =>
      refine ⟨h.within, fun stored hstored => ?_⟩
      cases c with
      | updateCluster new =>
          rcases cluster_update hstored with hsame | ⟨hname, hns, hspec⟩
          · exact h.stored stored hsame
          · exact ⟨hname.trans hc.1, hns.trans hc.2.1, hspec.trans hc.2.2⟩
      | _ =>
          obtain ⟨old, hold, heq | ⟨status, heq⟩⟩ := cluster_answer (by simp) hstored
          · exact heq ▸ h.stored old hold
          · exact heq ▸ h.stored old hold

/-- A program that aims well whatever it is answered keeps the slots in reach. -/
theorem runs_aims {α : Type} {p : Ctl α} (hp : p.Only (Aims cr)) (h : InReach cr ok w) :
    Prog.Runs (World.answer order) (fun _ _ => True)
      (fun _ => InReach cr ok) p w :=
  hp.runs (fun _ _ hc hs => ⟨trivial, inReach_answer hok hc hs⟩) h

theorem keeps_routine {α : Type} {p : Act α} (hp : Prog.Only Routine p.run)
    (h : InReach cr ok w) :
    Keeps (World.answer order) (fun _ _ => True) (InReach cr ok) p w :=
  runs_aims hok (hp.mono fun _ => Routine.aims) h

/-! ## Finding where to put slots -/

/-- Every pod answers with its name. -/
theorem runs_myID (h : InReach cr ok w) (i j : Nat) :
    Prog.Runs (World.answer order) (fun _ _ => True)
      (fun r w' => r = .ok (podFQDN cr i j) ∧ InReach cr ok w') (Admin.myID (endpoint cr i j)).run
      w := by
  refine (Prog.runs_op (c := Call.admin (.myID (endpoint cr i j)))).2 ⟨trivial, ?_,
    inReach_answer hok (c := .admin (.myID (endpoint cr i j))) trivial h⟩
  obtain ⟨n, hn⟩ := exists_lookup (mem_ensure w.fake (endpoint cr i j))
  refine congrArg Except.ok ?_
  rw [NodeMap.get, hn]
  exact (h.within.ensure (endpoint cr i j) _ n hn).id

theorem runs_findSlotOwner_named (idx : NodeMap) (i : Nat) {js : List Nat}
    (hjs : ∀ j ∈ js, j ≤ cr.spec.replicasPerShard) (h : InReach cr ok w) :
    Prog.Runs (World.answer order) (fun _ _ => True)
      (fun r w' => InReach cr ok w' ∧ ∀ found, r = some found →
        ∃ j ≤ cr.spec.replicasPerShard, found.1 = podFQDN cr i j)
      (findSlotOwner cr i idx js) w := by
  induction js generalizing w with
  | nil => exact Prog.runs_pure.2 ⟨h, fun found hr => nomatch hr⟩
  | cons j js ih =>
      rw [findSlotOwner, Prog.runs_bind]
      refine (runs_myID hok h i j).mono fun r w' hpost => ?_
      obtain ⟨hr, hw'⟩ := hpost
      subst hr
      have hrest := ih (fun j hj => hjs j (List.mem_cons_of_mem _ hj)) hw'
      simp only []
      split
      · split
        · refine Prog.runs_pure.2 ⟨hw', fun found hfound => ?_⟩
          cases hfound
          exact ⟨j, hjs j (List.mem_cons_self ..), rfl⟩
        · exact hrest
      · exact hrest

/-- The primary that is found is a pod of the shard at an ordinal of the spec. -/
theorem runs_findShardPrimary_named (idx : NodeMap) (i : Nat) (h : InReach cr ok w) :
    Prog.Runs (World.answer order) (fun _ _ => True)
      (fun r w' => InReach cr ok w' ∧ ∃ j ≤ cr.spec.replicasPerShard, r.1 = podFQDN cr i j)
      (findShardPrimary cr i idx) w := by
  have hjs : ∀ j ∈ List.range (cr.spec.replicasPerShard + 1), j ≤ cr.spec.replicasPerShard :=
    fun j hj => Nat.lt_succ_iff.1 (List.mem_range.1 hj)
  rw [findShardPrimary, Prog.runs_bind]
  refine (runs_findSlotOwner_named hok idx i hjs h).mono fun r w' hpost => ?_
  obtain ⟨hw', hfound⟩ := hpost
  cases r with
  | some found =>
      obtain ⟨j, hj, hid⟩ := hfound found rfl
      exact Prog.runs_pure.2 ⟨hw', j, hj, hid⟩
  | none =>
      show Prog.Runs _ _ _ (_ >>= _) _
      rw [Prog.runs_bind]
      refine (runs_myID hok hw' i 0).mono fun r w'' hpost => ?_
      obtain ⟨hr, hw''⟩ := hpost
      subst hr
      exact Prog.runs_pure.2 ⟨hw'', 0, Nat.zero_le _, rfl⟩

theorem runs_firstSurvivorPrimary_named (idx : NodeMap) (excludeID : String) (shards : List Nat)
    (h : InReach cr ok w) :
    Prog.Runs (World.answer order) (fun _ _ => True)
      (fun r w' => InReach cr ok w' ∧
        (r = "" ∨ ∃ i, ∃ j ≤ cr.spec.replicasPerShard, r = podFQDN cr i j))
      (firstSurvivorPrimary cr idx excludeID shards) w := by
  induction shards generalizing w with
  | nil => exact Prog.runs_pure.2 ⟨h, .inl rfl⟩
  | cons i shards ih =>
      rw [firstSurvivorPrimary, Prog.runs_bind]
      refine (runs_findShardPrimary_named hok idx i h).mono fun r w' hpost => ?_
      obtain ⟨hw', j, hj, hid⟩ := hpost
      simp only []
      split
      · exact Prog.runs_pure.2 ⟨hw', .inr ⟨i, j, hj, hid⟩⟩
      · exact ih hw'

/-! ## Putting them there -/

theorem keeps_drainShard {idx : NodeMap} (shard : Nat) {departID : String}
    (hslots : 0 < (NodeMap.get idx departID).slotCount) (h : InReach cr ok w) :
    Keeps (World.answer order) (fun _ _ => True) (InReach cr ok)
      (drainShard cr shard idx departID) w := by
  refine keeps_lift (runs_firstSurvivorPrimary_named hok idx departID _ h) ?_
  intro survID w' ⟨hw', hsurv⟩
  split
  · exact keeps_throw hw'
  · next hne =>
      obtain ⟨i, j, hj, rfl⟩ := hsurv.resolve_left hne
      have hbatch : 0 ≤ min drainBatchSlots (NodeMap.get idx departID).slotCount := by
        rw [drainBatchSlots]
        omega
      have hmove : Aims cr (.admin (.moveSlots (seed cr) departID (podFQDN cr i j)
          (min drainBatchSlots (NodeMap.get idx departID).slotCount))) :=
        ⟨hbatch, i, j, rfl, hj⟩
      refine keeps_lift (runs_aims hok (Prog.only_op.2 hmove) hw') ?_
      intro r w'' hw''
      obtain ⟨moved, e⟩ := r
      cases e with
      | some e => exact keeps_throw hw''
      | none => exact keeps_pure hw''

theorem runs_fattestPrimary_nonneg (idx : NodeMap) (excludeID : String) (h : InReach cr ok w) :
    Prog.Runs (World.answer order) (fun _ _ => True)
      (fun r w' => InReach cr ok w' ∧ 0 ≤ r.2) (fattestPrimary idx excludeID) w := by
  rw [fattestPrimary, Prog.runs_bind]
  refine (Prog.runs_op (c := Call.rangeOver idx)).2 ⟨trivial, Prog.runs_pure.2 ⟨?_, ?_⟩⟩
  · exact inReach_answer hok (c := .rangeOver idx) trivial h
  · exact (foldl_fatter excludeID _ ("", 0)).1

theorem keeps_fillShard (ep : Endpoint) (shard k : Nat) :
    ∀ fuel need idx (w : World), InReach cr ok w →
      Keeps (World.answer order) (fun _ _ => True) (InReach cr ok)
        (fillShard ep shard (podFQDN cr k 0) fuel need idx) w := by
  intro fuel
  induction fuel with
  | zero => intro need idx w h; exact keeps_pure h
  | succ fuel ih =>
      intro need idx w h
      unfold fillShard
      split
      · exact keeps_pure h
      next hneed =>
      refine keeps_lift (runs_fattestPrimary_nonneg hok idx _ h) fun src w₁ hpost => ?_
      obtain ⟨hw₁, hsrc⟩ := hpost
      obtain ⟨srcID, srcSlots⟩ := src
      simp only [] at hsrc ⊢
      split
      · exact keeps_pure hw₁
      have hmove : Aims cr (.admin (.moveSlots ep srcID (podFQDN cr k 0) (min need srcSlots))) :=
        ⟨by omega, k, 0, rfl, Nat.zero_le _⟩
      refine keeps_lift (runs_aims hok (Prog.only_op.2 hmove) hw₁) ?_
      intro reply w₂ hw₂
      obtain ⟨moved, e⟩ := reply
      cases e with
      | some e => exact keeps_throw hw₂
      | none =>
          simp only []
          split
          · exact keeps_pure hw₂
          · exact (keeps_routine hok (Prog.only_op.2 trivial) hw₂).bind fun st w₃ hw₃ =>
              ih _ _ w₃ hw₃

theorem keeps_fillNewShard (k : Nat) (h : InReach cr ok w) :
    Keeps (World.answer order) (fun _ _ => True) (InReach cr ok)
      (fillNewShard cr k) w := by
  have hid : Prog.Runs (World.answer order) (fun _ _ => True)
      (Post (fun id w' => id = podFQDN cr k 0 ∧ InReach cr ok w') fun _ => InReach cr ok)
      (newPrimaryID cr k).run w := by
    refine runs_bind.2 (Prog.runs_bind.2 ((runs_myID hok h k 0).mono ?_))
    intro r w' ⟨hr, hw'⟩
    subst hr
    refine Prog.runs_pure.2 ?_
    show Prog.Runs _ _ _ (ExceptT.run (if _ then _ else _)) _
    split
    · exact Prog.runs_pure.2 hw'
    · exact Prog.runs_pure.2 ⟨rfl, hw'⟩
  refine keeps_bind hid ?_
  intro id w₁ ⟨hid, hw₁⟩
  subst hid
  exact (keeps_routine hok (Prog.only_op.2 trivial) hw₁).bind fun st w₂ hw₂ =>
    keeps_fillShard hok _ k k _ _ _ w₂ hw₂

theorem keeps_scaleOut (oldShards : Nat) (h : InReach cr ok w) :
    Keeps (World.answer order) (fun _ _ => True) (InReach cr ok)
      (scaleOut cr oldShards) w := by
  refine Keeps.bind (keeps_forM (fun i _ _ hs => keeps_routine hok (routine_joinShard i) hs) h) ?_
  intro _ w₁ hw₁
  refine (keeps_routine hok (Prog.only_op.2 trivial) hw₁).bind fun st w₂ hw₂ => ?_
  refine (keeps_routine hok (routine_attachReplicas st) hw₂).bind fun _ w₃ hw₃ => ?_
  refine Keeps.bind (keeps_forM (fun i _ _ hs => keeps_fillNewShard hok i hs) hw₃) ?_
  intro _ w₄ hw₄
  exact (keeps_routine hok (Prog.only_op.2 trivial) hw₄).bind fun st w₅ hw₅ =>
    keeps_routine hok (routine_attachReplicas st) hw₅

/-! ## A pass -/

theorem keeps_reconcileCluster_inReach (h : InReach cr ok w) :
    Keeps (World.answer order) (fun _ _ => True) (InReach cr ok)
      (reconcileCluster cr) w := by
  refine keeps_reconcileCluster (keeps_routine hok) (fun state observed kind w hw => ?_) h
  refine keeps_act (keeps_routine hok) (fun w hw => runs_aims hok ?_ hw)
    (fun _ w hw => keeps_scaleOut hok _ hw)
    (fun idxs w hw => keeps_removeShards (keeps_routine hok) ?_ ?_ idxs hw) _ _ _ hw
  · exact only_formCluster (fun _ _ => trivial) (fun i _ => ⟨i, rfl⟩) (fun _ => trivial)
      (fun _ => trivial) (fun _ _ => trivial)
  · exact fun i idx departID w hslots hw => keeps_drainShard hok i hslots hw
  · exact fun i w hw => runs_aims hok (only_deleteShard (fun _ => Routine.aims)
      (fun _ _ => trivial) (fun _ => trivial) i) hw

omit hok in
theorem InReach.congr {c : ValkeyCluster} (h : InReach cr ok w) (hname : c.name = cr.name)
    (hns : c.nspace = cr.nspace) (hspec : c.spec = cr.spec) : InReach c ok w := by
  refine ⟨fun key n hn => ⟨(h.within key n hn).id, ?_⟩, ?_⟩
  · rw [podFQDN_congr hname hns]
    exact (h.within key n hn).owner
  · rw [hname, hns, hspec]
    exact h.stored

/-- Storing the finalizer leaves the name and the spec as they were. -/
theorem runs_ensureFinalizer (h : InReach cr ok w) :
    Prog.Runs (World.answer order) (fun _ _ => True)
      (Post (fun c w' => (c.name = cr.name ∧ c.nspace = cr.nspace ∧ c.spec = cr.spec) ∧
        InReach cr ok w') fun _ => InReach cr ok)
      (ensureFinalizer cr).run w := by
  unfold ensureFinalizer
  split
  · exact Prog.runs_pure.2 ⟨⟨rfl, rfl, rfl⟩, h⟩
  · refine (Prog.runs_op (c := Call.kube (.updateCluster _))).2 ⟨trivial, ?_⟩
    have haims : Aims cr (.kube (.updateCluster
        { cr with finalizers := cr.finalizers ++ [finalizer] })) := ⟨rfl, rfl, rfl⟩
    have hend : InReach cr ok (World.answer order _ w).2 := inReach_answer hok haims h
    show Post _ _ (w.kube.update _).1 _
    cases hreply : (w.kube.update _).1 with
    | error e => exact hend
    | ok c =>
        obtain ⟨hname, hns, hspec⟩ := update_reply hreply
        exact ⟨⟨hname, hns, hspec⟩, hend⟩

theorem keeps_reconcileLive (h : InReach cr ok w) :
    Keeps (World.answer order) (fun _ _ => True) (InReach cr ok) (reconcileLive cr) w := by
  refine keeps_bind (runs_ensureFinalizer hok h) ?_
  intro c w₁ ⟨⟨hname, hns, hspec⟩, hw₁⟩
  -- the rest works from the resource as it was stored
  have hok' : ∀ i, ∀ j ≤ c.spec.replicasPerShard, ok i j := hspec ▸ hok
  suffices hrest : Keeps (World.answer order) (fun _ _ => True) (InReach c ok) _ w₁ from
    Prog.Runs.mono hrest fun _ _ hs => hs.congr hname.symm hns.symm hspec.symm
  have hsets : ∀ w, InReach c ok w → Keeps (World.answer order) (fun _ _ => True) (InReach c ok)
      (ensureStatefulSets c) w :=
    fun _ => runs_aims hok' (only_forM fun _ _ => Prog.only_op.2 trivial)
  refine (keeps_routine hok' (Prog.only_op.2 trivial) (hw₁.congr hname hns hspec)).bind ?_
  intro _ w₂ hw₂
  refine (keeps_routine hok' (Prog.only_op.2 trivial) hw₂).bind fun _ w₃ hw₃ => ?_
  refine (hsets w₃ hw₃).bind fun _ w₄ hw₄ => ?_
  refine (keeps_routine hok' routine_shardsReady hw₄).bind fun ready w₅ hw₅ => ?_
  split
  · exact keeps_lift (runs_aims hok' ((routine_announce _ _ _).mono fun _ => Routine.aims) hw₅)
      fun _ _ => keeps_pure
  · refine keeps_lift (keeps_reconcileCluster_inReach hok' hw₅) fun r w₆ hw₆ => ?_
    cases r with
    | error e => exact keeps_pure hw₆
    | ok progressing => exact keeps_pure hw₆

theorem keeps_reconcileDelete (h : InReach cr ok w) :
    Keeps (World.answer order) (fun _ _ => True) (InReach cr ok) (reconcileDelete cr) w := by
  refine runs_aims hok ?_ h
  unfold reconcileDelete
  split
  · exact only_bind (only_bind (Prog.only_op.2 trivial) fun _ => only_forM fun _ _ =>
      only_ignoreNotFound (Prog.only_op.2 trivial)) fun _ =>
        only_bind (Prog.only_op.2 ⟨rfl, rfl, rfl⟩) fun _ => Prog.only_pure _
  · exact Prog.only_pure _

/-- A pass for the resource leaves the slots in reach. -/
theorem keeps_reconcile (h : InReach cr ok w) (hc : w.kube.cluster = some cr) :
    Keeps (World.answer order) (fun _ _ => True) (InReach cr ok) (reconcile cr.name cr.nspace)
      w := by
  have hget : Prog.Runs (World.answer order) (fun _ _ => True) (fun r w' => r = .ok cr ∧ w' = w)
      (Kube.getCluster cr.name cr.nspace).run w := by
    have hreply := exec_getCluster (World.kubeBacked order) hc
    exact (Prog.runs_op (c := Call.kube (.getCluster ..))).2 ⟨trivial, Prod.mk.inj hreply⟩
  refine keeps_lift hget ?_
  intro r w' ⟨hr, hw'⟩
  subst hr hw'
  simp only []
  split
  · exact keeps_reconcileDelete hok h
  · exact keeps_reconcileLive hok h

end

/-! ## Where counts are lowered -/

/-- No count that a pass would lower leaves a slot owner of its shard behind. -/
def LowersInReach (w : World) : Prop :=
  ∀ c, w.kube.cluster = some c → c.deletionTimestamp = none → ∀ i < c.spec.shards,
    ∀ old ∈ w.kube.statefulSets, old.name = statefulSetName c i → old.nspace = c.nspace →
      1 + c.spec.replicasPerShard < old.replicas →
      ∀ j n, w.fake.nodes.lookup (podFQDN c i j) = some n → ownsSlots n = true →
        j ≤ c.spec.replicasPerShard

/-- A call that lowers no count and leaves the spec alone. -/
def Sparing : Call → Prop
  | .kube (.updateCluster _) | .kube (.applyStatefulSet _) => False
  | _ => True

theorem Routine.sparing {c : Call} (hc : Routine c) : Sparing c := by
  unfold Sparing
  split
  · exact hc
  · exact hc
  · trivial

/-- The resource is the one of `cr`, and the desired shards have their replicas. -/
structure Counted (cr : ValkeyCluster) (w : World) : Prop where
  stored : ∀ c, w.kube.cluster = some c →
    c.name = cr.name ∧ c.nspace = cr.nspace ∧ c.spec = cr.spec
  sets : ∀ s ∈ w.kube.statefulSets, ∀ i < cr.spec.shards, s.name = statefulSetName cr i →
    s.nspace = cr.nspace → s.replicas = 1 + cr.spec.replicasPerShard

section

variable {cr c : ValkeyCluster} {order : RangeOrders} {w : World} {e : Call}

theorem handedOff_of_ne (he : ∀ new, e ≠ .kube (.applyStatefulSet new)) : HandedOff cr e w := by
  unfold HandedOff
  split
  · exact absurd rfl (he _)
  · trivial

theorem Sparing.handedOff (he : Sparing e) : HandedOff cr e w :=
  handedOff_of_ne fun _ h => by subst h; exact he

theorem handedOff_congr (hname : c.name = cr.name) (hns : c.nspace = cr.nspace) :
    HandedOff c e w ↔ HandedOff cr e w := by
  unfold HandedOff
  rw [podFQDN_congr hname hns, statefulSetName_congr hname]

/-- A pass over a live resource: first the counts are brought to the spec, where the slots are
as they were, and then they are left alone. -/
theorem calls_reconcile (order : RangeOrders) (hc : w.kube.cluster = some c)
    (halive : c.deletionTimestamp = none) :
    ∃ cr first w₀, SameCluster c cr ∧ w₀.kube.cluster = some cr ∧ w₀.fake = w.fake ∧
      w₀.kube.statefulSets = w.kube.statefulSets ∧
      (∀ e ∈ first, ∀ new, e.1 ≠ Call.kube (.applyStatefulSet new)) ∧
      calls (World.answer order) (reconcile c.name c.nspace) w = first ++
        (calls (World.answer order) (ensureStatefulSets cr) w₀ ++
          calls (World.answer order) (shardsReady cr >>= settle cr)
            (w₀.putKube (w₀.kube.ensured cr))) ∧
      exec (World.answer order) (reconcile c.name c.nspace) w =
        exec (World.answer order) (shardsReady cr >>= settle cr)
          (w₀.putKube (w₀.kube.ensured cr)) := by
  obtain ⟨cr, hsame, hfinal⟩ := exec_ensureFinalizer order hc halive
  have hlive : reconcileLive c = ensureFinalizer c >>= fun cr => ensureConfigMap cr >>= fun _ =>
      ensureHeadlessService cr >>= fun _ => ensureStatefulSets cr >>= fun _ =>
        shardsReady cr >>= settle cr := by
    rw [reconcileLive_eq]
    simp only [provision, bind_assoc]
  let w₁ := w.putKube { w.kube with cluster := some cr }
  let w₂ := w₁.putKube { w₁.kube with configMap := some (configMap cr) }
  let w₀ := w₂.putKube { w₂.kube with service := some (headlessService cr) }
  have hsets : exec (World.answer order) (ensureStatefulSets cr) w₀ =
      (.ok (), w₀.putKube (w₀.kube.ensured cr)) := exec_ensureStatefulSets w₀
  refine ⟨cr, calls (World.answer order) (Kube.getCluster c.name c.nspace).attempt w ++
    calls (World.answer order) (ensureFinalizer c) w ++
    calls (World.answer order) (ensureConfigMap cr) w₁ ++
    calls (World.answer order) (ensureHeadlessService cr) w₂, w₀, hsame, rfl, rfl, rfl, ?_, ?_, ?_⟩
  · have hfinalizer : Prog.Only (fun e => ∀ new, e ≠ Call.kube (.applyStatefulSet new))
        (ensureFinalizer c).run := by
      unfold ensureFinalizer
      split
      · exact Prog.only_pure _
      · exact Prog.only_op.2 fun _ h => by cases h
    simp only [List.forall_mem_append]
    refine ⟨⟨⟨fun e he new => ?_, hfinalizer.mem_trace⟩, fun e he new => ?_⟩, fun e he new => ?_⟩
    all_goals
      obtain rfl := List.mem_singleton.1 he
      exact fun h => by cases h
  · rw [calls_reconcile_live hc halive, hlive, calls_bind_ok hfinal,
      calls_bind_ok (exec_ensureConfigMap order _),
      calls_bind_ok (exec_ensureHeadlessService order _), calls_bind_ok hsets]
    simp only [List.append_assoc]
    rfl
  · rw [exec_reconcile_live hc halive, hlive, exec_bind_ok hfinal,
      exec_bind_ok (exec_ensureConfigMap order _),
      exec_bind_ok (exec_ensureHeadlessService order _), exec_bind_ok hsets]

theorem sparing_settle (cr : ValkeyCluster) :
    Prog.Only Sparing (shardsReady cr >>= settle cr).run :=
  only_bind (routine_shardsReady.mono fun _ => Routine.sparing) fun ready =>
    only_settle (fun _ => Routine.sparing) (fun _ _ => trivial) (fun _ _ _ _ => trivial)
      (fun _ _ => trivial) (fun _ => trivial) ready

/-- A set that is there when the pass starts is there when its count is brought to the spec, and
the slots are still where they were. -/
theorem mem_calls_applyStatefulSet (order : RangeOrders) (hc : w.kube.cluster = some c)
    (halive : c.deletionTimestamp = none) {i : Nat} (hi : i < c.spec.shards) {old : StatefulSet}
    (hold : old ∈ w.kube.statefulSets) (hname : old.name = statefulSetName c i) :
    ∃ cr w', SameCluster c cr ∧ w'.fake = w.fake ∧ old ∈ w'.kube.statefulSets ∧
      (Call.kube (.applyStatefulSet (statefulSet cr i)), w') ∈
        calls (World.answer order) (reconcile c.name c.nspace) w := by
  obtain ⟨cr, first, w₀, hsame, -, hfake, hsets, -, hcalls, -⟩ := calls_reconcile order hc halive
  obtain ⟨done, rest, hsplit⟩ : ∃ done rest, List.range cr.spec.shards = done ++ i :: rest :=
    List.append_of_mem (List.mem_range.2 (hsame.spec ▸ hi))
  have hnodup : (done ++ i :: rest).Nodup := hsplit ▸ List.nodup_range
  refine ⟨cr, w₀.putKube (done.foldl (fun k i => k.putStatefulSet (statefulSet cr i)) w₀.kube),
    hsame, hfake, ?_, ?_⟩
  · refine mem_sets_foldl_of_ne (hsets ▸ hold) fun j hj heq => ?_
    rw [hname, ← statefulSetName_congr hsame.name] at heq
    obtain rfl := statefulSetName_injective heq
    exact (List.nodup_append.1 hnodup).2.2 i hj i (List.mem_cons_self ..) rfl
  · rw [hcalls]
    exact List.mem_append_right _ (List.mem_append_left _
      (mem_calls_ensureStatefulSets.2 ⟨done, i, rest, hsplit, rfl⟩))

/-- A pass over a live resource hands off exactly when it is in a position to where it starts. -/
theorem handedOff_reconcile_iff (order : RangeOrders) (hc : w.kube.cluster = some c)
    (halive : c.deletionTimestamp = none) :
    (∀ e ∈ calls (World.answer order) (reconcile c.name c.nspace) w, HandedOff c e.1 e.2) ↔
      LowersInReach w := by
  constructor
  · intro hcalls c' hc' _ i hi old hold hname hns hlow j n hn howns
    obtain rfl : c = c' := Option.some.inj (hc.symm.trans hc')
    obtain ⟨cr, w', hsame, hfake, hold', hmem⟩ :=
      mem_calls_applyStatefulSet order hc halive hi hold hname
    have hset : (statefulSet cr i).name = statefulSetName c i :=
      congrFun (statefulSetName_congr hsame.name) i
    have hcount : (statefulSet cr i).replicas = 1 + c.spec.replicasPerShard :=
      congrArg (1 + ·.replicasPerShard) hsame.spec
    have hj : j < (statefulSet cr i).replicas := by
      refine hcalls _ hmem old hold' (hname.trans hset.symm) (hns.trans hsame.nspace.symm)
        (hcount ▸ hlow) i hset j n ?_ howns
      rw [hfake]
      exact hn
    omega
  · intro hlowers e he
    obtain ⟨cr, first, w₀, hsame, -, hfake, hsets, hfirst, hcalls, -⟩ :=
      calls_reconcile order hc halive
    rw [hcalls, List.mem_append, List.mem_append, mem_calls_ensureStatefulSets] at he
    rcases he with he | ⟨done, i, rest, hsplit, rfl⟩ | he
    · exact handedOff_of_ne (hfirst e he)
    · intro old hold hname hns hlow i' hi' j n hn howns
      have hi : i < cr.spec.shards := List.mem_range.1 (hsplit ▸ by simp)
      have hset : (statefulSet cr i).name = statefulSetName c i :=
        congrFun (statefulSetName_congr hsame.name) i
      have hcount : (statefulSet cr i).replicas = 1 + c.spec.replicasPerShard :=
        congrArg (1 + ·.replicasPerShard) hsame.spec
      obtain rfl : i = i' := statefulSetName_injective (hset.symm.trans hi')
      rcases mem_sets_foldl hold with ⟨hold, -⟩ | hsame'
      · have hj : j ≤ c.spec.replicasPerShard := by
          refine hlowers c hc halive i (hsame.spec ▸ hi) old (hsets ▸ hold) (hname.trans hset)
            (hns.trans hsame.nspace) (hcount ▸ hlow) j n ?_ howns
          rw [← hfake]
          exact hn
        show j < (statefulSet cr i).replicas
        omega
      · have : (statefulSet cr i).replicas < old.replicas := hlow
        rw [hsame.spec] at hsame'
        omega
    · exact ((sparing_settle cr).mem_trace e he).handedOff

theorem counted_answer {c : Call} (hc : Sparing c) (h : Counted cr w) :
    Counted cr (World.answer order c w).2 := by
  cases c with
  | admin c => exact ⟨h.stored, h.sets⟩
  | rangeOver m => exact ⟨h.stored, h.sets⟩
  | kube c =>
      have hcluster : ∀ new, c ≠ .updateCluster new := fun new heq => by subst heq; exact hc
      refine ⟨fun stored hstored => ?_, fun s hs => h.sets s ?_⟩
      · obtain ⟨old, hold, heq | ⟨status, heq⟩⟩ := cluster_answer hcluster hstored
        · exact heq ▸ h.stored old hold
        · exact heq ▸ h.stored old hold
      · by_cases hsame : LeavesWorkloads (.kube c)
        · have hwork : SameWorkloads w.kube (World.answer order (.kube c) w).2.kube :=
            sameWorkloads_answer hsame w
          exact hwork.1 ▸ hs
        · cases c with
          | applyStatefulSet new => exact hc.elim
          | deleteStatefulSet name nspace =>
              simp only [World.answer, ApiServer.answer] at hs
              split at hs
              · exact (List.mem_filter.1 hs).1
              · exact hs
          | deletePVC pvc =>
              simp only [World.answer, ApiServer.answer] at hs
              split at hs
              · exact hs
              · exact hs
          | _ => exact absurd trivial hsame

/-- A pass over a live resource leaves the counts of the spec behind. -/
theorem counted_reconcile (order : RangeOrders) (hc : w.kube.cluster = some c)
    (halive : c.deletionTimestamp = none) :
    Counted c (exec (World.answer order) (reconcile c.name c.nspace) w).2 := by
  obtain ⟨cr, -, w₀, hsame, hcluster, -, -, -, -, hexec⟩ := calls_reconcile order hc halive
  have hstart : Counted cr (w₀.putKube (w₀.kube.ensured cr)) := by
    refine ⟨fun c' hc' => ?_, fun s hs i hi hname hns => ?_⟩
    · obtain rfl : cr = c' := Option.some.inj (((cluster_ensured _).trans hcluster).symm.trans hc')
      exact ⟨rfl, rfl, rfl⟩
    · exact (mem_sets_foldl hs).resolve_left fun h => h.2 i (List.mem_range.2 hi) ⟨hname, hns⟩
  have hend : Counted cr (exec (World.answer order) (shardsReady cr >>= settle cr) _).2 :=
    (Prog.runs_iff.1 ((sparing_settle cr).runs (G := fun _ _ => True)
      (fun _ _ hs h => ⟨trivial, counted_answer hs h⟩) hstart)).1
  rw [hexec]
  refine ⟨fun c' hc' => ?_, fun s hs i hi hname hns => ?_⟩
  · obtain ⟨hname, hns, hspec⟩ := hend.stored c' hc'
    exact ⟨hname.trans hsame.name, hns.trans hsame.nspace, hspec.trans hsame.spec⟩
  · rw [← hsame.spec] at hi ⊢
    rw [← statefulSetName_congr hsame.name] at hname
    exact hend.sets s hs i hi hname (hns.trans hsame.nspace.symm)

/-- So the next pass lowers nothing. -/
theorem Counted.lowersInReach (h : Counted cr w) : LowersInReach w := by
  intro c hc _ i hi old hold hname hns hlow
  obtain ⟨hcname, hcns, hspec⟩ := h.stored c hc
  rw [hspec] at hi hlow
  rw [statefulSetName_congr hcname] at hname
  have hcount := h.sets old hold i hi hname (hns.trans hcns)
  omega

theorem deletion_answer (hc : (World.answer order e w).2.kube.cluster = some c) :
    ∃ old, w.kube.cluster = some old ∧ c.deletionTimestamp = old.deletionTimestamp := by
  cases e with
  | admin e => exact ⟨c, hc, rfl⟩
  | rangeOver m => exact ⟨c, hc, rfl⟩
  | kube e =>
      by_cases hupdate : ∃ new, e = .updateCluster new
      · obtain ⟨new, rfl⟩ := hupdate
        exact deletion_update hc
      · obtain ⟨old, hold, rfl | ⟨status, rfl⟩⟩ :=
          cluster_answer (fun new heq => hupdate ⟨new, heq⟩) hc
        · exact ⟨_, hold, rfl⟩
        · exact ⟨old, hold, rfl⟩

/-- A pass over a resource that is being deleted is not about counts, and does not revive it. -/
theorem runs_reconcile_deleted (order : RangeOrders) (hc : w.kube.cluster = some c)
    (hdeleted : c.deletionTimestamp.isSome = true) :
    Keeps (World.answer order) (HandedOff c)
      (fun w' => ∀ c', w'.kube.cluster = some c' → c'.deletionTimestamp.isSome = true)
      (reconcile c.name c.nspace) w := by
  have hget : Prog.Runs (World.answer order) (HandedOff c) (fun r w' => r = .ok c ∧ w' = w)
      (Kube.getCluster c.name c.nspace).run w := by
    have hreply := exec_getCluster (World.kubeBacked order) hc
    exact (Prog.runs_op (c := Call.kube (.getCluster ..))).2 ⟨trivial, Prod.mk.inj hreply⟩
  refine keeps_lift hget ?_
  intro r w' ⟨hr, hw'⟩
  subst hr hw'
  simp only [hdeleted, if_true]
  have honly : Prog.Only (fun e => ∀ new, e ≠ Call.kube (.applyStatefulSet new))
      (reconcileDelete c).run := by
    unfold reconcileDelete
    split
    · exact only_bind (only_bind (Prog.only_op.2 fun _ h => by cases h) fun _ =>
        only_forM fun _ _ => only_ignoreNotFound (Prog.only_op.2 fun _ h => by cases h)) fun _ =>
          only_bind (Prog.only_op.2 fun _ h => by cases h) fun _ => Prog.only_pure _
    · exact Prog.only_pure _
  refine honly.runs (fun e s he hs => ⟨handedOff_of_ne he, fun c' hc' => ?_⟩) fun c' hc' => ?_
  · obtain ⟨old, hold, hsame⟩ := deletion_answer hc'
    exact hsame ▸ hs old hold
  · obtain rfl : c = c' := Option.some.inj (hc.symm.trans hc')
    exact hdeleted

/-- A pass that does not find the resource makes no other call. -/
theorem runs_reconcile_gone (hnone : w.kube.cluster = none) :
    Prog.Runs (World.answer order) (HandedOff cr) (fun _ w' => w' = w)
      (reconcile cr.name cr.nspace).run w := by
  refine runs_bind.2 (runs_lift.2
    ((Prog.runs_op (c := Call.kube (.getCluster ..))).2 ⟨trivial, ?_⟩))
  have hreply : World.answer order (.kube (.getCluster cr.name cr.nspace)) w =
      (.error ApiServer.notFound, w) := by
    simp only [World.answer, ApiServer.answer, ApiServer.named, hnone, Option.filter_none]
  rw [hreply]
  exact Prog.runs_pure.2 rfl

end

/-! ## Runs with failovers -/

/-- A step of the controller or the user, or a pod that is promoted. -/
inductive Event where
  | step (s : World.Step)
  | failover (shard ordinal : Nat)
deriving DecidableEq, Repr

namespace World

def happen (order : RangeOrders) (cr : ValkeyCluster) (w : World) : Event → World
  | .step s => w.step order cr s
  | .failover shard ordinal => { w with fake := w.fake.failover (endpoint cr shard ordinal) }

/-- What has come of the resource after some events. -/
def after (order : RangeOrders) (cr : ValkeyCluster) (events : List Event) : World :=
  events.foldl (happen order cr) (start cr)

end World

/-- No slot owner of a desired shard is at an ordinal beyond the spec. -/
def PrimariesInReach (w : World) : Prop :=
  ∀ c, w.kube.cluster = some c → ∀ i < c.spec.shards, ∀ j n,
    w.fake.nodes.lookup (podFQDN c i j) = some n → ownsSlots n = true →
      j ≤ c.spec.replicasPerShard

/-- Nodes go by their keys, slots are at pods, and the resource goes by the name of `cr`. -/
structure Named (cr : ValkeyCluster) (w : World) : Prop where
  within : Within cr (fun _ _ => True) w.fake
  stored : ∀ c, w.kube.cluster = some c → c.name = cr.name ∧ c.nspace = cr.nspace

section

variable {cr c : ValkeyCluster} {order : RangeOrders} {w : World}

theorem named_start (cr : ValkeyCluster) : Named cr (World.start cr) where
  within _ _ hn := by cases hn
  stored c hc := by cases hc; exact ⟨rfl, rfl⟩

theorem Named.edit (h : Named cr w) (shards replicasPerShard : Nat) :
    Named cr (w.edit shards replicasPerShard) := by
  unfold World.edit
  split
  · exact h
  · next c hc =>
      refine ⟨h.within, fun c' hc' => ?_⟩
      rcases cluster_update hc' with hsame | ⟨hname, hns, -⟩
      · exact h.stored c' hsame
      · exact ⟨hname.trans (h.stored c hc).1, hns.trans (h.stored c hc).2⟩

theorem Named.inReach (h : Named cr w) (hc : w.kube.cluster = some c) :
    InReach c (fun _ _ => True) w := by
  obtain ⟨hname, hns⟩ := h.stored c hc
  refine ⟨fun key n hn => ⟨(h.within key n hn).id, ?_⟩, fun c' hc' => ?_⟩
  · rw [podFQDN_congr hname hns]
    exact (h.within key n hn).owner
  · obtain rfl : c = c' := Option.some.inj (hc.symm.trans hc')
    exact ⟨rfl, rfl, rfl⟩

/-- A pass for the resource. -/
theorem Named.inReach_pass (h : Named cr w) (hc : w.kube.cluster = some c)
    {ok : Nat → Nat → Prop} (hok : ∀ i, ∀ j ≤ c.spec.replicasPerShard, ok i j)
    (hreach : InReach c ok w) : InReach c ok (w.pass order cr) := by
  obtain ⟨hname, hns⟩ := h.stored c hc
  rw [World.pass, ← hname, ← hns]
  exact (Prog.runs_iff.1 (keeps_reconcile hok hreach hc)).1

theorem pass_gone (hnone : w.kube.cluster = none) : w.pass order cr = w :=
  (Prog.runs_iff.1 (runs_reconcile_gone hnone)).1

theorem Named.pass (h : Named cr w) : Named cr (w.pass order cr) := by
  cases hcluster : w.kube.cluster with
  | none => exact (pass_gone hcluster).symm ▸ h
  | some c =>
      obtain ⟨hname, hns⟩ := h.stored c hcluster
      have hend : InReach c (fun _ _ => True) (w.pass order cr) :=
        h.inReach_pass hcluster (fun _ _ _ => trivial) (h.inReach hcluster)
      refine ⟨fun key n hn => ⟨(hend.within key n hn).id, ?_⟩, fun c' hc' => ?_⟩
      · rw [← podFQDN_congr hname hns]
        exact (hend.within key n hn).owner
      · obtain ⟨hname', hns', -⟩ := hend.stored c' hc'
        exact ⟨hname'.trans hname, hns'.trans hns⟩

theorem Named.happen (h : Named cr w) (e : Event) : Named cr (w.happen order cr e) := by
  cases e with
  | failover shard ordinal => exact ⟨h.within.failover trivial, h.stored⟩
  | step s =>
      cases s with
      | edit shards replicasPerShard => exact h.edit shards replicasPerShard
      | pass => exact h.pass

theorem after_concat (events : List Event) (e : Event) :
    World.after order cr (events ++ [e]) = (World.after order cr events).happen order cr e := by
  rw [World.after, List.foldl_append]
  rfl

theorem named_after (events : List Event) : Named cr (World.after order cr events) := by
  induction events using List.reverseRecOn with
  | nil => exact named_start cr
  | append_singleton events e ih =>
      rw [after_concat]
      exact ih.happen e

/-- A pass leaves slot owners in reach, if they were. -/
theorem Named.primariesInReach_pass (h : Named cr w) (hreach : PrimariesInReach w) :
    PrimariesInReach (w.pass order cr) := by
  cases hcluster : w.kube.cluster with
  | none => exact (pass_gone hcluster).symm ▸ hreach
  | some c =>
      have hstart : InReach c (fun i j => i < c.spec.shards → j ≤ c.spec.replicasPerShard) w := by
        refine ⟨fun key n hn => ⟨((h.inReach hcluster).within key n hn).id, fun hpos => ?_⟩,
          (h.inReach hcluster).stored⟩
        obtain ⟨hprimary, i, j, rfl, -⟩ := ((h.inReach hcluster).within key n hn).owner hpos
        exact ⟨hprimary, i, j, rfl, fun hi =>
          hreach c hcluster i hi j n hn (ownsSlots_iff.2 ⟨hprimary, hpos⟩)⟩
      have hend : InReach c (fun i j => i < c.spec.shards → j ≤ c.spec.replicasPerShard)
          (w.pass order cr) := h.inReach_pass hcluster (fun _ _ hj _ => hj) hstart
      intro c' hc' i hi j n hn howns
      obtain ⟨hname, hns, hspec⟩ := hend.stored c' hc'
      rw [hspec] at hi ⊢
      obtain ⟨-, i', j', hkey, hj⟩ := (hend.within _ n hn).owner (ownsSlots_iff.1 howns).2
      rw [podFQDN_congr hname hns] at hkey
      obtain ⟨rfl, rfl⟩ := podFQDN_inj hkey
      exact hj hi

/-- Whether a pass hands off is settled where it starts. -/
theorem Named.handedOff_iff (h : Named cr w) :
    (∀ e ∈ calls (World.answer order) (reconcile cr.name cr.nspace) w, HandedOff cr e.1 e.2) ↔
      LowersInReach w := by
  cases hcluster : w.kube.cluster with
  | none =>
      refine iff_of_true (Prog.runs_iff.1 (runs_reconcile_gone hcluster)).2 fun c hc => ?_
      rw [hcluster] at hc
      cases hc
  | some c =>
      obtain ⟨hname, hns⟩ := h.stored c hcluster
      simp only [← hname, ← hns, ← handedOff_congr hname hns]
      cases hdeleted : c.deletionTimestamp with
      | none => exact handedOff_reconcile_iff order hcluster hdeleted
      | some t =>
          have hruns := Prog.runs_iff.1 (runs_reconcile_deleted order hcluster (by simp [hdeleted]))
          refine iff_of_true hruns.2 fun c' hc' halive => ?_
          obtain rfl : c = c' := Option.some.inj (hcluster.symm.trans hc')
          rw [hdeleted] at halive
          cases halive

theorem Named.lowersInReach_pass (h : Named cr w) : LowersInReach (w.pass order cr) := by
  cases hcluster : w.kube.cluster with
  | none =>
      intro c hc
      rw [pass_gone hcluster, hcluster] at hc
      cases hc
  | some c =>
      obtain ⟨hname, hns⟩ := h.stored c hcluster
      rw [World.pass, ← hname, ← hns]
      cases hdeleted : c.deletionTimestamp with
      | none => exact (counted_reconcile order hcluster hdeleted).lowersInReach
      | some t =>
          have hruns := Prog.runs_iff.1 (runs_reconcile_deleted order hcluster (by simp [hdeleted]))
          intro c' hc' halive
          have hstill := hruns.1 c' hc'
          rw [halive] at hstill
          cases hstill

/-- If the slot owners are in reach of every pass that follows an edit or a failover, they are in
reach of every pass, as no pass puts one out of reach. -/
theorem primariesInReach_before {events : List Event}
    (hreach : ∀ done e rest, events = done ++ e :: .step .pass :: rest → e ≠ .step .pass →
      PrimariesInReach (World.after order cr (done ++ [e]))) :
    ∀ done rest, events = done ++ .step .pass :: rest →
      PrimariesInReach (World.after order cr done) := by
  intro done
  induction done using List.reverseRecOn with
  | nil =>
      intro rest _ c _ i _ j n hn
      cases hn
  | append_singleton done e ih =>
      intro rest hsplit
      by_cases he : e = .step .pass
      · subst he
        rw [after_concat]
        exact (named_after done).primariesInReach_pass
          (ih (.step .pass :: rest) (by simp [hsplit]))
      · exact hreach done e rest (by simp [hsplit]) he

/-- Every pass of a run hands off exactly when each that follows an edit or a failover is in a
position to where it starts; and if the slot owners are in reach there, every pass leaves them
so. -/
theorem replicas_handed_off (order : RangeOrders) (cr : ValkeyCluster) (events : List Event) :
    ((∀ done rest, events = done ++ .step .pass :: rest →
        ∀ e ∈ calls (World.answer order) (reconcile cr.name cr.nspace)
          (World.after order cr done), HandedOff cr e.1 e.2) ↔
      ∀ done e rest, events = done ++ e :: .step .pass :: rest → e ≠ .step .pass →
        LowersInReach (World.after order cr (done ++ [e]))) ∧
    ((∀ done e rest, events = done ++ e :: .step .pass :: rest → e ≠ .step .pass →
        PrimariesInReach (World.after order cr (done ++ [e]))) →
      ∀ done rest, events = done ++ .step .pass :: rest →
        PrimariesInReach (World.after order cr done) ∧
        PrimariesInReach (World.after order cr (done ++ [.step .pass]))) := by
  refine ⟨⟨?_, ?_⟩, ?_⟩
  · intro hall done e rest hsplit _
    exact (named_after (done ++ [e])).handedOff_iff.1 (hall (done ++ [e]) rest (by simp [hsplit]))
  · intro hlowers done rest hsplit
    refine (named_after done).handedOff_iff.2 ?_
    rcases List.eq_nil_or_concat done with rfl | ⟨done, e, rfl⟩
    · intro c _ _ i _ old hold
      cases hold
    · rw [List.concat_eq_append] at hsplit ⊢
      by_cases he : e = .step .pass
      · rw [he, after_concat]
        exact (named_after done).lowersInReach_pass
      · exact hlowers done e rest (by simp [hsplit]) he
  · intro hreach done rest hsplit
    have hbefore := primariesInReach_before hreach done rest hsplit
    refine ⟨hbefore, ?_⟩
    rw [after_concat]
    exact (named_after done).primariesInReach_pass hbefore

end

/-! ## A pair that loses a pod -/

section

variable {cr : ValkeyCluster} {owner : Nat → Nat} {ranges : Nat → List SlotRange} {f : Fake}
  {i j : Nat}

theorem Healthy.eq_owner {n : NodeInfo} (h : Healthy cr owner ranges f)
    (hn : f.nodes.lookup (podFQDN cr i j) = some n) (howns : ownsSlots n = true) :
    j = owner i := by
  by_contra hne
  have hslots := (ownsSlots_iff.1 howns).2
  rw [NodeInfo.slotCount, ((h.inShard hn).rest hne).1] at hslots
  cases hslots

/-- A replica that is promoted owns the slots of its shard. -/
theorem Healthy.promoted (h : Healthy cr owner ranges f)
    (hi : i < cr.spec.shards) (hj : j ≤ cr.spec.replicasPerShard) (hne : j ≠ owner i) :
    ∃ m, (f.failover (endpoint cr i j)).nodes.lookup (podFQDN cr i j) = some m ∧
      ownsSlots m = true := by
  obtain ⟨r, hr, hrole⟩ := h.pod i hi j hj
  obtain ⟨m, hm, hmaster, hslots⟩ := h.owner_lookup hi
  obtain ⟨-, -, hfollows⟩ := hrole.rest hne
  have hcount := h.serving i hi
  rw [← hslots, slotsIn_slots] at hcount
  rw [← hfollows] at hm
  have hreplica : r.masterID ≠ "" := hfollows ▸ podFQDN_ne_empty cr i (owner i)
  have hpods : podFQDN cr i j ≠ r.masterID := by
    rw [hfollows]
    exact fun heq => hne (podFQDN_inj heq).2
  refine ⟨{ Fake.asPrimary r with slots := m.slots }, ?_, ownsSlots_iff.2 ⟨rfl, hcount⟩⟩
  unfold Fake.failover
  simp only [endpoint_host, hr, hm, if_neg hreplica]
  rw [lookup_modify_ne hpods, lookup_modify_self, hr]
  rfl

end

/-- A pair that has been formed has a StatefulSet of two pods, and the first owns the slots. -/
theorem pair_formed :
    let w := World.after (fun _ => asWritten) pair [.step .pass]
    Healthy pair (fun _ => 0) (dealtRanges 1) w.fake ∧
      (∃ c, w.kube.cluster = some c ∧ SameCluster pair c) ∧
      ∃ old ∈ w.kube.statefulSets, old.name = statefulSetName pair 0 ∧
        old.nspace = pair.nspace ∧ old.replicas = 2 := by
  obtain ⟨cr, c, hsame, hsame₁, hrest, hwork⟩ :=
    atRest_start (fun _ => asWritten) (c := pair) rfl (by decide) (by decide)
  refine ⟨hrest.healthy.congr hsame₁.symm, ⟨c, hrest.stored, hsame₁⟩,
    { statefulSet cr 0 with readyReplicas := (statefulSet cr 0).replicas }, ?_,
    congrFun (statefulSetName_congr hsame.name) 0, hsame.nspace, ?_⟩
  · have hone : List.range cr.spec.shards = [0] := by rw [hsame.spec]; rfl
    have hfirst : { statefulSet cr 0 with readyReplicas := (statefulSet cr 0).replicas } ∈
        ((World.start pair).provided cr).kube.statefulSets := by
      rw [World.provided, ApiServer.ensured, hone]
      show _ ∈ ApiServer.putSet { statefulSet cr 0 with readyReplicas := _ } []
      exact mem_putSet_self _
    rwa [← hwork.1] at hfirst
  · show 1 + cr.spec.replicasPerShard = 2
    rw [hsame.spec]
    rfl

/-- It is told to have no replica, whatever has become of its nodes. -/
theorem pair_told {w : World}
    (hw : w.kube = (World.after (fun _ => asWritten) pair [.step .pass]).kube) :
    ∃ c, (w.edit 1 0).kube.cluster = some c ∧ (w.edit 1 0).fake = w.fake ∧
      (c.name = pair.name ∧ c.nspace = pair.nspace ∧ c.deletionTimestamp = none) ∧
      c.spec.shards = 1 ∧ c.spec.replicasPerShard = 0 ∧
      ∃ old ∈ (w.edit 1 0).kube.statefulSets, old.name = statefulSetName pair 0 ∧
        old.nspace = pair.nspace ∧ old.replicas = 2 := by
  obtain ⟨-, ⟨c, hc, hsame⟩, old, hold, hset⟩ := pair_formed
  obtain ⟨k, hedit, hsets, -, c', hc', hname, hns, halive, hspec⟩ :=
    edit_kube (w := w) (hw ▸ hc) hsame.deletion 1 0
  rw [hedit]
  refine ⟨c', hc', rfl, ⟨hname.trans hsame.name, hns.trans hsame.nspace, halive⟩, ?_, ?_, old, ?_,
    hset⟩
  · rw [hspec]
  · rw [hspec]
  · show old ∈ k.statefulSets
    rw [hsets, hw]
    exact hold

/-- A pair loses its replica. The StatefulSet goes from two pods to one, and the owner of the
slots is the one that stays. -/
theorem replicas_handed_off_pair :
    let w := World.after (fun _ => asWritten) pair [.step .pass, .step (.edit 1 0)]
    let passCalls := calls (World.answer fun _ => asWritten) (reconcile pair.name pair.nspace) w
    (∃ new w' old n, (Call.kube (.applyStatefulSet new), w') ∈ passCalls ∧
      old ∈ w'.kube.statefulSets ∧ (old.name = new.name ∧ old.nspace = new.nspace) ∧
      old.replicas = 2 ∧ new.replicas = 1 ∧
      w'.fake.nodes.lookup (podFQDN pair 0 0) = some n ∧ ownsSlots n = true) ∧
    ∀ e ∈ passCalls, HandedOff pair e.1 e.2 := by
  intro w passCalls
  obtain ⟨hhealthy, -⟩ := pair_formed
  obtain ⟨c, hc, hfake, ⟨hname, hns, halive⟩, hshards, hreplicas, old, hold, hset, holdns,
    hcount⟩ :=
    pair_told (w := World.after (fun _ => asWritten) pair [.step .pass]) rfl
  constructor
  · obtain ⟨n, hn, hmaster, hslots⟩ := hhealthy.owner_lookup (i := 0) (by decide)
    have hpos := hhealthy.serving 0 (by decide)
    rw [← hslots, slotsIn_slots] at hpos
    obtain ⟨cr, w', hsame, hfake', hold', hmem⟩ := mem_calls_applyStatefulSet
      (fun _ => asWritten) (w := w) hc halive (i := 0) (by rw [hshards]; exact Nat.one_pos) hold
      (by rw [statefulSetName_congr hname]; exact hset)
    rw [hname, hns] at hmem
    refine ⟨_, w', old, n, hmem, hold', ⟨?_, ?_⟩, hcount, ?_, ?_,
      ownsSlots_iff.2 ⟨isPrimary_of_masterID hmaster, hpos⟩⟩
    · exact hset.trans (congrFun (statefulSetName_congr (hsame.name.trans hname)) 0).symm
    · exact holdns.trans (hsame.nspace.trans hns).symm
    · show 1 + cr.spec.replicasPerShard = 1
      rw [hsame.spec, hreplicas]
    · rw [hfake', show w.fake = _ from hfake]
      exact hn
  · refine (replicas_handed_off (fun _ => asWritten) pair
      [.step .pass, .step (.edit 1 0), .step .pass]).1.2 ?_
      [.step .pass, .step (.edit 1 0)] [] rfl
    intro done e rest hsplit hne
    obtain ⟨rfl, rfl⟩ : done = [.step .pass] ∧ e = .step (.edit 1 0) := by
      rcases done with _ | ⟨d, _ | ⟨d', _ | ⟨d'', done⟩⟩⟩
      · cases hsplit
      · cases hsplit
        exact ⟨rfl, rfl⟩
      · cases hsplit
      · simp at hsplit
    intro c' hc' _ i hi _ _ _ _ _ j n hn howns
    obtain rfl : c = c' := Option.some.inj (hc.symm.trans hc')
    rw [podFQDN_congr hname hns] at hn
    replace hn := (congrArg (fun f : Fake => f.nodes.lookup _) hfake).symm.trans hn
    rw [hhealthy.eq_owner hn howns]
    exact Nat.zero_le _

/-- The replica of a pair is promoted, and then the spec wants no replica. -/
theorem primary_not_handed_off :
    ∃ e ∈ calls (World.answer fun _ => asWritten) (reconcile pair.name pair.nspace)
        (World.after (fun _ => asWritten) pair
          [.step .pass, .failover 0 1, .step (.edit 1 0)]),
      ¬ HandedOff pair e.1 e.2 := by
  by_contra hnone
  push Not at hnone
  obtain ⟨hhealthy, -⟩ := pair_formed
  obtain ⟨m, hm, howns⟩ := hhealthy.promoted (i := 0) (j := 1) (by decide) (by decide) (by decide)
  obtain ⟨c, hc, hfake, ⟨hname, hns, halive⟩, hshards, hreplicas, old, hold, hset, holdns,
    hcount⟩ :=
    pair_told (w := World.after (fun _ => asWritten) pair [.step .pass, .failover 0 1]) rfl
  have hlowers : LowersInReach (World.after (fun _ => asWritten) pair
      [.step .pass, .failover 0 1, .step (.edit 1 0)]) :=
    (named_after _).handedOff_iff.1 hnone
  -- the set still has the pod that was promoted
  have hlow : 1 ≤ c.spec.replicasPerShard := by
    refine hlowers c hc halive 0 (by omega) old hold ?_ (holdns.trans hns.symm) (by omega) 1 m ?_
      howns
    · rw [statefulSetName_congr hname]
      exact hset
    · rw [podFQDN_congr hname hns]
      exact (congrArg (fun f : Fake => f.nodes.lookup _) hfake).trans hm
  omega

end Valkeyop.Controller
