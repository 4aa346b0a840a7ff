import Valkeyop.Proofs.LiveScaling
import Valkeyop.Proofs.StaleNodes

/-!
# Draining a shard that serves

The other direction of scaling: the first departing shard hands its slots to the first shard, a
batch each pass, while clients read. As with the filling of new shards the passes are followed on
the ledger and carried to the servers by the refinement.
-/

namespace Valkeyop.Controller

open Valkeyop.Lib Valkeyop.Lib.Fallible Valkeyop.Cluster Valkeyop.Api Valkeyop.Resources

variable {κ ν : Type}

/-- Who answers at a pod. -/
def dialled (idAt : String → String) (cr : ValkeyCluster) (shard ordinal : Nat) : String :=
  idAt (dialAddr (endpoint cr shard ordinal).host (endpoint cr shard ordinal).port)

/-- The first primary among the pods of a shard. -/
structure Leads (cr : ValkeyCluster) (nodes : List NodeInfo) (idAt : String → String) (shard : Nat)
    (m : NodeInfo) : Prop where
  listed : m ∈ nodes
  isPrimary : m.isPrimary = true
  first : ∃ j ≤ cr.spec.replicasPerShard, dialled idAt cr shard j = m.id ∧
    ∀ j' < j, ¬ ListedPrimary nodes (dialled idAt cr shard j')

section

variable {nodes : List NodeInfo} {idAt : String → String} {orders : RangeOrders} {ep : Endpoint}
  {cr : ValkeyCluster} {w : Site (Ledger κ ν)} {l : Ledger κ ν} {m s t : NodeInfo} {shard : Nat}

theorem Site.kubeBacked {S : Type} (admin : (c : AdminCall) → S → c.Reply × S)
    (orders : RangeOrders) :
    KubeBacked (Site.answer admin orders) Site.kube fun k w => { w with kube := k } where
  answer _ _ := rfl
  kube_put _ _ := rfl
  put_kube _ := rfl
  put_put _ _ _ := rfl

theorem ownsSlots_listed (m : NodeInfo) :
    ownsSlots (m.withSlots (slotRuns (l.slotsOf m.id))) = true ↔
      m.isPrimary = true ∧ 0 < (l.slotsOf m.id).length := by
  rw [ownsSlots, Bool.and_eq_true, NodeInfo.isPrimary_withSlots, decide_eq_true_iff,
    Ledger.slotCount_listed, gt_iff_lt, Int.natCast_pos]

/-- The pods are dialled in order until one is a primary with slots. -/
theorem runs_findSlotOwner_listed (hids : (nodes.map (·.id)).Nodup) (hm : m ∈ nodes)
    (hmp : m.isPrimary = true) (hlen : 0 < (l.slotsOf m.id).length) {j : Nat}
    (hj : dialled idAt cr shard j = m.id)
    (hbefore : ∀ j' < j, ¬ ListedPrimary nodes (dialled idAt cr shard j')) :
    ∀ n start, start ≤ j → j < start + n →
      Prog.Runs (Site.answer (Ledger.answer nodes idAt) orders) (fun c _ => Booked nodes ep c)
        (fun r w' => r = some (m.id, j) ∧ w' = w)
        (findSlotOwner cr shard (byID (l.state nodes)) (List.range' start n)) w := by
  intro n
  induction n with
  | zero => intro start hle hlt; omega
  | succ n ih =>
      intro start hle hlt
      rw [List.range'_succ, findSlotOwner]
      refine Prog.runs_bind.2 ((Prog.runs_op
        (c := Call.admin (.myID (endpoint cr shard start)))).2 ⟨trivial, ?_⟩)
      have hskip : ∀ id, id = dialled idAt cr shard start → start ≠ j →
          ∀ x, (byID (l.state nodes)).lookup id = some x → ownsSlots x = false := by
        rintro _ rfl hne x hx
        obtain ⟨m', hm', hid, rfl⟩ := (lookup_byID_listed hids).1 hx
        rw [Bool.eq_false_iff, ne_eq, ownsSlots_listed]
        exact fun howns => hbefore start (by omega) ⟨m', hm', howns.1, hid⟩
      have hreply : Site.answer (Ledger.answer nodes idAt) orders
          (.admin (.myID (endpoint cr shard start))) w =
          (Except.ok (dialled idAt cr shard start), w) := rfl
      simp only [hreply]
      by_cases hstart : start = j
      · have hfound := (lookup_byID_listed (l := l) hids).2 ⟨m, hm, rfl, rfl⟩
        rw [hstart, hj]
        simp only [hfound, (ownsSlots_listed m).2 ⟨hmp, hlen⟩, if_true]
        exact Prog.runs_pure.2 ⟨rfl, rfl⟩
      · split
        · next x hx =>
            rw [if_neg (Bool.eq_false_iff.1 (hskip _ rfl hstart x hx))]
            exact ih (start + 1) (by omega) (by omega)
        · exact ih (start + 1) (by omega) (by omega)

theorem runs_findShardPrimary_listed (hids : (nodes.map (·.id)).Nodup)
    (h : Leads cr nodes idAt shard m) (hlen : 0 < (l.slotsOf m.id).length) :
    Prog.Runs (Site.answer (Ledger.answer nodes idAt) orders) (fun c _ => Booked nodes ep c)
      (fun r w' => r.1 = m.id ∧ w' = w) (findShardPrimary cr shard (byID (l.state nodes))) w := by
  obtain ⟨j, hj, hdial, hbefore⟩ := h.first
  rw [findShardPrimary, List.range_eq_range']
  refine Prog.runs_bind.2 ((runs_findSlotOwner_listed hids h.listed h.isPrimary hlen hdial hbefore
    _ 0 (Nat.zero_le j) (by omega)).mono ?_)
  rintro _ _ ⟨rfl, rfl⟩
  exact Prog.runs_pure.2 ⟨rfl, rfl⟩

theorem runs_firstSurvivorPrimary_listed (hids : (nodes.map (·.id)).Nodup)
    (hnames : ∀ m ∈ nodes, m.id ≠ "") (hshards : 0 < cr.spec.shards)
    (ht : Leads cr nodes idAt 0 t) (hlen : 0 < (l.slotsOf t.id).length) (hne : s.id ≠ t.id) :
    Prog.Runs (Site.answer (Ledger.answer nodes idAt) orders) (fun c _ => Booked nodes ep c)
      (fun r w' => r = t.id ∧ w' = w)
      (firstSurvivorPrimary cr (byID (l.state nodes)) s.id (List.range cr.spec.shards)) w := by
  obtain ⟨n, hn⟩ : ∃ n, cr.spec.shards = n + 1 := ⟨cr.spec.shards - 1, by omega⟩
  rw [hn, List.range_succ_eq_map, firstSurvivorPrimary]
  refine Prog.runs_bind.2 ((runs_findShardPrimary_listed hids ht hlen).mono ?_)
  rintro r _ ⟨hr, rfl⟩
  have hsurv : t.id ≠ "" ∧ t.id ≠ s.id := ⟨hnames t ht.listed, hne.symm⟩
  simp only [hr, if_pos hsurv]
  exact Prog.runs_pure.2 ⟨rfl, rfl⟩

/-- What one batch makes of the books. -/
def drained (s t : NodeInfo) (l : Ledger κ ν) : Ledger κ ν :=
  l.reassign (l.chosen s.id (min drainBatchSlots (l.slotsOf s.id).length)) t.id

theorem succeeds_drainShard_listed (hids : (nodes.map (·.id)).Nodup)
    (hnames : ∀ m ∈ nodes, m.id ≠ "") (hshards : 0 < cr.spec.shards) (hs : s ∈ nodes)
    (hsp : s.isPrimary = true) (ht : Leads cr nodes idAt 0 t)
    (hlen : 0 < (w.cluster.slotsOf t.id).length) (hne : s.id ≠ t.id) :
    Succeeds (Site.answer (Ledger.answer nodes idAt) orders)
      (fun c _ => Booked nodes (seed cr) c)
      (fun _ w' => w' = { w with cluster := drained s t w.cluster })
      (drainShard cr shard (byID (w.cluster.state nodes)) s.id) w := by
  refine succeeds_bind.2 (succeeds_lift.2
    ((runs_firstSurvivorPrimary_listed hids hnames hshards ht hlen hne).mono ?_))
  rintro _ w ⟨rfl, rfl⟩
  simp only [if_neg (hnames t ht.listed), slotCount_get_byID hids hs]
  refine succeeds_bind.2 (succeeds_lift.2
    (runs_moveSlots_listed hs hsp ht.listed ht.isPrimary hne ?_))
  exact succeeds_pure.2 rfl

theorem succeeds_removeShards_listed (hids : (nodes.map (·.id)).Nodup)
    (hnames : ∀ m ∈ nodes, m.id ≠ "") (hshards : 0 < cr.spec.shards)
    (hleads : Leads cr nodes idAt shard s) (hshard : cr.spec.shards ≤ shard)
    (ht : Leads cr nodes idAt 0 t) (hne : s.id ≠ t.id)
    (hslen : 0 < (w.cluster.slotsOf s.id).length) (htlen : 0 < (w.cluster.slotsOf t.id).length) :
    ∀ idxs : List Nat, idxs.Pairwise (· < ·) → shard ∈ idxs →
      (∀ i ∈ idxs, cr.spec.shards ≤ i → shard ≤ i) →
      Succeeds (Site.answer (Ledger.answer nodes idAt) orders)
        (fun c _ => Booked nodes (seed cr) c)
        (fun _ w' => w' = { w with cluster := drained s t w.cluster })
        (removeShards cr idxs) w := by
  intro idxs
  induction idxs with
  | nil => exact fun _ hmem => absurd hmem List.not_mem_nil
  | cons i idxs ih =>
      intro hsorted hmem hleast
      obtain ⟨hlt, hsorted⟩ := List.pairwise_cons.1 hsorted
      rw [removeShards]
      split
      · next hi =>
          have hlater : shard ∈ idxs := (List.mem_cons.1 hmem).resolve_left (by omega)
          exact ih hsorted hlater fun i' hi' => hleast i' (List.mem_cons_of_mem _ hi')
      · next hi =>
          obtain rfl : i = shard := by
            have hle := hleast i (List.mem_cons_self ..) (by omega)
            rcases List.mem_cons.1 hmem with heq | hlater
            · exact heq.symm
            · exact absurd (hlt shard hlater) (by omega)
          refine succeeds_bind.2 (succeeds_state_listed ?_)
          refine succeeds_bind.2 (succeeds_lift.2
            ((runs_findShardPrimary_listed hids hleads hslen).mono ?_))
          rintro r w ⟨hr, rfl⟩
          have hdrain : s.id ≠ "" ∧
              (NodeMap.get (byID (w.cluster.state nodes)) s.id).slotCount > 0 := by
            rw [slotCount_get_byID hids hleads.listed]
            exact ⟨hnames s hleads.listed, by omega⟩
          simp only [hr, if_pos hdrain]
          exact succeeds_drainShard_listed hids hnames hshards hleads.listed hleads.isPrimary ht
            htlen hne

theorem succeeds_sweep_listed (hown : OwnSets cr w.kube.statefulSets)
    (hknown : ∀ m ∈ nodes, ¬ Stale cr w.kube.statefulSets m) :
    Succeeds (Site.answer (Ledger.answer nodes idAt) orders)
      (fun c _ => Booked nodes (seed cr) c) (fun _ w' => w' = w) (sweep cr) w := by
  have hstate : Succeeds (Site.answer (Ledger.answer nodes idAt) orders)
      (fun c _ => Booked nodes (seed cr) c) (fun st w' => st = w.cluster.state nodes ∧ w' = w)
      (Admin.state (seed cr)) w := succeeds_state_listed ⟨rfl, rfl⟩
  have hhosts : Succeeds (Site.answer (Ledger.answer nodes idAt) orders)
      (fun c _ => Booked nodes (seed cr) c)
      (fun r w' => r = podHosts cr w.kube.statefulSets ∧ w' = w) (existingPodHosts cr) w :=
    succeeds_of_only (only_existingPodHosts trivial)
      (exec_existingPodHosts (Site.kubeBacked (Ledger.answer nodes idAt) orders) hown)
  refine succeeds_bind.2 (succeeds_attempt.2 (hstate.runs ?_))
  rintro _ w ⟨rfl, rfl⟩
  refine succeeds_lift.2 (Prog.runs_bind.2 (hhosts.runs ?_))
  rintro _ w ⟨rfl, rfl⟩
  refine Prog.Runs.forM_inv (fun m hm w₁ hw₁ => ?_) rfl
  change m ∈ w.cluster.listed nodes at hm
  rw [Ledger.listed, List.mem_map] at hm
  obtain ⟨m, hm, rfl⟩ := hm
  have hfresh := hknown m hm
  rw [Stale, ← NodeInfo.host_withSlots m (slotRuns (w.cluster.slotsOf m.id))] at hfresh
  rw [if_neg hfresh]
  exact Prog.runs_pure.2 hw₁

/-- A shard is leaving: it is the first with a StatefulSet beyond the desired ones, the first
shard is there to take its slots, and every listed node is a pod of some StatefulSet. -/
structure Draining (cr : ValkeyCluster) (nodes : List NodeInfo) (idAt : String → String)
    (sets : List StatefulSet) (shard : Nat) (s t : NodeInfo) : Prop where
  own : OwnSets cr sets
  known : ∀ m ∈ nodes, ¬ Stale cr sets m
  survivors : 0 < cr.spec.shards
  departing : cr.spec.shards ≤ shard
  hasSet : HasSet cr sets shard
  least : ∀ i, HasSet cr sets i → cr.spec.shards ≤ i → shard ≤ i
  source : Leads cr nodes idAt shard s
  target : Leads cr nodes idAt 0 t
  apart : s.id ≠ t.id

/-- A pass drains one batch. -/
theorem succeeds_scaleIn_listed (hids : (nodes.map (·.id)).Nodup)
    (hnames : ∀ m ∈ nodes, m.id ≠ "")
    (hd : Draining cr nodes idAt w.kube.statefulSets shard s t)
    (hslen : 0 < (w.cluster.slotsOf s.id).length) (htlen : 0 < (w.cluster.slotsOf t.id).length) :
    Succeeds (Site.answer (Ledger.answer nodes idAt) orders)
      (fun c _ => Booked nodes (seed cr) c)
      (fun _ w' => w' = { w with cluster := drained s t w.cluster }) (scaleIn cr) w := by
  refine succeeds_bind.2 ((succeeds_sweep_listed hd.own hd.known).mono ?_)
  rintro _ w rfl
  have hidxs : Succeeds (Site.answer (Ledger.answer nodes idAt) orders)
      (fun c _ => Booked nodes (seed cr) c)
      (fun r w' => r = labelIndexes w.kube.statefulSets ∧ w' = w) (existingShardIndexes cr) w :=
    succeeds_of_only (only_existingShardIndexes trivial)
      (exec_existingShardIndexes (Site.kubeBacked (Ledger.answer nodes idAt) orders) hd.own)
  refine succeeds_bind.2 (hidxs.mono ?_)
  rintro _ w ⟨rfl, rfl⟩
  refine succeeds_removeShards_listed hids hnames hd.survivors hd.source hd.departing hd.target
    hd.apart hslen htlen _ (setIndexes_pairwise hd.own) ((mem_setIndexes hd.own).2 hd.hasSet)
    fun i hi => hd.least i ((mem_setIndexes hd.own).1 hi)

/-- `n` batches have gone from `s` to `t`. -/
structure Emptied (s t : NodeInfo) (n : Nat) (l l' : Ledger κ ν) : Prop where
  favours : l.Favours t.id l'
  source : (l'.slotsOf s.id).length = (l.slotsOf s.id).length - 1024 * n
  target : (l.slotsOf t.id).length ≤ (l'.slotsOf t.id).length
  others : ∀ id, id ≠ s.id → id ≠ t.id → l'.slotsOf id = l.slotsOf id

theorem Emptied.drained {n : Nat} {l₁ : Ledger κ ν} (h : Emptied s t n l l₁) (hne : s.id ≠ t.id) :
    Emptied s t (n + 1) l (drained s t l₁) where
  favours := h.favours.trans (Ledger.favours_reassign ..)
  source := by
    have hlen := Ledger.length_slotsOf_source (l := l₁)
      (n := min drainBatchSlots ((l₁.slotsOf s.id).length : Int)) hne
    have htaken := Ledger.length_chosen (l := l₁) (a := s.id)
      (n := min drainBatchSlots ((l₁.slotsOf s.id).length : Int)) (by omega)
    have hbefore := h.source
    simp only [drainBatchSlots] at hlen htaken
    rw [Controller.drained]
    simp only [drainBatchSlots]
    omega
  target := by
    rw [Controller.drained, Ledger.length_slotsOf_target hne]
    exact h.target.trans (Nat.le_add_right ..)
  others id hs ht := by
    rw [Controller.drained, Ledger.slotsOf_reassign hs ht]
    exact h.others id hs ht

theorem succeeds_scaleIns {n : Nat} (hids : (nodes.map (·.id)).Nodup)
    (hnames : ∀ m ∈ nodes, m.id ≠ "")
    (hd : Draining cr nodes idAt w.kube.statefulSets shard s t)
    (hn : 1024 * n < (w.cluster.slotsOf s.id).length + 1024)
    (htlen : 0 < (w.cluster.slotsOf t.id).length) :
    Succeeds (Site.answer (Ledger.answer nodes idAt) orders)
      (fun c _ => Booked nodes (seed cr) c)
      (fun _ w' => w'.kube = w.kube ∧ Emptied s t n w.cluster w'.cluster)
      ((List.range n).forM fun _ => scaleIn cr) w := by
  have hstart : Emptied s t 0 w.cluster w.cluster :=
    ⟨.refl .., by omega, le_rfl, fun _ _ _ => rfl⟩
  have hpasses : Succeeds (Site.answer (Ledger.answer nodes idAt) orders)
      (fun c _ => Booked nodes (seed cr) c)
      (fun _ w' => w'.kube = w.kube ∧ Emptied s t (List.range n).length w.cluster w'.cluster)
      ((List.range n).forM fun _ => scaleIn cr) w := by
    refine Succeeds.forM (I := fun done (w' : Site (Ledger κ ν)) => w'.kube = w.kube ∧
      Emptied s t done.length w.cluster w'.cluster) ?_ ⟨rfl, hstart⟩
    rintro done i todo hsplit w₁ ⟨hkube, h⟩
    have hlt : done.length < n := by
      have hlen := congrArg List.length hsplit
      simp only [List.length_range, List.length_append, List.length_cons] at hlen
      omega
    have hsource := h.source
    have htarget := h.target
    refine (succeeds_scaleIn_listed hids hnames (hkube ▸ hd) (by omega) (by omega)).mono ?_
    rintro _ _ rfl
    rw [List.length_append, List.length_singleton]
    exact ⟨hkube, h.drained hd.apart⟩
  rwa [List.length_range] at hpasses

end

/-- Scaling in a cluster that serves: `n` passes over a departing shard go through and move 1024
slots each, or what is left, to the first shard; until it is empty nothing is torn down. The
masters agree on the new arrangement, and a client that asks any of them for any key reads what
it would have read before. -/
theorem scaleIn_drains_serving [DecidableEq κ] {slotOf : κ → Int} {p : Printer κ ν}
    {cr : ValkeyCluster} {fuel : Nat} {nodes : List NodeInfo} {idAt : String → String}
    {l : Ledger κ ν} {net : Net κ ν} {order : List Int → List Int} {shard n : Nat}
    {s t : NodeInfo} {addrOf : String → String} (orders : RangeOrders)
    (kube : ApiServer) (ranges : Nat) (horder : ∀ l, (order l).Perm l)
    (h : Stands slotOf p (seed cr) fuel nodes idAt l net) (hl : l.Served nodes)
    (hd : Draining cr nodes idAt kube.statefulSets shard s t)
    (hn : 1024 * n < (l.slotsOf s.id).length + 1024) (htlen : 0 < (l.slotsOf t.id).length)
    (haddr : ∀ m ∈ nodes, addrOf m.id = clientFor m) :
    ∃ l' v, exec (Site.answer (Net.answer slotOf p order fuel) orders)
        ((List.range n).forM fun _ => scaleIn cr) ⟨net, kube, ranges⟩ = (.ok ⟨⟩, v) ∧
      v.kube = kube ∧ Stands slotOf p (seed cr) fuel nodes idAt l' v.cluster ∧
      (l'.slotsOf s.id).length = (l.slotsOf s.id).length - 1024 * n ∧
      (∀ i, l'.owner i = l.owner i ∨ l'.owner i = some t.id) ∧
      (∀ id, id ≠ s.id → id ≠ t.id → l'.slotsOf id = l.slotsOf id) ∧
      ∀ k, slotOf k ∈ allSlots → ∀ x ∈ masterClients nodes,
        fetch slotOf addrOf v.cluster k 2 x false = some (l.data k) := by
  have hpasses : Succeeds (Site.answer (Ledger.answer nodes idAt) orders)
      (fun c _ => Booked nodes (seed cr) c) _ _ (⟨l, kube, ranges⟩ : Site (Ledger κ ν)) :=
    succeeds_scaleIns h.nodup_ids h.names hd hn htlen
  obtain ⟨_, w', v, hexec, ⟨hkube, he⟩, hv, hstands, hdata⟩ := succeeds_servers horder h hpasses
  refine ⟨w'.cluster, v, hexec, hv.trans hkube, hstands, he.source, he.favours.owner, he.others,
    fun k hk x hx => ?_⟩
  obtain ⟨m, hm, hmp, howner⟩ := he.favours.served hl hd.target.listed hd.target.isPrimary rfl _ hk
  rw [hstands.fetch haddr hm hmp howner hx, hdata]

/-- The StatefulSets of both shards, of which the spec wants one. -/
def twinKube : ApiServer where
  cluster := some (twin 1)
  statefulSets := [statefulSet (twin 1) 0, statefulSet (twin 1) 1]

theorem draining_twin : Draining (twin 1) twinNodes (fun x => twinName (twinPrinter.home x))
    twinKube.statefulSets 1 twinB twinA := by
  have hown : OwnSets (twin 1) ([0, 1].map (statefulSet (twin 1))) :=
    .map (fun _ => rfl) (fun _ => rfl) (fun _ => rfl) (by decide) (by decide)
  have hset : ∀ i, i = 0 ∨ i = 1 → HasSet (twin 1) twinKube.statefulSets i := by
    rintro i (rfl | rfl)
    · exact List.mem_cons_self ..
    · exact List.mem_cons_of_mem _ (List.mem_cons_self ..)
  have hhosts : twinA.host = podFQDN (twin 1) 0 0 ∧ twinB.host = podFQDN (twin 1) 1 0 := by decide
  have hdial : dialled (fun x => twinName (twinPrinter.home x)) (twin 1) 0 0 = twinA.id ∧
      dialled (fun x => twinName (twinPrinter.home x)) (twin 1) 1 0 = twinB.id := by decide
  refine ⟨hown, fun m hm hstale => hstale.2 ((mem_podHosts hown).2 ?_), by decide, le_rfl,
    hset 1 (.inr rfl), fun i _ hi => hi, ⟨mem_twinNodes.2, by decide, 0, le_rfl, hdial.2, ?_⟩,
    ⟨mem_twinNodes.1, by decide, 0, le_rfl, hdial.1, ?_⟩, by decide⟩
  · rcases List.mem_pair.1 hm with rfl | rfl
    · exact ⟨0, 0, hset 0 (.inl rfl), le_rfl, hhosts.1⟩
    · exact ⟨1, 0, hset 1 (.inr rfl), le_rfl, hhosts.2⟩
  · intro j hj
    omega
  · intro j hj
    omega

theorem length_slotsOf_twinB {l : Ledger Nat String}
    (howner : ∀ s, l.owner s = if 8192 ≤ s then some "a" else some "b") :
    (l.slotsOf "b").length = 8192 := by
  have hperm : (l.slotsOf "b").Perm ((List.range 8192).map Int.ofNat) := by
    refine (List.perm_ext_iff_of_nodup Ledger.nodup_slotsOf
      (List.nodup_range.map Int.ofNat_injective)).2 fun s => ?_
    rw [Ledger.mem_slotsOf, mem_allSlots, howner, List.mem_map]
    constructor
    · rintro ⟨⟨hs₀, -⟩, hs⟩
      have hlow : s < 8192 := by
        by_contra hhigh
        rw [if_pos (by omega)] at hs
        exact absurd hs (by decide)
      exact ⟨s.toNat, List.mem_range.2 (by omega), Int.toNat_of_nonneg hs₀⟩
    · rintro ⟨k, hk, rfl⟩
      have hlow := List.mem_range.1 hk
      simp only [Int.ofNat_eq_natCast, totalSlots]
      exact ⟨by omega, if_neg (by omega)⟩
  rw [hperm.length_eq, List.length_map, List.length_range]

/-- Eight passes empty a shard that has half of the slots, and its key is still read. -/
theorem scaleIn_drains_serving_twin :
    ∃ (l' : Ledger Nat String) (v : Site (Net Nat String)),
      exec (Site.answer (Net.answer (fun _ => 0) twinPrinter id 2) fun _ => asWritten)
        ((List.range 8).forM fun _ => scaleIn (twin 1))
        ⟨twinNet fun s => decide (8192 ≤ s), twinKube, 0⟩ = (.ok ⟨⟩, v) ∧
      l'.slotsOf "b" = [] ∧ (∀ s, (v.cluster "10.0.0.1:6379").owner s = l'.owner s) ∧
      fetch (fun _ => 0) twinAddr v.cluster 0 2 "10.0.0.1:6379" false = some (some "x") := by
  have horder : ∀ l : List Int, (id l).Perm l := fun l => .refl l
  obtain ⟨l, hl⟩ : ∃ l : Ledger Nat String, l = twinLedger fun s => decide (8192 ≤ s) := ⟨_, rfl⟩
  have hstands := stands_twin 1 fun s => decide (8192 ≤ s)
  rw [← hl] at hstands
  have howner : ∀ s, l.owner s = if 8192 ≤ s then some "a" else some "b" := by
    intro s
    rw [hl, twinLedger]
    by_cases hs : 8192 ≤ s
    · simp [hs]
    · simp [hs]
  have hserved : l.Served twinNodes := by
    intro s _
    rw [howner]
    split
    · exact ⟨twinA, mem_twinNodes.1, by decide, rfl⟩
    · exact ⟨twinB, mem_twinNodes.2, by decide, rfl⟩
  have hb : (l.slotsOf "b").length = 8192 := length_slotsOf_twinB howner
  have ha : 0 < (l.slotsOf "a").length :=
    List.length_pos_of_mem (Ledger.mem_slotsOf.2 ⟨mem_allSlots.2 (by decide : 0 ≤ (8192 : Int) ∧ _),
      by rw [howner, if_pos le_rfl]⟩)
  have haddr : ∀ m ∈ twinNodes, twinAddr m.id = clientFor m := by decide
  obtain ⟨l', v, hexec, -, hstands', hleft, -, -, hread⟩ := scaleIn_drains_serving (n := 8)
    (fun _ => asWritten) twinKube 0 horder hstands hserved draining_twin
    (by rw [show twinB.id = "b" from rfl, hb]; omega) ha haddr
  have hsettled := hstands'.intact.settled
  rw [masterClients_listed] at hsettled
  refine ⟨l', v, hexec, List.eq_nil_of_length_eq_zero ?_, hsettled.owner _ twinA_master, ?_⟩
  · rw [show twinB.id = "b" from rfl, hb] at hleft
    omega
  · have hkey := hread 0 (mem_allSlots.2 (by decide)) _ twinA_master
    rwa [hl] at hkey

end Valkeyop.Controller
