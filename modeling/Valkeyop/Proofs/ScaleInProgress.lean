import Valkeyop.Proofs.Conditions
import Valkeyop.Proofs.FakePass

/-!
# Scaling in ends

One call of `scaleIn` either drains a batch of a departing shard, and then the slots
of the departing shards get fewer, or finds none of them with slots, and then their
StatefulSets go. So the pair of the two counts falls in lexicographic order, whatever
gaps there are among the departing shards and whatever else the cluster knows of nodes
without slots.
-/

namespace Valkeyop.Controller

open Valkeyop.Lib Valkeyop.Lib.Fallible Valkeyop.Cluster Valkeyop.Api Valkeyop.Resources

/-! ## On placements -/

namespace Placement

open Finset

/-- The shards beyond the first `n` that have a StatefulSet. -/
def departing (n : ℕ) (p : Placement) : Finset ℕ := p.sets.filter fun i => n ≤ i

def departingSlots (n : ℕ) (p : Placement) : ℕ := ∑ i ∈ p.departing n, p.slots i

section

variable {n : ℕ} {idxs : List ℕ} {p q : Placement}

theorem mem_departing {i : ℕ} : i ∈ p.departing n ↔ i ∈ p.sets ∧ n ≤ i := mem_filter

/-- The slots of the departing shards, summed over any set between their owners and
all shards that may depart. -/
theorem departingSlots_eq {s : Finset ℕ} (hs : ∀ i ∈ s, n ≤ i)
    (howners : ∀ i, n ≤ i → 0 < p.slots i → i ∈ s) :
    p.departingSlots n = ∑ i ∈ s, p.slots i := by
  have hle : ∀ t : Finset ℕ, (∀ i ∈ t, n ≤ i) → (∀ i, n ≤ i → 0 < p.slots i → i ∈ t) →
      ∑ i ∈ t, p.slots i = ∑ i ∈ p.owners.filter (n ≤ ·), p.slots i := by
    intro t ht hin
    refine (sum_subset (fun i hi => ?_) fun i hi hni => ?_).symm
    · obtain ⟨hi, hge⟩ := mem_filter.1 hi
      exact hin i hge (mem_owners.1 hi)
    · refine Nat.eq_zero_of_not_pos fun hpos => hni ?_
      exact mem_filter.2 ⟨mem_owners.2 hpos, ht i hi⟩
  rw [departingSlots, hle _ (fun i hi => (mem_departing.1 hi).2)
    fun i hge hpos => mem_departing.2 ⟨p.housed i hpos, hge⟩, hle s hs howners]

theorem total_eq_departing (hsub : ∀ i < n, i ∈ p.sets) :
    p.total = ∑ i ∈ range n, p.slots i + p.departingSlots n := by
  have hsplit := sum_filter_add_sum_filter_not p.sets (fun i => n ≤ i) p.slots
  have hfirst : p.sets.filter (fun i => ¬ n ≤ i) = range n := by
    ext i
    rw [mem_filter, mem_range]
    constructor
    · intro hi
      omega
    · intro hi
      exact ⟨hsub i hi, by omega⟩
  rw [hfirst] at hsplit
  rw [total, departingSlots, departing]
  omega

/-- What one call does. -/
structure Progress (n : ℕ) (p q : Placement) : Prop where
  falls : Prod.Lex (· < ·) (· < ·) (q.departingSlots n, (q.departing n).card)
    (p.departingSlots n, (p.departing n).card)
  survivors : ∀ i < n, p.slots i ≤ q.slots i
  others : ∀ i, n ≤ i → q.slots i ≤ p.slots i
  batch : p.departingSlots n ≤ q.departingSlots n + 1024
  total : q.total = p.total
  kept : ∀ i < n, i ∈ p.sets → i ∈ q.sets

theorem Removed.progress (h : Removed n idxs p q) (hn : 0 < n)
    (hidxs : ∀ k, k ∈ idxs ↔ k ∈ p.sets) (hexcess : (p.departing n).Nonempty) :
    Progress n p q := by
  cases h with
  | drained i hmem hi hslot hfirst hsets hslots =>
      have hi0 : i ≠ 0 := by omega
      have hbatch : min batch (p.slots i) ≤ p.slots i := Nat.min_le_right ..
      have hpos : 0 < min batch (p.slots i) := by
        rw [batch]
        omega
      have hother : ∀ k, n ≤ k → k ≠ i → q.slots k = p.slots k := by
        intro k hk hki
        rw [hslots, moved_other hki (by omega)]
      have hsource : q.slots i = p.slots i - min batch (p.slots i) := by
        rw [hslots, moved_source hi0]
      -- both sums over the shards that departed before the call
      have hin : i ∈ p.departing n := mem_departing.2 ⟨p.housed i hslot, hi⟩
      have hq : q.departingSlots n = ∑ k ∈ p.departing n, q.slots k := by
        refine departingSlots_eq (fun k hk => (mem_departing.1 hk).2) fun k hk hkpos => ?_
        refine mem_departing.2 ⟨p.housed k ?_, hk⟩
        by_cases hki : k = i
        · rw [hki]
          exact hslot
        · rw [← hother k hk hki]
          exact hkpos
      have hrest : ∑ k ∈ (p.departing n).erase i, q.slots k =
          ∑ k ∈ (p.departing n).erase i, p.slots k := by
        refine sum_congr rfl fun k hk => ?_
        obtain ⟨hki, hk⟩ := mem_erase.1 hk
        exact hother k (mem_departing.1 hk).2 hki
      have hsum : q.departingSlots n + min batch (p.slots i) = p.departingSlots n := by
        rw [hq, departingSlots, ← add_sum_erase _ _ hin, ← add_sum_erase _ p.slots hin, hrest,
          hsource]
        omega
      refine ⟨.left _ _ (by omega), fun k hk => ?_, fun k hk => ?_, ?_,
        total_moved hi0 hbatch hslots, fun k hk hkp => ?_⟩
      · rw [hslots]
        by_cases hk0 : k = 0
        · subst hk0
          rw [moved_target]
          omega
        · rw [moved_other (by omega) hk0]
      · by_cases hki : k = i
        · subst hki
          omega
        · rw [hother k hk hki]
      · have : min batch (p.slots i) ≤ 1024 := Nat.min_le_left ..
        omega
      · rw [hsets, mem_filter]
        exact ⟨hkp, by omega⟩
  | cleared hnone hsets hslots =>
      have hzero : ∀ k, n ≤ k → p.slots k = 0 := by
        intro k hk
        refine Nat.eq_zero_of_not_pos fun hpos => ?_
        have := hnone k ((hidxs k).2 (p.housed k hpos)) hk
        omega
      have hpzero : p.departingSlots n = 0 :=
        sum_eq_zero fun k hk => hzero k (mem_departing.1 hk).2
      have hqzero : q.departingSlots n = 0 := by
        refine sum_eq_zero fun k hk => ?_
        rw [hslots]
        exact hzero k (mem_departing.1 hk).2
      have hempty : q.departing n = ∅ := by
        refine eq_empty_of_forall_notMem fun k hk => ?_
        obtain ⟨hkq, hge⟩ := mem_departing.1 hk
        rw [hsets, mem_filter, hidxs] at hkq
        exact hkq.2 ⟨hkq.1, hge⟩
      refine ⟨?_, fun k _ => by rw [hslots], fun k _ => by rw [hslots], by omega,
        total_congr hslots, fun k hk hkp => ?_⟩
      · rw [hpzero, hqzero, hempty]
        exact .right _ (card_pos.2 hexcess)
      · rw [hsets, mem_filter]
        exact ⟨hkp, by omega⟩

end

end Placement

/-! ## On the fake cluster -/

/-- The slots of the first pod of a shard. -/
def shardSlots (cr : ValkeyCluster) (w : World) (i : Nat) : Nat :=
  (NodeMap.get w.fake.nodes (podFQDN cr i 0)).slotCount.toNat

/-- The shards beyond the desired ones that have a StatefulSet. -/
def departing (cr : ValkeyCluster) (w : World) : List Nat :=
  (setIndexes w.kube.statefulSets).filter fun i => cr.spec.shards ≤ i

def departingSlots (cr : ValkeyCluster) (w : World) : Nat :=
  ((departing cr w).map (shardSlots cr w)).sum

/-- All slots have an owner, and each owner is a primary, the first pod of a shard that has
a StatefulSet, as the desired shards do. -/
structure ScalingIn (cr : ValkeyCluster) (w : World) : Prop where
  named : ∀ {key n}, w.fake.nodes.lookup key = some n → n.id = key ∧ n.host = key
  total : w.fake.assignedSlots = 16384
  owned : ∀ {key n}, w.fake.nodes.lookup key = some n → n.slotCount ≠ 0 →
    0 < n.slotCount ∧ n.isPrimary = true ∧
      ∃ i, key = podFQDN cr i 0 ∧ HasSet cr w.kube.statefulSets i
  own : OwnSets cr w.kube.statefulSets
  survivors : ∀ i < cr.spec.shards, HasSet cr w.kube.statefulSets i

section

variable {cr : ValkeyCluster} {w : World} {p : Placement}

/-- A placement that has all slots, and the desired shards their StatefulSets. -/
structure PlacedIn (cr : ValkeyCluster) (w : World) (p : Placement) : Prop where
  placed : Placed cr w p
  total : p.total = slotSpace
  survivors : ∀ i < cr.spec.shards, i ∈ p.sets

/-- Where the owners are first pods of shards with a StatefulSet, the placement can be
read off. -/
theorem exists_placed
    (hnamed : ∀ {key n}, w.fake.nodes.lookup key = some n → n.id = key ∧ n.host = key)
    (howned : ∀ {key n}, w.fake.nodes.lookup key = some n → n.slotCount ≠ 0 →
      0 < n.slotCount ∧ n.isPrimary = true ∧
        ∃ i, key = podFQDN cr i 0 ∧ HasSet cr w.kube.statefulSets i)
    (hown : OwnSets cr w.kube.statefulSets) : ∃ p, Placed cr w p := by
  have hslots : ∀ i, (NodeMap.get w.fake.nodes (podFQDN cr i 0)).slotCount =
      shardSlots cr w i := by
    intro i
    rw [shardSlots, NodeMap.get]
    refine (Int.toNat_of_nonneg ?_).symm
    cases hn : w.fake.nodes.lookup (podFQDN cr i 0) with
    | none => exact Int.le_refl 0
    | some n =>
        by_cases hzero : n.slotCount = 0
        · exact Int.le_of_eq hzero.symm
        · exact Int.le_of_lt (howned hn hzero).1
  let p : Placement := {
    sets := (setIndexes w.kube.statefulSets).toFinset
    slots := shardSlots cr w
    housed := by
      intro i hi
      rw [List.mem_toFinset, mem_setIndexes hown]
      have hne := hslots i
      rw [NodeMap.get] at hne
      cases hn : w.fake.nodes.lookup (podFQDN cr i 0) with
      | none =>
          rw [hn] at hne
          have hne : (0 : Int) = shardSlots cr w i := hne
          omega
      | some n =>
          rw [hn, Option.getD_some] at hne
          obtain ⟨-, -, i', hkey, hset⟩ := howned hn (by omega)
          rw [(podFQDN_inj hkey).1]
          exact hset }
  refine ⟨p, ⟨fun {key n} hn => ?_, hslots⟩, hown, fun i => ?_⟩
  · obtain ⟨hid, hhost⟩ := hnamed hn
    refine ⟨hid, hhost, fun hne => ?_⟩
    obtain ⟨hpos, hprimary, i, hkey, -⟩ := howned hn hne
    exact ⟨hpos, hprimary, i, hkey⟩
  · rw [List.mem_toFinset]
    exact (mem_setIndexes hown).symm

theorem Placed.total_eq (h : Placed cr w p) (htotal : w.fake.assignedSlots = 16384) :
    p.total = slotSpace :=
  Int.ofNat_inj.1 (h.holds.assignedSlots.symm.trans htotal)

theorem ScalingIn.exists_placed (h : ScalingIn cr w) : ∃ p, PlacedIn cr w p := by
  obtain ⟨p, hp⟩ := Controller.exists_placed h.named h.owned h.own
  exact ⟨p, hp, hp.total_eq h.total, fun i hi => (hp.hasSet i).1 (h.survivors i hi)⟩

theorem PlacedIn.scalingIn (h : PlacedIn cr w p) : ScalingIn cr w where
  named hn := ⟨(h.placed.holds.roles hn).id, (h.placed.holds.roles hn).host⟩
  total := by
    rw [h.placed.holds.assignedSlots, h.total]
    rfl
  owned hn hne := by
    obtain ⟨hpos, hprimary, -⟩ := (h.placed.holds.roles hn).owner hne
    obtain ⟨i, hkey, -, hslots⟩ := h.placed.holds.owner hn hne
    exact ⟨hpos, hprimary, i, hkey, (h.placed.hasSet i).2 (p.housed i hslots)⟩
  own := h.placed.own
  survivors i hi := (h.placed.hasSet i).2 (h.survivors i hi)

theorem Placed.shardSlots (h : Placed cr w p) (i : Nat) : shardSlots cr w i = p.slots i := by
  rw [Controller.shardSlots, h.holds.slots]
  exact Int.toNat_natCast _

theorem Placed.departing (h : Placed cr w p) :
    (departing cr w).Nodup ∧ (departing cr w).toFinset = p.departing cr.spec.shards := by
  constructor
  · have hsorted := setIndexes_pairwise h.own
    exact (hsorted.imp fun hlt => Nat.ne_of_lt hlt).filter _
  · ext i
    rw [List.mem_toFinset, Controller.departing, List.mem_filter, mem_setIndexes h.own, h.hasSet,
      Placement.mem_departing, decide_eq_true_iff]

theorem Placed.departing_counts (h : Placed cr w p) :
    departingSlots cr w = p.departingSlots cr.spec.shards ∧
      (Controller.departing cr w).length = (p.departing cr.spec.shards).card := by
  obtain ⟨hnodup, heq⟩ := h.departing
  constructor
  · rw [departingSlots, Placement.departingSlots, ← heq, List.sum_toFinset _ hnodup,
      List.map_congr_left fun i _ => h.shardSlots i]
  · rw [← heq, List.toFinset_card_of_nodup hnodup]

/-- One call, with the placement it leaves. -/
theorem PlacedIn.scaleIn (h : PlacedIn cr w p) (order : RangeOrders) (hn : 0 < cr.spec.shards)
    (hexcess : (p.departing cr.spec.shards).Nonempty) :
    ∃ w' q, exec (World.answer order) (Controller.scaleIn cr) w = (.ok (), w') ∧
      PlacedIn cr w' q ∧
      Placement.Progress cr.spec.shards p q := by
  have hcall : Succeeds (World.answer order) _ _ (Controller.scaleIn cr) w :=
    succeeds_scaleIn h.placed hn (h.survivors 0 hn)
  obtain ⟨⟨_, w', hexec, -, q, idxs, hidxs, hq, hremoved⟩, -⟩ := succeeds_iff.1 hcall
  have hprogress := hremoved.progress hn hidxs hexcess
  exact ⟨w', q, hexec, ⟨hq, hprogress.total.trans h.total, fun i hi =>
    hprogress.kept i hi (h.survivors i hi)⟩, hprogress⟩

/-- What a call of `scaleIn` leaves behind. -/
def World.scaleIn (order : RangeOrders) (cr : ValkeyCluster) (w : World) : World :=
  (exec (answer order) (Controller.scaleIn cr) w).2

/-- The calls that follow, by induction on the pair that falls. -/
theorem PlacedIn.ends (order : RangeOrders) (hn : 0 < cr.spec.shards) (m : ℕ × ℕ) :
    ∀ w p, PlacedIn cr w p →
      (p.departingSlots cr.spec.shards, (p.departing cr.spec.shards).card) = m →
      ∃ k q, PlacedIn cr ((World.scaleIn order cr)^[k] w) q ∧ q.departing cr.spec.shards = ∅ := by
  induction m using (WellFounded.prod_lex Nat.lt_wfRel.wf Nat.lt_wfRel.wf).induction with
  | _ m ih =>
      intro w p h hm
      by_cases hnone : p.departing cr.spec.shards = ∅
      · exact ⟨0, p, h, hnone⟩
      · obtain ⟨w', q, hexec, hq, hprogress⟩ :=
          h.scaleIn order hn (Finset.nonempty_iff_ne_empty.2 hnone)
        obtain ⟨k, q', hq', hend⟩ := ih _ (hm ▸ hprogress.falls) w' q hq rfl
        refine ⟨k + 1, q', ?_, hend⟩
        rw [Function.iterate_succ_apply, World.scaleIn, hexec]
        exact hq'

/-- Each call makes progress, and finitely many leave nothing to remove. -/
theorem scaleIn_progress (hn : 1 ≤ cr.spec.shards) (order : RangeOrders) (h : ScalingIn cr w)
    (hexcess : ∃ i, cr.spec.shards ≤ i ∧ HasSet cr w.kube.statefulSets i) :
    (∃ w', exec (World.answer order) (Controller.scaleIn cr) w = (.ok (), w') ∧
      ScalingIn cr w' ∧
      Prod.Lex (· < ·) (· < ·) (departingSlots cr w', (departing cr w').length)
        (departingSlots cr w, (departing cr w).length) ∧
      (∀ i < cr.spec.shards, shardSlots cr w i ≤ shardSlots cr w' i) ∧
      (∀ i, cr.spec.shards ≤ i → shardSlots cr w' i ≤ shardSlots cr w i) ∧
      departingSlots cr w ≤ departingSlots cr w' + 1024) ∧
    ∃ k, ScalingIn cr ((World.scaleIn order cr)^[k] w) ∧
      (∀ i, HasSet cr ((World.scaleIn order cr)^[k] w).kube.statefulSets i ↔
        i < cr.spec.shards) ∧
      ∑ i ∈ Finset.range cr.spec.shards, shardSlots cr ((World.scaleIn order cr)^[k] w) i =
        16384 := by
  obtain ⟨p, hp⟩ := h.exists_placed
  obtain ⟨i, hge, hset⟩ := hexcess
  have hmem : i ∈ p.departing cr.spec.shards :=
    Placement.mem_departing.2 ⟨(hp.placed.hasSet i).1 hset, hge⟩
  constructor
  · obtain ⟨w', q, hexec, hq, hprogress⟩ := hp.scaleIn order hn ⟨i, hmem⟩
    obtain ⟨hslots, hlen⟩ := hp.placed.departing_counts
    obtain ⟨hslots', hlen'⟩ := hq.placed.departing_counts
    refine ⟨w', hexec, hq.scalingIn, ?_, fun k hk => ?_, fun k hk => ?_, ?_⟩
    · rw [hslots, hlen, hslots', hlen']
      exact hprogress.falls
    · rw [hp.placed.shardSlots, hq.placed.shardSlots]
      exact hprogress.survivors k hk
    · rw [hp.placed.shardSlots, hq.placed.shardSlots]
      exact hprogress.others k hk
    · rw [hslots, hslots']
      exact hprogress.batch
  · obtain ⟨k, q, hq, hnone⟩ := PlacedIn.ends order hn _ w p hp rfl
    have hzero : q.departingSlots cr.spec.shards = 0 := by
      rw [Placement.departingSlots, hnone, Finset.sum_empty]
    have hsum := Placement.total_eq_departing hq.survivors
    refine ⟨k, hq.scalingIn, fun i => ⟨fun hi => ?_, fun hi => ?_⟩, ?_⟩
    · by_contra hge
      have hin : i ∈ q.departing cr.spec.shards :=
        Placement.mem_departing.2 ⟨(hq.placed.hasSet i).1 hi, by omega⟩
      rw [hnone] at hin
      exact Finset.notMem_empty i hin
    · exact (hq.placed.hasSet i).2 (hq.survivors i hi)
    · rw [Finset.sum_congr rfl fun i _ => hq.placed.shardSlots i]
      rw [hzero, hq.total] at hsum
      exact hsum.symm

end

/-- A primary that is the first pod of a shard of `onePod` and has half of the slots. -/
def halfOwner (i : Nat) : NodeInfo :=
  { Fake.newNode (endpoint onePod i 0) with slots := [⟨0, 8191⟩] }

theorem slotCount_halfOwner (i : Nat) : (halfOwner i).slotCount = 8192 := rfl

/-- One shard is wanted. Shard 3 is still there, with half of the slots. -/
def leftover : World where
  fake := ⟨((∅ : NodeMap).insert (podFQDN onePod 0 0) (halfOwner 0)).insert
    (podFQDN onePod 3 0) (halfOwner 3)⟩
  kube := { cluster := some onePod, statefulSets := [statefulSet onePod 0, statefulSet onePod 3] }
  ranges := 0

theorem lookup_leftover {key : String} {n : NodeInfo}
    (hn : leftover.fake.nodes.lookup key = some n) :
    ∃ i, (i = 0 ∨ i = 3) ∧ key = podFQDN onePod i 0 ∧ n = halfOwner i := by
  rw [leftover] at hn
  by_cases hthree : key = podFQDN onePod 3 0
  · subst hthree
    rw [AList.lookup_insert] at hn
    exact ⟨3, .inr rfl, rfl, (Option.some.inj hn).symm⟩
  · rw [AList.lookup_insert_ne hthree] at hn
    by_cases hzero : key = podFQDN onePod 0 0
    · subst hzero
      rw [AList.lookup_insert] at hn
      exact ⟨0, .inl rfl, rfl, (Option.some.inj hn).symm⟩
    · rw [AList.lookup_insert_ne hzero] at hn
      cases hn

theorem hasSet_leftover {i : Nat} (hi : i = 0 ∨ i = 3) :
    HasSet onePod leftover.kube.statefulSets i := by
  rcases hi with rfl | rfl
  · exact List.mem_cons_self ..
  · exact List.mem_cons_of_mem _ (List.mem_cons_self ..)

theorem scalingIn_leftover : ScalingIn onePod leftover where
  named hn := by
    obtain ⟨i, -, rfl, rfl⟩ := lookup_leftover hn
    exact ⟨rfl, rfl⟩
  total := by decide +kernel
  owned hn _ := by
    obtain ⟨i, hi, rfl, rfl⟩ := lookup_leftover hn
    exact ⟨slotCount_halfOwner i ▸ by decide, rfl, i, rfl, hasSet_leftover hi⟩
  own :=
    have hown : OwnSets onePod ([0, 3].map (statefulSet onePod)) :=
      .map (fun _ => rfl) (fun _ => rfl) (fun _ => rfl) (by decide) (by decide)
    hown
  survivors i hi := hasSet_leftover (.inl (Nat.lt_one_iff.1 hi))

theorem scaleIn_progress_leftover :
    ScalingIn onePod leftover ∧
    ∃ k, ∑ i ∈ Finset.range 1,
      shardSlots onePod ((World.scaleIn (fun _ => asWritten) onePod)^[k] leftover) i = 16384 := by
  obtain ⟨-, k, -, -, hsum⟩ := scaleIn_progress (by decide) (fun _ => asWritten)
    scalingIn_leftover ⟨3, by decide, hasSet_leftover (.inr rfl)⟩
  exact ⟨scalingIn_leftover, k, hsum⟩

end Valkeyop.Controller
