import Valkeyop.Lib.Greedy
import Valkeyop.Proofs.ScaleInProgress

/-!
# Scaling out, shard by shard

Each new shard gets its share in one move from the fattest primary, and that is always an
old one: whoever has been filled has a share and no more, and the fattest has more. On the
counts of the old shards scaling out is therefore taking from the largest, and what comes
of them depends on the order maps are ranged over in only up to who is who. It comes out
even only if the shares of the old shards are made up of shares of the new size.

Scaling out does not look at the API server, so a world is argued about as if all its
shards had StatefulSets.
-/

namespace Valkeyop.Controller

open Valkeyop.Lib Valkeyop.Lib.Fallible Valkeyop.Cluster Valkeyop.Api Valkeyop.Resources

/-! ## On placements -/

namespace Placement

open Finset

/-- The first `c` shards own all slots, and each of them some. -/
structure Packed (c : ℕ) (p : Placement) : Prop where
  first : ∀ i, 0 < p.slots i ↔ i < c
  total : p.total = slotSpace

/-- From `p`, the shards from `c` up to `k` have been given a share of `n` each, by the
shards before them. -/
structure Widened (n c k : ℕ) (p q : Placement) : Prop where
  old : c ≤ k
  sets : q.sets = p.sets
  total : q.total = p.total
  taken : Taken (range c) (slotSpace / n) p.slots (k - c) q.slots
  given : ∀ i, c ≤ i → i < k → q.slots i = slotSpace / n
  rest : ∀ i, k ≤ i → q.slots i = 0

section

variable {n c k a : ℕ} {p q q' : Placement}

theorem Packed.owners (hp : p.Packed c) : p.owners = range c := by
  ext i
  rw [mem_owners, hp.first, mem_range]

theorem Packed.sum (hp : p.Packed c) : ∑ i ∈ range c, p.slots i = slotSpace := by
  rw [← hp.total, total_eq_sum fun i hi => mem_range.2 ((hp.first i).1 hi)]

theorem packed_ofDeal (hn : 0 < n) (hle : n ≤ slotSpace) : (ofDeal n n).Packed n := by
  have hslots : (ofDeal n n).slots = dealt n n := by rw [slots_ofDeal, min_self]
  refine ⟨fun i => ?_, total_dealt_all hn hslots⟩
  rw [← mem_owners, owners_dealt hn hle hslots, mem_range]

theorem Widened.refl (hp : p.Packed c) (n : ℕ) : Widened n c c p p where
  old := le_rfl
  sets := rfl
  total := rfl
  taken := by
    rw [Nat.sub_self]
    exact .none
  given i hi hlt := absurd hlt (by omega)
  rest i hi := Nat.eq_zero_of_not_pos fun hpos => absurd ((hp.first i).1 hpos) (by omega)

theorem Widened.packed (h : Widened n c k p q) (hp : p.Packed c) (hn : 0 < n)
    (hle : n ≤ slotSpace) : q.Packed k := by
  have hold := h.old
  refine ⟨fun i => ?_, h.total.trans hp.total⟩
  rcases Nat.lt_or_ge i c with hic | hic
  · have hpos : 0 < q.slots i := h.taken.pos (fun j hj => (hp.first j).2 (mem_range.1 hj)) i
      (mem_range.2 hic)
    exact iff_of_true hpos (by omega)
  · rcases Nat.lt_or_ge i k with hik | hik
    · rw [h.given i hic hik]
      exact iff_of_true (Nat.div_pos hle hn) hik
    · rw [h.rest i hik]
      exact iff_of_false (lt_irrefl 0) (by omega)

theorem Widened.filled (h : Widened n c k p q) (hp : p.Packed c) (hn : 0 < n)
    (hle : n ≤ slotSpace) (hk : k ≤ n) : Filled n p.owners.card k p q := by
  rw [hp.owners, card_range]
  refine ⟨h.sets, h.total, fun i => ?_, fun i hi => ?_⟩
  · have hold := h.old
    rw [(h.packed hp hn hle).first, hp.first]
    omega
  · rw [h.rest i (by omega)]
    exact Nat.zero_le _

theorem Widened.card_le (h : Widened n c k p q) (hp : p.Packed c) : p.owners.card ≤ k := by
  rw [hp.owners, card_range]
  exact h.old

/-- The next shard has nothing yet. -/
theorem Widened.need (h : Widened n c k p q) (hle : n ≤ slotSpace) (hk : k < n) :
    q.slots k < slotSpace / n := by
  rw [h.rest k le_rfl]
  exact Nat.div_pos hle (by omega)

/-- The fattest of the others is an old one, with more than a share. -/
theorem Widened.fattest (h : Widened n c k p q) (hp : p.Packed c) (hle : n ≤ slotSpace)
    (hk : k < n) (hmax : ∀ i, i ≠ k → q.slots i ≤ q.slots a) :
    a < c ∧ slotSpace / n < q.slots a := by
  have hfilled := h.filled hp (by omega) hle hk.le
  have hlt := share_lt_fattest (h.total.trans hp.total)
    (hfilled.card_others_lt (h.card_le hp) hk) hmax (h.need hle hk)
  refine ⟨?_, hlt⟩
  by_contra hac
  rcases Nat.lt_or_ge a k with hak | hak
  · rw [h.given a (by omega) hak] at hlt
    exact absurd hlt (lt_irrefl _)
  · rw [h.rest a hak] at hlt
    exact absurd hlt (Nat.not_lt_zero _)

theorem Widened.step (h : Widened n c k p q) (hac : a < c) (hlt : slotSpace / n < q.slots a)
    (hmax : ∀ i, i ≠ k → q.slots i ≤ q.slots a) (hsets : q'.sets = q.sets)
    (hslots : q'.slots = moved q.slots a k (slotSpace / n - q.slots k)) :
    Widened n c (k + 1) p q' := by
  have hold := h.old
  have hak : a ≠ k := by omega
  rw [h.rest k le_rfl, Nat.sub_zero] at hslots
  refine ⟨by omega, hsets.trans h.sets, (total_moved hak hlt.le hslots).trans h.total, ?_,
    fun i hi hik => ?_, fun i hi => ?_⟩
  · rw [Nat.succ_sub hold]
    refine .more a h.taken ⟨mem_range.2 hac, hlt, fun i hi => ?_, ?_, fun i hi hia => ?_⟩
    · have := mem_range.1 hi
      exact hmax i (by omega)
    · rw [hslots, moved_source hak]
    · have := mem_range.1 hi
      rw [hslots, moved_other hia (by omega)]
  · rw [hslots]
    by_cases hik' : i = k
    · rw [hik', moved_target, h.rest k le_rfl, Nat.zero_add]
    · rw [moved_other (by omega) hik']
      exact h.given i hi (by omega)
  · rw [hslots, moved_other (by omega) (by omega)]
    exact h.rest i (by omega)

end

end Placement

/-! ## One call -/

/-- All slots have an owner, and the owners are the first pods of the first `c` shards,
primaries all of them. -/
structure OwnedBy (cr : ValkeyCluster) (c : Nat) (f : Fake) : Prop where
  named : ∀ {key n}, f.nodes.lookup key = some n → n.id = key ∧ n.host = key
  total : f.assignedSlots = 16384
  owned : ∀ {key n}, f.nodes.lookup key = some n → n.slotCount ≠ 0 →
    n.isPrimary = true ∧ ∃ i < c, key = podFQDN cr i 0
  owns : ∀ i < c, 0 < (NodeMap.get f.nodes (podFQDN cr i 0)).slotCount

/-- The move that fills shard `k`: a share of an old shard, which keeps a slot, when the
replicas of shard `k` follow its first pod. -/
def FillMove (cr : ValkeyCluster) (c k : Nat) (e : Call × World) : Prop :=
  ∃ a < c, e.1 = .admin (.moveSlots (seed cr) (podFQDN cr a 0) (podFQDN cr k 0)
      ((16384 / cr.spec.shards : Nat) : Int)) ∧
    ((16384 / cr.spec.shards : Nat) : Int) <
      (NodeMap.get e.2.fake.nodes (podFQDN cr a 0)).slotCount ∧
    ∀ j, 1 ≤ j → j ≤ cr.spec.replicasPerShard → Follows cr e.2.fake k j

section

variable {cr : ValkeyCluster} {order : RangeOrders} {p q : Placement} {w w' : World} {c k : Nat}

/-- A round of filling, for a shard that has nothing. -/
theorem emits_fillNewShard_widened (hc : Stored cr w) (h : Between cr w w' q)
    (hp : p.Packed c) (hle : cr.spec.shards ≤ slotSpace)
    (hsets : ∀ i < cr.spec.shards, i ∈ p.sets)
    (hwidened : Placement.Widened cr.spec.shards c k p q) (hk : k < cr.spec.shards) :
    Emits (World.answer order) (Careful cr p) isMove (fun _ w₂ l => ∃ q' e, l = [e] ∧
      Between cr w w₂ q' ∧ Placement.Widened cr.spec.shards c (k + 1) p q' ∧ FillMove cr c k e)
      (fillNewShard cr k) w' := by
  refine (emits_fillNewShard_short (hc.of_cluster (by rw [h.kube])) h.placed
    (hwidened.filled hp (by omega) hle hk.le) hp.total (hwidened.card_le hp) hk
    (hwidened.need hle hk) (hwidened.sets ▸ hsets k hk)).mono ?_
  rintro _ w₂ _ ⟨a, w₁, q', hgiven, rfl⟩
  obtain ⟨hac, hlt⟩ := hwidened.fattest hp hle hk hgiven.max
  refine ⟨q', _, rfl, h.given hgiven, hwidened.step hac hlt hgiven.max hgiven.sets hgiven.slots,
    a, hac, ?_, ?_, fun j hj hr => ?_⟩
  · rw [hwidened.rest k le_rfl]
    rfl
  · rw [hgiven.before.placed.holds.slots a]
    exact Int.ofNat_lt.2 hlt
  · exact (h.undisturbed hgiven.before).attached k hk j hr (by omega)

theorem emits_scaleOut_widened (order : RangeOrders) (hc : Stored cr w) (h : Placed cr w p)
    (hp : p.Packed c) (hlt : c < cr.spec.shards) (hle : cr.spec.shards ≤ slotSpace)
    (hsets : ∀ i < cr.spec.shards, i ∈ p.sets) :
    Emits (World.answer order) (Careful cr p) isMove (fun _ w' l => ∃ q, Between cr w w' q ∧
      Placement.Widened cr.spec.shards c cr.spec.shards p q ∧
      List.Forall₂ (FillMove cr c) (List.range' c (cr.spec.shards - c)) l) (scaleOut cr c) w := by
  refine emits_scaleOut (I := fun k q l => Placement.Widened cr.spec.shards c k p q ∧
    List.Forall₂ (FillMove cr c) (List.range' c (k - c)) l) h hlt.le ⟨.refl hp _, ?_⟩ ?_
  · rw [Nat.sub_self]
    exact .nil
  · intro k q w₁ l hck hk hw₁ hI
    obtain ⟨hwidened, hmoves⟩ := hI
    refine (emits_fillNewShard_widened hc hw₁ hp hle hsets hwidened hk).mono ?_
    rintro _ w₂ _ ⟨q', e, rfl, hw₂, hwidened', he⟩
    refine ⟨q', hw₂, hwidened', ?_⟩
    rw [Nat.succ_sub hck, List.range'_1_concat, Nat.add_sub_cancel' hck]
    exact List.rel_append hmoves (.cons he .nil)

/-- Where the new shards have their share, nothing is moved. -/
theorem emits_scaleOut_full (order : RangeOrders) (h : Placed cr w p) (hlt : c < cr.spec.shards)
    (hfull : ∀ k, c ≤ k → k < cr.spec.shards → slotSpace / cr.spec.shards ≤ p.slots k) :
    Emits (World.answer order) (Careful cr p) isMove
      (fun _ w' l => l = [] ∧ Placed cr w' p) (scaleOut cr c) w := by
  refine (emits_scaleOut (I := fun _ q l => q = p ∧ l = []) h hlt.le ⟨rfl, rfl⟩ ?_).mono ?_
  · rintro k _ w₁ _ hck hk hw₁ ⟨rfl, rfl⟩
    refine (emits_fillNewShard_full hw₁.placed (hfull k hck hk)).mono ?_
    rintro _ w₂ _ ⟨rfl, hw₂⟩
    exact ⟨_, hw₁.undisturbed hw₂, rfl, rfl⟩
  · rintro _ w' _ ⟨_, hw', rfl, rfl⟩
    exact ⟨rfl, hw'.placed⟩

/-! ## Any world -/

/-- An API server on which all desired shards have their StatefulSets. -/
def housing (cr : ValkeyCluster) : ApiServer where
  cluster := some cr
  statefulSets := (List.range cr.spec.shards).map (statefulSet cr)

theorem ownSets_housing (hnum : Numbered cr.spec.shards) :
    OwnSets cr (housing cr).statefulSets := by
  refine .map (fun _ => rfl) (fun _ => rfl) (fun _ => rfl) ?_ fun i hi => ?_
  · rw [List.map_id']
    exact List.nodup_range
  · exact hnum i (List.mem_range.1 hi)

theorem hasSet_housing {i : Nat} : HasSet cr (housing cr).statefulSets i ↔ i < cr.spec.shards := by
  simp only [HasSet, housing, List.map_map, List.mem_map, List.mem_range, Function.comp_apply]
  constructor
  · rintro ⟨j, hj, hname⟩
    rwa [← statefulSetName_injective hname]
  · exact fun hi => ⟨i, hi, rfl⟩

theorem Holds.ownedBy {f : Fake} (h : Holds cr f p.slots) (hp : p.Packed c) :
    OwnedBy cr c f where
  named hn := ⟨(h.roles hn).id, (h.roles hn).host⟩
  total := by
    rw [h.assignedSlots, hp.total]
    rfl
  owned hn hne := by
    obtain ⟨i, hkey, -, hpos⟩ := h.owner hn hne
    exact ⟨((h.roles hn).owner hne).2.1, i, (hp.first i).1 hpos, hkey⟩
  owns i hi := by
    rw [h.slots i]
    exact Int.ofNat_lt.2 ((hp.first i).2 hi)

theorem OwnedBy.exists_placed (h : OwnedBy cr c w.fake) (hle : c ≤ cr.spec.shards)
    (hnum : Numbered cr.spec.shards) :
    ∃ p, Placed cr (w.putKube (housing cr)) p ∧ p.slots = shardSlots cr w ∧ p.Packed c ∧
      ∀ i < cr.spec.shards, i ∈ p.sets := by
  have howned : ∀ {key n}, w.fake.nodes.lookup key = some n → n.slotCount ≠ 0 →
      0 < n.slotCount ∧ n.isPrimary = true ∧
        ∃ i, key = podFQDN cr i 0 ∧ HasSet cr (housing cr).statefulSets i := by
    intro key n hn hne
    obtain ⟨hprimary, i, hi, rfl⟩ := h.owned hn hne
    have hpos := h.owns i hi
    rw [NodeMap.get, hn] at hpos
    exact ⟨hpos, hprimary, i, rfl, hasSet_housing.2 (by omega)⟩
  obtain ⟨p, hp⟩ := Controller.exists_placed (w := w.putKube (housing cr)) h.named howned
    (ownSets_housing hnum)
  refine ⟨p, hp, (funext hp.shardSlots).symm, ⟨fun i => ?_, hp.total_eq h.total⟩, fun i hi => ?_⟩
  · have hcount := hp.holds.slots i
    constructor
    · intro hpos
      cases hn : w.fake.nodes.lookup (podFQDN cr i 0) with
      | none =>
          rw [NodeMap.get, show (w.putKube (housing cr)).fake = w.fake from rfl, hn] at hcount
          exact absurd (Int.ofNat_eq_zero.1 hcount.symm) (by omega)
      | some n =>
          obtain ⟨-, i', hi', hkey⟩ := h.owned hn (by rw [hp.holds.slotCount_eq hn]; omega)
          rwa [(podFQDN_inj hkey).1]
    · intro hi
      have hpos := h.owns i hi
      change 0 < (NodeMap.get (w.putKube (housing cr)).fake.nodes _).slotCount at hpos
      rw [hcount] at hpos
      exact Int.ofNat_lt.1 hpos
  · exact (hp.hasSet i).1 (hasSet_housing.2 hi)

/-- Scaling out with another API server is the same. -/
theorem exists_of_emits {G : Call → World → Prop} {Q : Unit → World → List (Call × World) → Prop}
    {kube : ApiServer}
    (h : Emits (World.answer order) G isMove Q (scaleOut cr c) (w.putKube kube)) :
    ∃ w', exec (World.answer order) (scaleOut cr c) w = (.ok (), w') ∧
      Q () (w'.putKube kube) ((emitted (World.answer order) isMove (scaleOut cr c) w).map
        fun e => (e.1, e.2.putKube kube)) := by
  have hpast : ∀ call s, Widens call → World.answer order call (World.putKube kube s) =
      ((World.answer order call s).1, World.putKube kube (World.answer order call s).2) := by
    intro call s hcall
    cases call with
    | admin call => rfl
    | kube call => exact hcall.elim
    | rangeOver m => rfl
  have hwidens : Prog.Only Widens (scaleOut cr c).run := widens_scaleOut c
  obtain ⟨hrun, htrace⟩ := hwidens.commutes hpast w
  obtain ⟨_, w₁, hexec, hQ⟩ := Succeeds.exec h
  rw [exec, hrun] at hexec
  obtain ⟨hok, rfl⟩ := Prod.ext_iff.1 hexec
  refine ⟨(exec (World.answer order) (scaleOut cr c) w).2, Prod.ext hok rfl, ?_⟩
  rw [emitted, calls, htrace, List.filter_map] at hQ
  exact hQ

/-- What one call of `scaleOut` makes of the counts, whatever the order. -/
structure ScaledOut (cr : ValkeyCluster) (c : Nat) (order : RangeOrders) (w w' : World)
    (p q : Placement) : Prop where
  run : exec (World.answer order) (scaleOut cr c) w = (.ok (), w')
  before : p.slots = shardSlots cr w
  after : q.slots = shardSlots cr w'
  holds : Holds cr w'.fake q.slots
  packed : q.Packed cr.spec.shards
  widened : Placement.Widened cr.spec.shards c cr.spec.shards p q
  moves : List.Forall₂ (FillMove cr c) (List.range' c (cr.spec.shards - c))
    (emitted (World.answer order) isMove (scaleOut cr c) w)

theorem OwnedBy.scaleOut (h : OwnedBy cr c w.fake) (hlt : c < cr.spec.shards)
    (hle : cr.spec.shards ≤ slotSpace) (order : RangeOrders) :
    ∃ w' p q, ScaledOut cr c order w w' p q := by
  obtain ⟨p, hplaced, hslots, hpacked, hsets⟩ :=
    h.exists_placed hlt.le (numbered_of_le_slotSpace hle)
  have hstored : Stored cr (w.putKube (housing cr)) := ⟨cr, rfl, rfl, rfl, rfl, rfl⟩
  obtain ⟨w', hexec, q, hw', hwidened, hmoves⟩ := exists_of_emits
    (emits_scaleOut_widened order hstored hplaced hpacked hlt hle hsets)
  refine ⟨w', p, q, hexec, hslots, (funext hw'.placed.shardSlots).symm, hw'.placed.holds,
    hwidened.packed hpacked (by omega) hle, hwidened, ?_⟩
  rw [List.forall₂_map_right_iff] at hmoves
  exact hmoves

theorem ScaledOut.given (h : ScaledOut cr c order w w' p q) {i : Nat} (hi : c ≤ i)
    (hlt : i < cr.spec.shards) : shardSlots cr w' i = 16384 / cr.spec.shards := by
  rw [← h.after]
  exact h.widened.given i hi hlt

/-- Another call finds nothing to do. -/
theorem ScaledOut.again (h : ScaledOut cr c order w w' p q) (hlt : c < cr.spec.shards)
    (hle : cr.spec.shards ≤ slotSpace) (order' : RangeOrders) :
    ∃ w'', exec (World.answer order') (scaleOut cr c) w' = (.ok (), w'') ∧
      emitted (World.answer order') isMove (scaleOut cr c) w' = [] ∧
      shardSlots cr w'' = shardSlots cr w' := by
  obtain ⟨p', hplaced, hslots, -⟩ :=
    (h.holds.ownedBy h.packed).exists_placed le_rfl (numbered_of_le_slotSpace hle)
  have hfull : ∀ k, c ≤ k → k < cr.spec.shards → slotSpace / cr.spec.shards ≤ p'.slots k := by
    intro k hck hk
    rw [hslots, h.given hck hk]
    rfl
  obtain ⟨w'', hexec, hnone, hw''⟩ := exists_of_emits
    (emits_scaleOut_full order' hplaced hlt hfull)
  exact ⟨w'', hexec, List.map_eq_nil_iff.1 hnone, (funext hw''.shardSlots).trans hslots⟩

/-- Scaling out fills the new shards exactly, in turn and with one move each, when their
replicas are attached; nobody is left without slots. Once it is through, there is nothing
more to move. -/
theorem scaleOut_fills (h : OwnedBy cr c w.fake) (hlt : c < cr.spec.shards)
    (hle : cr.spec.shards ≤ 16384) (order order' : RangeOrders) :
    ∃ w' w'', exec (World.answer order) (scaleOut cr c) w = (.ok (), w') ∧
      List.Forall₂ (FillMove cr c) (List.range' c (cr.spec.shards - c))
        (emitted (World.answer order) isMove (scaleOut cr c) w) ∧
      OwnedBy cr cr.spec.shards w'.fake ∧
      (∀ i, c ≤ i → i < cr.spec.shards → shardSlots cr w' i = 16384 / cr.spec.shards) ∧
      (∀ i < c, 1 ≤ shardSlots cr w' i) ∧
      exec (World.answer order') (scaleOut cr c) w' = (.ok (), w'') ∧
      emitted (World.answer order') isMove (scaleOut cr c) w' = [] ∧
      ∀ i, shardSlots cr w'' i = shardSlots cr w' i := by
  obtain ⟨w', p, q, hout⟩ := h.scaleOut hlt hle order
  obtain ⟨w'', hexec, hnone, hslots⟩ := hout.again hlt hle order'
  refine ⟨w', w'', hout.run, hout.moves, hout.holds.ownedBy hout.packed,
    fun i hi => hout.given hi, fun i hi => ?_, hexec, hnone, congrFun hslots⟩
  rw [← hout.after]
  exact (hout.packed.first i).2 (by omega)

/-! ## A cluster as it is formed -/

/-- A cluster of `n` shards as it is formed. -/
def dealtFake (cr : ValkeyCluster) (n : Nat) : Fake :=
  (List.range n).foldl (fun f i => f.addSlots (endpoint cr i 0)
    [⟨(i : Int) * totalSlots / n, ((i : Int) + 1) * totalSlots / n - 1⟩]) .empty

theorem holds_dealtFake (cr : ValkeyCluster) (n : Nat) :
    Holds cr (dealtFake cr n) (Placement.dealt n n) := by
  have hdeal : ∀ k, Holds cr ((List.range k).foldl (fun f i => f.addSlots (endpoint cr i 0)
      [⟨(i : Int) * totalSlots / n, ((i : Int) + 1) * totalSlots / n - 1⟩]) .empty)
      (Placement.dealt n k) := by
    intro k
    induction k with
    | zero =>
        rw [Placement.dealt_zero]
        exact ⟨fun hn => absurd hn (by simp [Fake.empty]), fun i => rfl⟩
    | succ k ih =>
        rw [List.range_succ, List.foldl_append, ← Placement.update_dealt]
        exact ih.addSlots (size_distribute n k)
  exact hdeal n

theorem ownedBy_dealtFake (cr : ValkeyCluster) {n : Nat} (hn : 0 < n) (hle : n ≤ 16384) :
    OwnedBy cr n (dealtFake cr n) := by
  have hdealt := holds_dealtFake cr n
  rw [show Placement.dealt n n = (Placement.ofDeal n n).slots by
    rw [Placement.slots_ofDeal, min_self]] at hdealt
  exact hdealt.ownedBy (Placement.packed_ofDeal hn hle)

theorem slotCount_dealtFake (cr : ValkeyCluster) (n i : Nat) (r : SlotRange)
    (hr : (Slots.distribute n)[i]? = some r) :
    (NodeMap.get (dealtFake cr n).nodes (podFQDN cr i 0)).slotCount = r.size := by
  obtain ⟨hi, rfl⟩ := Slots.getElem?_distribute_eq_some.1 hr
  rw [(holds_dealtFake cr n).slots i, Placement.dealt, if_pos hi]
  exact (size_distribute n i).symm

/-- A cluster that is to have so many shards. -/
def resized (shards : Nat) : ValkeyCluster where
  name := "resized"
  nspace := "default"
  spec := { shards, replicasPerShard := 1 }

/-- It has been formed with `n` of them. -/
def resizing (shards n : Nat) : World where
  fake := dealtFake (resized shards) n
  kube := { cluster := none }
  ranges := 0

theorem scaleOut_fills_third :
    OwnedBy (resized 3) 2 (resizing 3 2).fake ∧
    ∃ w', exec (World.answer fun _ => asWritten) (scaleOut (resized 3) 2) (resizing 3 2) =
        (.ok (), w') ∧
      (emitted (World.answer fun _ => asWritten) isMove (scaleOut (resized 3) 2)
        (resizing 3 2)).length = 1 ∧
      shardSlots (resized 3) w' 2 = 5461 := by
  have h : OwnedBy (resized 3) 2 (resizing 3 2).fake := ownedBy_dealtFake _ (by decide) (by decide)
  obtain ⟨w', _, hrun, hmoves, -, hgiven, -⟩ :=
    scaleOut_fills h (by decide) (by decide) (fun _ => asWritten) fun _ => asWritten
  exact ⟨h, w', hrun, hmoves.length_eq.symm, hgiven 2 (by decide) (by decide)⟩

/-! ## The order of the map -/

theorem ScaledOut.map_val (h : ScaledOut cr c order w w' p q) :
    (Multiset.range c).map (shardSlots cr w') =
      (takeLargest (16384 / cr.spec.shards))^[cr.spec.shards - c]
        ((Multiset.range c).map (shardSlots cr w)) := by
  rw [← h.before, ← h.after]
  exact h.widened.taken.map_val

/-- In whatever order maps are ranged over, the new shards get the same, and so do the old
ones up to their order. -/
theorem scaleOut_order_irrelevant (h : OwnedBy cr c w.fake) (hlt : c < cr.spec.shards)
    (hle : cr.spec.shards ≤ 16384) (order₁ order₂ : RangeOrders) :
    ∃ w₁ w₂, exec (World.answer order₁) (scaleOut cr c) w = (.ok (), w₁) ∧
      exec (World.answer order₂) (scaleOut cr c) w = (.ok (), w₂) ∧
      (∀ i, c ≤ i → i < cr.spec.shards → shardSlots cr w₁ i = shardSlots cr w₂ i) ∧
      (Multiset.range c).map (shardSlots cr w₁) = (Multiset.range c).map (shardSlots cr w₂) := by
  obtain ⟨w₁, p₁, q₁, h₁⟩ := h.scaleOut hlt hle order₁
  obtain ⟨w₂, p₂, q₂, h₂⟩ := h.scaleOut hlt hle order₂
  refine ⟨w₁, w₂, h₁.run, h₂.run, fun i hi hid => ?_, h₁.map_val.trans h₂.map_val.symm⟩
  rw [h₁.given hi hid, h₂.given hi hid]

def backwards (m : NodeMap) : RangeOrder m := ⟨m.entries.reverse, List.reverse_perm _⟩

theorem scaleOut_order_irrelevant_backwards :
    OwnedBy (resized 3) 2 (resizing 3 2).fake ∧
    ∃ w₁ w₂, exec (World.answer fun _ => asWritten) (scaleOut (resized 3) 2) (resizing 3 2) =
        (.ok (), w₁) ∧
      exec (World.answer fun _ => backwards) (scaleOut (resized 3) 2) (resizing 3 2) =
        (.ok (), w₂) ∧
      (Multiset.range 2).map (shardSlots (resized 3) w₁) =
        (Multiset.range 2).map (shardSlots (resized 3) w₂) := by
  have h : OwnedBy (resized 3) 2 (resizing 3 2).fake := ownedBy_dealtFake _ (by decide) (by decide)
  obtain ⟨w₁, w₂, h₁, h₂, -, hold⟩ := scaleOut_order_irrelevant h (by decide) (by decide)
    (fun _ => asWritten) fun _ => backwards
  exact ⟨h, w₁, w₂, h₁, h₂, hold⟩

/-! ## How even it comes out -/

/-- The counts are level exactly if the old shards end with a share or one slot more. -/
theorem ScaledOut.even_iff (h : ScaledOut cr c order w w' p q) (hlt : c < cr.spec.shards) :
    (∀ i < cr.spec.shards, ∀ j < cr.spec.shards, q.slots i ≤ q.slots j + 1) ↔
      ∀ i ∈ Finset.range c, q.slots i = slotSpace / cr.spec.shards ∨
        q.slots i = slotSpace / cr.spec.shards + 1 := by
  have hgiven : ∀ i, c ≤ i → i < cr.spec.shards → q.slots i = slotSpace / cr.spec.shards :=
    h.widened.given
  constructor
  · intro heven i hi
    have hi := Finset.mem_range.1 hi
    have hnew := hgiven c le_rfl hlt
    have hupper := heven i (by omega) c hlt
    have hlower : slotSpace / cr.spec.shards ≤ q.slots i := by
      by_contra hless
      -- then nobody has more than a share, and there are not enough slots
      have hsum : ∑ j ∈ Finset.range cr.spec.shards, q.slots j <
          ∑ _j ∈ Finset.range cr.spec.shards, slotSpace / cr.spec.shards := by
        refine Finset.sum_lt_sum (fun j hj => ?_) ⟨i, Finset.mem_range.2 (by omega), by omega⟩
        have := heven j (Finset.mem_range.1 hj) i (by omega)
        omega
      rw [h.packed.sum, Finset.sum_const_nat fun _ _ => rfl, Finset.card_range] at hsum
      exact absurd (Nat.mul_div_le slotSpace cr.spec.shards) (by omega)
    omega
  · intro hlevel i hi j hj
    have hvalue : ∀ i < cr.spec.shards, q.slots i = slotSpace / cr.spec.shards ∨
        q.slots i = slotSpace / cr.spec.shards + 1 := by
      intro i hi
      rcases Nat.lt_or_ge i c with hic | hic
      · exact hlevel i (Finset.mem_range.2 hic)
      · exact Or.inl (hgiven i hic hi)
    have := hvalue i hi
    have := hvalue j hj
    omega

theorem shardSlots_of_distribute
    (hshare : ∀ i r, (Slots.distribute c)[i]? = some r →
      (NodeMap.get w.fake.nodes (podFQDN cr i 0)).slotCount = r.size) {i : Nat} (hi : i < c) :
    shardSlots cr w i = Placement.share c i := by
  rw [shardSlots, hshare i _ (Slots.getElem?_distribute hi), Slots.size_evenRange]
  exact Int.toNat_natCast _

/-- From the even split of `c` shards scaling out gives an even one exactly if the old
shares are made up of new ones: each is a number of them, or that and one slot, and they
are as many as there will be shards. -/
theorem scaleOut_even_iff (h : OwnedBy cr c w.fake)
    (hshare : ∀ i r, (Slots.distribute c)[i]? = some r →
      (NodeMap.get w.fake.nodes (podFQDN cr i 0)).slotCount = r.size)
    (hlt : c < cr.spec.shards) (hle : cr.spec.shards ≤ 16384) (order : RangeOrders) :
    (∀ i < cr.spec.shards, ∀ j < cr.spec.shards,
      shardSlots cr (exec (World.answer order) (scaleOut cr c) w).2 i ≤
        shardSlots cr (exec (World.answer order) (scaleOut cr c) w).2 j + 1) ↔
    ∃ parts : Nat → Nat, (∀ i < c, 1 ≤ parts i ∧
      (Placement.share c i = parts i * (16384 / cr.spec.shards) ∨
        Placement.share c i = parts i * (16384 / cr.spec.shards) + 1)) ∧
      ∑ i ∈ Finset.range c, parts i = cr.spec.shards := by
  obtain ⟨w', p, q, hout⟩ := h.scaleOut hlt hle order
  have hpos : 0 < slotSpace / cr.spec.shards := Nat.div_pos hle (by omega)
  have hslots : ∀ i ∈ Finset.range c, p.slots i = Placement.share c i := by
    intro i hi
    rw [hout.before]
    exact shardSlots_of_distribute hshare (Finset.mem_range.1 hi)
  have hcuts := hout.widened.taken.level_iff hpos
  rw [Finset.card_range, Nat.add_sub_cancel' hlt.le, cuts_congr hslots] at hcuts
  rw [hout.run, ← hout.after, hout.even_iff hlt, hcuts]
  simp only [Cuts, Finset.mem_range]
  rfl

end

/-- Twice as many shards: each share is two of the new size. -/
theorem scaleOut_even_doubled :
    OwnedBy (resized 8) 4 (resizing 8 4).fake ∧ ∀ i < 8, ∀ j < 8,
      shardSlots (resized 8) (exec (World.answer fun _ => asWritten) (scaleOut (resized 8) 4)
        (resizing 8 4)).2 i ≤
      shardSlots (resized 8) (exec (World.answer fun _ => asWritten) (scaleOut (resized 8) 4)
        (resizing 8 4)).2 j + 1 := by
  have h : OwnedBy (resized 8) 4 (resizing 8 4).fake := ownedBy_dealtFake _ (by decide) (by decide)
  have hparts : ∀ i < 4, 1 ≤ 2 ∧ (Placement.share 4 i = 2 * (16384 / 8) ∨
      Placement.share 4 i = 2 * (16384 / 8) + 1) := by
    decide
  exact ⟨h, (scaleOut_even_iff h (slotCount_dealtFake (resized 8) 4) (by decide) (by decide)
    fun _ => asWritten).2 ⟨fun _ => 2, hparts, by decide⟩⟩

/-- Two more shards take their shares from two of three. -/
theorem scaleOut_uneven :
    OwnedBy (resized 5) 3 (resizing 5 3).fake ∧
    (∀ i r, (Slots.distribute 3)[i]? = some r →
      (NodeMap.get (resizing 5 3).fake.nodes (podFQDN (resized 5) i 0)).slotCount = r.size) ∧
    ∃ i < 5, ∃ j < 5,
      shardSlots (resized 5) (exec (World.answer fun _ => asWritten) (scaleOut (resized 5) 3)
        (resizing 5 3)).2 i ≤ 2186 ∧
      5461 ≤ shardSlots (resized 5) (exec (World.answer fun _ => asWritten)
        (scaleOut (resized 5) 3) (resizing 5 3)).2 j := by
  have h : OwnedBy (resized 5) 3 (resizing 5 3).fake := ownedBy_dealtFake _ (by decide) (by decide)
  have hshare := slotCount_dealtFake (resized 5) 3
  refine ⟨h, hshare, ?_⟩
  obtain ⟨w', p, q, hout⟩ := h.scaleOut (by decide) (by decide) fun _ => asWritten
  obtain ⟨times, htimes, hsum⟩ := hout.widened.taken.exists_times
  have hslots : ∀ i < 3, q.slots i + times i * 3276 = Placement.share 3 i := by
    intro i hi
    have hcount := shardSlots_of_distribute (w := resizing 5 3) hshare hi
    rw [← hout.before, htimes i (Finset.mem_range.2 hi)] at hcount
    exact hcount
  have h0 : q.slots 0 + times 0 * 3276 = 5461 := hslots 0 (by decide)
  have h1 : q.slots 1 + times 1 * 3276 = 5461 := hslots 1 (by decide)
  have h2 : q.slots 2 + times 2 * 3276 = 5462 := hslots 2 (by decide)
  change ∑ i ∈ Finset.range 3, times i = 2 at hsum
  rw [Finset.sum_range_succ, Finset.sum_range_succ, Finset.sum_range_one] at hsum
  rw [hout.run, ← hout.after]
  -- nobody has two shares to give, so one of the three gives none
  rcases Nat.eq_zero_or_pos (times 0) with hzero | hpos
  · exact ⟨1, by decide, 0, by decide, by omega, by omega⟩
  rcases Nat.eq_zero_or_pos (times 1) with hzero | hpos'
  · exact ⟨0, by decide, 1, by decide, by omega, by omega⟩
  · exact ⟨0, by decide, 2, by decide, by omega, by omega⟩

end Valkeyop.Controller
