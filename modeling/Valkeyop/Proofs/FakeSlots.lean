import Valkeyop.Proofs.Wiring
import Valkeyop.Slots

/-!
# The fake keeps its slots

Whatever commands it is given, the fake has slots on primaries only, and the commands that
rearrange slots neither lose nor make any. The invariant is about one node at a time: it is
a primary exactly as long as it names no master, and a node that names one has no slots.

With that, a failover gives the replica all there was, a move takes from one count what it
adds to another, and the two commands that deal the slots out anew find every node without
slots that is not dealt to. Nothing is asked of the endpoints and IDs: a node may be its
own replica, or the source of a move its target.
-/

namespace Valkeyop.Cluster

open Valkeyop.Lib Valkeyop.Controller

/-! ## Nodes -/

/-- A node that names a master is no primary and has no slots. -/
structure InOrder (n : NodeInfo) : Prop where
  primary : n.isPrimary = true → n.masterID = ""
  nonneg : 0 ≤ n.slotCount
  replica : n.masterID ≠ "" → n.slotCount = 0

abbrev Fake.InOrder (f : Fake) : Prop := EveryNode (fun _ => Cluster.InOrder) f

section

variable {n : NodeInfo}

theorem InOrder.of_primary (hmaster : n.masterID = "") (hnonneg : 0 ≤ n.slotCount) :
    InOrder n :=
  ⟨fun _ => hmaster, hnonneg, fun hne => absurd hmaster hne⟩

theorem InOrder.of_empty (hprimary : n.isPrimary = true → n.masterID = "")
    (hslots : n.slotCount = 0) : InOrder n :=
  ⟨hprimary, hslots.ge, fun _ => hslots⟩

theorem isPrimary_iff : n.isPrimary = true ↔ "master" ∈ n.flags ∨ n.masterID = "" := by
  simp [NodeInfo.isPrimary]

theorem InOrder.of_slave (hflags : n.flags = ["slave"]) (hslots : n.slots = []) : InOrder n := by
  refine .of_empty (fun hprimary => ?_) (by rw [NodeInfo.slotCount, hslots]; rfl)
  rw [isPrimary_iff, hflags] at hprimary
  simpa using hprimary

theorem InOrder.isPrimary (h : InOrder n) (hpos : 0 < n.slotCount) : n.isPrimary = true := by
  rw [isPrimary_iff]
  by_contra hreplica
  rw [h.replica fun hmaster => hreplica (.inr hmaster)] at hpos
  exact absurd hpos (by decide)

end

/-! ## Totals -/

section

variable {f : Fake} {key k : String} {n : NodeInfo} {g : NodeInfo → NodeInfo}

/-- A change of one record changes the total by as much. -/
theorem assignedSlots_modify (hn : f.nodes.lookup k = some n) :
    (f.modify k g).assignedSlots = f.assignedSlots - n.slotCount + (g n).slotCount := by
  have hsum : (f.modify k g).assignedSlots + entryValue NodeInfo.slotCount f.nodes k =
      f.assignedSlots + entryValue NodeInfo.slotCount (f.modify k g).nodes k :=
    sum_entries_agree fun _ => lookup_modify_ne
  simp only [entryValue, lookup_modify_self, hn, Option.map_some, Option.getD_some] at hsum
  omega

theorem assignedSlots_of_empty (h : ∀ key n, f.nodes.lookup key = some n → n.slotCount = 0) :
    f.assignedSlots = 0 := by
  refine List.sum_eq_zero fun x hx => ?_
  obtain ⟨e, he, rfl⟩ := List.mem_map.1 hx
  exact h e.1 e.2 (AList.mem_lookup_iff.2 he)

/-- The nodes are still in order, and all slots are still assigned if they were. -/
structure Rearranged (f f' : Fake) : Prop where
  inOrder : f'.InOrder
  total : f.assignedSlots = totalSlots → f'.assignedSlots = totalSlots

theorem Rearranged.refl (hf : f.InOrder) : Rearranged f f := ⟨hf, id⟩

theorem Rearranged.trans {f' f'' : Fake} (h : Rearranged f f') (h' : Rearranged f' f'') :
    Rearranged f f'' :=
  ⟨h'.inOrder, h'.total ∘ h.total⟩

theorem Fake.InOrder.put (hf : f.InOrder) (hn : f.nodes.lookup k = some n)
    (hg : Cluster.InOrder (g n)) : (f.modify k g).InOrder :=
  EveryNode.modify hf fun _ hm => Option.some.inj (hn.symm.trans hm) ▸ hg

/-! ## Roles -/

theorem Fake.InOrder.ensure (hf : f.InOrder) (e : Endpoint) : (f.ensure e).InOrder :=
  EveryNode.ensure hf (.of_primary rfl le_rfl)

theorem Fake.InOrder.addSlots (hf : f.InOrder) (e : Endpoint) {ranges : List SlotRange}
    (hranges : ∀ r ∈ ranges, r.start ≤ r.stop) : (f.addSlots e ranges).InOrder := by
  refine EveryNode.modify (hf.ensure e) fun n hn => .of_primary rfl ?_
  have hadded : 0 ≤ (ranges.map SlotRange.size).sum := by
    rw [← length_flatMap_slots ranges hranges]
    exact Int.natCast_nonneg _
  have hold := ((hf.ensure e) _ n hn).nonneg
  rw [NodeInfo.slotCount, List.map_append, List.sum_append]
  exact Int.add_nonneg hold hadded

theorem Fake.InOrder.replicate (hf : f.InOrder) (e : Endpoint) (primaryID : String) :
    (f.replicate e primaryID).InOrder :=
  EveryNode.modify (hf.ensure e) fun _ _ => .of_slave rfl rfl

/-- What the replica had, its primary, and what that had, are all there is to it; the
replica may be its own primary, and has no slots then. -/
theorem rearranged_failover (hf : f.InOrder) (e : Endpoint) : Rearranged f (f.failover e) := by
  unfold Fake.failover
  split
  · exact .refl hf
  next r hr =>
  split
  · exact .refl hf
  next hmaster =>
  split
  · exact .refl hf
  next m hm =>
  have hrcount : r.slotCount = 0 := (hf _ r hr).replica hmaster
  have hpromoted : (f.modify e.host fun r => { Fake.asPrimary r with slots := m.slots }).InOrder :=
    hf.put hr (.of_primary rfl (hf _ m hm).nonneg)
  -- the primary has its slots still, be it the replica itself
  obtain ⟨m', hm', hcount⟩ : ∃ m', (f.modify e.host fun r => { Fake.asPrimary r with
      slots := m.slots }).nodes.lookup r.masterID = some m' ∧ m'.slotCount = m.slotCount := by
    by_cases hself : r.masterID = e.host
    · rw [hself, lookup_modify_self, hr]
      exact ⟨_, rfl, rfl⟩
    · exact ⟨m, (lookup_modify_ne hself).trans hm, rfl⟩
  refine ⟨hpromoted.put hm' (.of_slave rfl rfl), fun htotal => ?_⟩
  rw [assignedSlots_modify hm', assignedSlots_modify hr, htotal, hrcount, hcount]
  show totalSlots - 0 + m.slotCount - m.slotCount + 0 = totalSlots
  omega

/-! ## Moves -/

/-- A count goes down at one node and up at another, or at the same. -/
theorem rearranged_move (hf : f.InOrder) {a b : String} {source target : NodeInfo} {moved : Int}
    (hsource : f.nodes.lookup a = some source) (htarget : f.nodes.lookup b = some target)
    (hnonneg : 0 ≤ moved) (hle : moved ≤ source.slotCount) {gain : NodeInfo → NodeInfo}
    (hmaster : ∀ t, t.masterID = target.masterID → (gain t).masterID = "")
    (hslots : ∀ t, (gain t).slots = Fake.countToRanges (t.slotCount + moved)) :
    Rearranged f ((f.modify a fun s =>
      { s with slots := Fake.countToRanges (s.slotCount - moved) }).modify b gain) := by
  have hleft : NodeInfo.slotCount { source with
      slots := Fake.countToRanges (source.slotCount - moved) } = source.slotCount - moved := by
    rw [slotCount_countToRanges rfl]
    omega
  have hold := hf _ source hsource
  have hdrained : (f.modify a fun s =>
      { s with slots := Fake.countToRanges (s.slotCount - moved) }).InOrder := by
    refine hf.put hsource ⟨hold.primary, by omega, fun hreplica => ?_⟩
    have := hold.replica hreplica
    omega
  obtain ⟨t, ht, htmaster⟩ : ∃ t, (f.modify a fun s => { s with
      slots := Fake.countToRanges (s.slotCount - moved) }).nodes.lookup b = some t ∧
      t.masterID = target.masterID := by
    by_cases hself : b = a
    · subst hself
      obtain rfl : source = target := Option.some.inj (hsource.symm.trans htarget)
      rw [lookup_modify_self, hsource]
      exact ⟨_, rfl, rfl⟩
    · exact ⟨target, (lookup_modify_ne hself).trans htarget, rfl⟩
  have htnonneg := (hdrained _ t ht).nonneg
  have hgained : (gain t).slotCount = t.slotCount + moved := by
    rw [slotCount_countToRanges (hslots t)]
    omega
  refine ⟨hdrained.put ht (.of_primary (hmaster t htmaster) (by omega)), fun htotal => ?_⟩
  rw [assignedSlots_modify ht, assignedSlots_modify hsource, hleft, hgained]
  omega

theorem rearranged_moveSlots (hf : f.InOrder) (fromNodeID toNodeID : String) {count : Int}
    (hcount : 0 ≤ count) : Rearranged f (f.moveSlots fromNodeID toNodeID count).2 := by
  unfold Fake.moveSlots
  split
  · next source target hsource htarget =>
      have hnonneg := (hf _ source hsource).nonneg
      exact rearranged_move hf hsource htarget (by omega) (by omega) (fun _ _ => rfl) fun _ => rfl
  · exact .refl hf

/-! ## Dealing out -/

theorem mem_sortedKeys {p : String → NodeInfo → Bool} :
    key ∈ f.sortedKeys p ↔ ∃ n, f.nodes.lookup key = some n ∧ p key n = true := by
  simp only [Fake.sortedKeys, List.mem_mergeSort, List.mem_map, List.mem_filter]
  constructor
  · rintro ⟨e, ⟨he, hp⟩, rfl⟩
    exact ⟨e.2, AList.mem_lookup_iff.2 he, hp⟩
  · rintro ⟨n, hn, hp⟩
    exact ⟨⟨key, n⟩, ⟨AList.mem_lookup_iff.1 hn, hp⟩, rfl⟩

theorem nodup_sortedKeys (f : Fake) (p : String → NodeInfo → Bool) : (f.sortedKeys p).Nodup := by
  rw [Fake.sortedKeys, (List.mergeSort_perm _ _).nodup_iff]
  exact f.nodes.keys_nodup.sublist (List.filter_sublist.map _)

theorem lookup_foldl_modify (g : NodeInfo → NodeInfo) {keys : List String} (hnodup : keys.Nodup)
    (f : Fake) (key : String) :
    (keys.foldl (fun f key => f.modify key g) f).nodes.lookup key =
      if key ∈ keys then (f.nodes.lookup key).map g else f.nodes.lookup key := by
  induction keys generalizing f with
  | nil => simp
  | cons k keys ih =>
      obtain ⟨hk, hnodup⟩ := List.nodup_cons.1 hnodup
      rw [List.foldl_cons, ih hnodup]
      by_cases hkey : key = k
      · subst hkey
        rw [if_neg hk, if_pos (by simp), lookup_modify_self]
      · rw [lookup_modify_ne hkey]
        simp [hkey]

theorem lookup_modifyAll (f : Fake) (g : NodeInfo → NodeInfo) (key : String) :
    (f.modifyAll g).nodes.lookup key = (f.nodes.lookup key).map g := by
  rw [Fake.modifyAll, lookup_foldl_modify g f.nodes.keys_nodup]
  split
  · rfl
  · next hkey =>
      rw [AList.lookup_eq_none.2 hkey]
      rfl

/-- Ranges are given to primaries without slots, one to each. -/
theorem deal_foldl {range : Nat → SlotRange} (hsize : ∀ i, 0 ≤ (range i).size)
    {targets : List (String × Nat)} (hnodup : (targets.map Prod.fst).Nodup) (hf : f.InOrder)
    (hempty : ∀ x ∈ targets, ∃ n, f.nodes.lookup x.1 = some n ∧ n.masterID = "" ∧
      n.slotCount = 0) :
    (targets.foldl (fun f x => f.modify x.1 fun n => { n with slots := [range x.2] }) f).InOrder ∧
    (targets.foldl (fun f x => f.modify x.1 fun n =>
      { n with slots := [range x.2] }) f).assignedSlots =
      f.assignedSlots + (targets.map fun x => (range x.2).size).sum := by
  induction targets generalizing f with
  | nil => exact ⟨hf, (Int.add_zero _).symm⟩
  | cons x targets ih =>
      obtain ⟨hx, hnodup⟩ := List.nodup_cons.1 hnodup
      obtain ⟨n, hn, hmaster, hcount⟩ := hempty x (by simp)
      have hdealt : NodeInfo.slotCount { n with slots := [range x.2] } = (range x.2).size := by
        simp [NodeInfo.slotCount]
      have hinOrder : (f.modify x.1 fun n => { n with slots := [range x.2] }).InOrder :=
        hf.put hn (.of_primary hmaster (hdealt ▸ hsize x.2))
      obtain ⟨hdone, htotal⟩ := ih hnodup hinOrder fun y hy => by
        have hne : y.1 ≠ x.1 := fun heq => hx (List.mem_map.2 ⟨y, hy, heq⟩)
        rw [lookup_modify_ne hne]
        exact hempty y (by simp [hy])
      refine ⟨hdone, ?_⟩
      rw [List.foldl_cons, htotal, assignedSlots_modify hn, hdealt, hcount, List.map_cons,
        List.sum_cons]
      omega

theorem sum_size_zipIdx {targets : List String} (hne : targets ≠ []) :
    (targets.zipIdx.map fun x => (Slots.evenRange targets.length x.2).size).sum = totalSlots := by
  have hindexes : targets.zipIdx.map Prod.snd = List.range targets.length := by
    rw [List.zipIdx_map_snd, List.range_eq_range']
  rw [← Slots.sum_size_evenRange (List.length_pos_iff.2 hne), ← hindexes, List.map_map]
  rfl

/-- No node keeps slots, and some primaries share them. -/
theorem deal (hf : f.InOrder) (clear : NodeInfo → NodeInfo)
    (hclear : ∀ n, Cluster.InOrder n → Cluster.InOrder (clear n) ∧ (clear n).slotCount = 0 ∧
      (clear n).masterID = n.masterID)
    {targets : List String} (hnodup : targets.Nodup) (hne : targets ≠ [])
    (htargets : ∀ id ∈ targets, ∃ n, f.nodes.lookup id = some n ∧ n.isPrimary = true) :
    ((f.modifyAll clear).splitEvenly targets).InOrder ∧
      ((f.modifyAll clear).splitEvenly targets).assignedSlots = totalSlots := by
  have hcleared : ∀ key n, (f.modifyAll clear).nodes.lookup key = some n →
      Cluster.InOrder n ∧ n.slotCount = 0 := by
    intro key n hn
    rw [lookup_modifyAll] at hn
    obtain ⟨old, hold, rfl⟩ := Option.map_eq_some_iff.1 hn
    exact ⟨(hclear old (hf _ old hold)).1, (hclear old (hf _ old hold)).2.1⟩
  have hsize : ∀ i, 0 ≤ (Slots.evenRange targets.length i).size := by
    intro i
    rw [Slots.size_evenRange]
    exact Int.natCast_nonneg _
  have hkeys : (targets.zipIdx.map Prod.fst).Nodup := by rwa [List.zipIdx_map_fst]
  have hempty : ∀ x ∈ targets.zipIdx, ∃ n, (f.modifyAll clear).nodes.lookup x.1 = some n ∧
      n.masterID = "" ∧ n.slotCount = 0 := by
    intro x hx
    obtain ⟨n, hn, hprimary⟩ := htargets x.1 (List.fst_mem_of_mem_zipIdx hx)
    obtain ⟨-, hcount, hkept⟩ := hclear n (hf _ n hn)
    rw [lookup_modifyAll, hn]
    exact ⟨_, rfl, hkept.trans ((hf _ n hn).primary hprimary), hcount⟩
  obtain ⟨hdone, htotal⟩ :=
    deal_foldl hsize hkeys (fun key n hn => (hcleared key n hn).1) hempty
  refine ⟨hdone, htotal.trans ?_⟩
  rw [assignedSlots_of_empty fun key n hn => (hcleared key n hn).2, sum_size_zipIdx hne,
    Int.zero_add]

theorem rearranged_rebalance (hf : f.InOrder) (opts : RebalanceOpts) :
    Rearranged f (f.rebalance opts) := by
  simp only [Fake.rebalance]
  split
  · exact .refl hf
  · next hne =>
      have htargets : ∀ id ∈ f.primaries opts.weightZeroIDs, ∃ n,
          f.nodes.lookup id = some n ∧ n.isPrimary = true := by
        intro id hid
        obtain ⟨n, hn, hp⟩ := mem_sortedKeys.1 hid
        rw [Bool.and_eq_true] at hp
        exact ⟨n, hn, hp.1⟩
      obtain ⟨hinOrder, htotal⟩ := deal hf (fun n => { n with slots := [] })
        (fun n hn => ⟨.of_empty hn.primary rfl, rfl, rfl⟩) (nodup_sortedKeys ..)
        (fun hnil => hne (congrArg List.length hnil)) htargets
      exact ⟨hinOrder, fun _ => htotal⟩

/-- The even split of `reshard`. A node that is no primary is not cleared, and has no slots. -/
theorem deal_owners (hf : f.InOrder) (hn : f.nodes.lookup key = some n)
    (howner : n.isPrimary = true ∧ 0 < n.slotCount) :
    ((f.modifyAll fun nd => if nd.isPrimary then { nd with slots := [] } else nd).splitEvenly
      (f.sortedKeys fun _ nd => nd.isPrimary && decide (nd.slotCount > 0))).InOrder ∧
    ((f.modifyAll fun nd => if nd.isPrimary then { nd with slots := [] } else nd).splitEvenly
      (f.sortedKeys fun _ nd => nd.isPrimary && decide (nd.slotCount > 0))).assignedSlots =
      totalSlots := by
  refine deal hf _ (fun nd hnd => ?_) (nodup_sortedKeys ..) ?_ fun id hid => ?_
  · split
    · exact ⟨.of_empty hnd.primary rfl, rfl, rfl⟩
    · next hreplica =>
        exact ⟨hnd, hnd.replica fun hmaster => hreplica (isPrimary_iff.2 (.inr hmaster)), rfl⟩
  · exact List.ne_nil_of_mem (mem_sortedKeys.2 ⟨n, hn, by simp [howner]⟩)
  · obtain ⟨nd, hnd, hp⟩ := mem_sortedKeys.1 hid
    rw [Bool.and_eq_true] at hp
    exact ⟨nd, hnd, hp.1⟩

/-- What `reshard` does to a target without slots, to have it among the owners. -/
def giveSlot (n : NodeInfo) : NodeInfo :=
  if n.slotCount = 0 then { n with slots := [⟨0, 0⟩] } else n

theorem owner_giveSlot (hn : Cluster.InOrder n) (hmaster : n.masterID = "") :
    Cluster.InOrder (giveSlot n) ∧ (giveSlot n).isPrimary = true ∧
      0 < (giveSlot n).slotCount := by
  unfold giveSlot
  split
  · have hone : NodeInfo.slotCount { n with slots := [⟨0, 0⟩] } = 1 := rfl
    exact ⟨.of_primary hmaster (by omega), isPrimary_iff.2 (.inr hmaster), by omega⟩
  · have hnonneg := hn.nonneg
    exact ⟨hn, isPrimary_iff.2 (.inr hmaster), by omega⟩

/-- With a source it is a move, without one a deal. -/
theorem rearranged_reshard (hf : f.InOrder) (fromNodeID toNodeID : String) {count : Int}
    (hcount : 0 ≤ count) : Rearranged f (f.reshard fromNodeID toNodeID count) := by
  unfold Fake.reshard
  split
  · exact .refl hf
  next target htarget =>
  have hpromoted : Rearranged f (f.modify toNodeID Fake.asPrimary) := by
    refine ⟨hf.put htarget (.of_primary rfl (hf _ target htarget).nonneg), fun htotal => ?_⟩
    rw [assignedSlots_modify htarget, htotal]
    exact Int.sub_add_cancel ..
  have hprimary : (f.modify toNodeID Fake.asPrimary).nodes.lookup toNodeID =
      some (Fake.asPrimary target) := by
    rw [lookup_modify_self, htarget]
    rfl
  refine hpromoted.trans ?_
  have hf := hpromoted.inOrder
  revert hprimary hf
  generalize f.modify toNodeID Fake.asPrimary = f
  intro hprimary hf
  simp only []
  split
  · split
    · exact .refl hf
    · next source hsource =>
        have hnonneg := (hf _ source hsource).nonneg
        exact rearranged_move hf hsource hprimary (by omega) (by omega) (fun _ ht => ht)
          fun _ => rfl
  · obtain ⟨hgiven, howner⟩ := owner_giveSlot (hf _ _ hprimary) rfl
    have htarget : (f.modify toNodeID giveSlot).nodes.lookup toNodeID = some _ :=
      lookup_modify_self.trans (congrArg _ hprimary)
    obtain ⟨hinOrder, htotal⟩ := deal_owners (hf.put hprimary hgiven) htarget howner
    exact ⟨hinOrder, fun _ => htotal⟩

end

/-! ## Runs -/

/-- Ranges run forwards, and no negative number of slots is moved. -/
def AdminCall.Sensible : AdminCall → Prop
  | .addSlots _ ranges => ∀ r ∈ ranges, r.start ≤ r.stop
  | .reshard _ _ _ n | .moveSlots _ _ _ n => 0 ≤ n
  | _ => True

/-- The call is one that moves slots that are there. -/
def AdminCall.Rearranges : AdminCall → Prop
  | .failover _ | .rebalance .. | .reshard .. | .moveSlots .. | .fix _ | .repairSlots _ => True
  | _ => False

/-- The calls, one after the other. -/
def Fake.after (calls : List AdminCall) (f : Fake) : Fake :=
  calls.foldl (fun f c => (f.answer c).2) f

section

variable {f : Fake} {c : AdminCall}

theorem rearranged_answer (hf : f.InOrder) (hc : c.Sensible) (hmoves : c.Rearranges) :
    Rearranged f (f.answer c).2 := by
  cases c with
  | failover replica => exact rearranged_failover hf replica
  | rebalance seed opts => exact rearranged_rebalance hf opts
  | reshard seed fromNodeID toNodeID n => exact rearranged_reshard hf fromNodeID toNodeID hc
  | moveSlots seed fromNodeID toNodeID n => exact rearranged_moveSlots hf fromNodeID toNodeID hc
  | fix seed => exact rearranged_rebalance hf {}
  | repairSlots seed => exact .refl hf
  | _ => exact hmoves.elim

theorem inOrder_answer (hf : f.InOrder) (hc : c.Sensible) : (f.answer c).2.InOrder := by
  by_cases hmoves : c.Rearranges
  · exact (rearranged_answer hf hc hmoves).inOrder
  cases c with
  | state seed => exact hf
  | myID ep => exact hf.ensure ep
  | meet source target => exact (hf.ensure source).ensure target
  | addSlots primary ranges => exact hf.addSlots primary hc
  | replicate replica primaryID => exact hf.replicate replica primaryID
  | forget source nodeID => exact EveryNode.forget hf nodeID
  | _ => exact absurd trivial hmoves

theorem inOrder_empty : Fake.empty.InOrder := fun _ _ hn => nomatch hn

theorem inOrder_after {calls : List AdminCall} (hf : f.InOrder) (hcalls : ∀ c ∈ calls, c.Sensible) :
    (f.after calls).InOrder := by
  induction calls generalizing f with
  | nil => exact hf
  | cons c calls ih =>
      exact ih (inOrder_answer hf (hcalls c (by simp))) fun d hd => hcalls d (by simp [hd])

end

/-- However it is called, the fake has slots on primaries only; and when all slots are
assigned, no call that rearranges them loses or makes one. -/
theorem fake_keeps_slots (calls : List AdminCall) (hcalls : ∀ c ∈ calls, c.Sensible) :
    (∀ key n, (Fake.empty.after calls).nodes.lookup key = some n → 0 < n.slotCount →
      n.isPrimary = true) ∧
    ((Fake.empty.after calls).assignedSlots = 16384 → ∀ c : AdminCall, c.Sensible →
      c.Rearranges → ((Fake.empty.after calls).answer c).2.assignedSlots = 16384) := by
  have hinOrder := inOrder_after inOrder_empty hcalls
  constructor
  · intro key n hn hpos
    exact (hinOrder key n hn).isPrimary hpos
  · intro htotal c hc hmoves
    exact (rearranged_answer hinOrder hc hmoves).total htotal

/-- Two nodes form, a third replicates itself and is promoted, and the second takes over. -/
def takeover : List AdminCall :=
  [.addSlots ⟨"a", 6379, "", ""⟩ [⟨0, 16383⟩],
    .meet ⟨"a", 6379, "", ""⟩ ⟨"b", 6379, "", ""⟩, .replicate ⟨"b", 6379, "", ""⟩ "a",
    .replicate ⟨"c", 6379, "", ""⟩ "c", .failover ⟨"c", 6379, "", ""⟩,
    .failover ⟨"b", 6379, "", ""⟩]

theorem fake_keeps_slots_takeover :
    (∀ c ∈ takeover, c.Sensible) ∧ (Fake.empty.after takeover).assignedSlots = 16384 ∧
    (∀ key n, (Fake.empty.after takeover).nodes.lookup key = some n → 0 < n.slotCount →
      n.isPrimary = true) ∧
    ((Fake.empty.after takeover).answer
      (.reshard ⟨"a", 6379, "", ""⟩ "" "c" 0)).2.assignedSlots = 16384 := by
  have hsensible : ∀ c ∈ takeover, c.Sensible := by simp [takeover, AdminCall.Sensible]
  have htotal : (Fake.empty.after takeover).assignedSlots = 16384 := by decide +kernel
  obtain ⟨hprimary, hkept⟩ := fake_keeps_slots takeover hsensible
  exact ⟨hsensible, htotal, hprimary, hkept htotal _ (Int.le_refl 0) trivial⟩

end Valkeyop.Cluster
