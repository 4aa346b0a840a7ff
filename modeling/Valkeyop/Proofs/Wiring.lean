import Mathlib.Algebra.BigOperators.Ring.Finset
import Valkeyop.Controller.FakeWorld
import Valkeyop.Controller.Placement
import Valkeyop.Lib.Assoc
import Valkeyop.Proofs.Workloads

/-!
# The fake cluster, read as a placement

Without a failover the controller only ever gives slots to the first pod of a shard
and only ever makes replicas of the others. `Holds` says that the slots of a fake
cluster are where a placement says, whatever the nodes without slots are; here is what
each command does to it, and what the controller reads off such a cluster.
-/

namespace Valkeyop.Controller

open Valkeyop.Lib Valkeyop.Cluster Valkeyop.Api Valkeyop.Resources

/-! ## Looking nodes up -/

section

variable {f : Fake} {e : Endpoint} {key k : String} {g : NodeInfo → NodeInfo}

theorem ensure_of_mem (h : e.host ∈ f.nodes) : f.ensure e = f := if_pos h

theorem exists_lookup (h : key ∈ f.nodes) : ∃ n, f.nodes.lookup key = some n :=
  Option.isSome_iff_exists.1 (AList.lookup_isSome.2 h)

theorem lookup_ensure_self (f : Fake) (e : Endpoint) : (f.ensure e).nodes.lookup e.host =
    some ((f.nodes.lookup e.host).getD (Fake.newNode e)) := by
  unfold Fake.ensure
  split
  · next h =>
      obtain ⟨n, hn⟩ := exists_lookup h
      simp [hn]
  · next h => simp [AList.lookup_eq_none.2 h]

theorem mem_ensure (f : Fake) (e : Endpoint) : e.host ∈ (f.ensure e).nodes := by
  rw [← AList.lookup_isSome, lookup_ensure_self]
  rfl

theorem lookup_ensure_ne (h : key ≠ e.host) :
    (f.ensure e).nodes.lookup key = f.nodes.lookup key := by
  unfold Fake.ensure
  split
  · rfl
  · exact AList.lookup_insert_ne h

theorem lookup_modify_self :
    (f.modify k g).nodes.lookup k = (f.nodes.lookup k).map g := by
  unfold Fake.modify
  cases h : f.nodes.lookup k with
  | none => exact h
  | some n => exact AList.lookup_insert _

theorem lookup_modify_ne (h : key ≠ k) :
    (f.modify k g).nodes.lookup key = f.nodes.lookup key := by
  unfold Fake.modify
  split
  · exact AList.lookup_insert_ne h
  · rfl

theorem mem_modify : key ∈ (f.modify k g).nodes ↔ key ∈ f.nodes := by
  rw [← AList.lookup_isSome, ← AList.lookup_isSome]
  by_cases hkey : key = k
  · rw [hkey, lookup_modify_self, Option.isSome_map]
  · rw [lookup_modify_ne hkey]

theorem endpoint_host (cr : ValkeyCluster) (i j : Nat) :
    (endpoint cr i j).host = podFQDN cr i j := rfl

theorem lookup_forget_self : (f.forget k).nodes.lookup k = none := AList.lookup_erase ..

theorem lookup_forget_ne (h : key ≠ k) :
    (f.forget k).nodes.lookup key = f.nodes.lookup key :=
  AList.lookup_erase_ne h

/-- Every node is as `P` says of its key. -/
def EveryNode (P : String → NodeInfo → Prop) (f : Fake) : Prop :=
  ∀ key n, f.nodes.lookup key = some n → P key n

variable {P : String → NodeInfo → Prop}

theorem EveryNode.ensure (h : EveryNode P f) (hnew : P e.host (Fake.newNode e)) :
    EveryNode P (f.ensure e) := by
  intro key n hn
  by_cases hkey : key = e.host
  · subst hkey
    rw [lookup_ensure_self, Option.some.injEq] at hn
    subst hn
    cases hold : f.nodes.lookup e.host with
    | none => exact hnew
    | some m => exact h _ m hold
  · rw [lookup_ensure_ne hkey] at hn
    exact h key n hn

theorem EveryNode.modify (h : EveryNode P f)
    (hg : ∀ n, f.nodes.lookup k = some n → P k (g n)) : EveryNode P (f.modify k g) := by
  intro key n hn
  by_cases hkey : key = k
  · subst hkey
    rw [lookup_modify_self] at hn
    obtain ⟨m, hm, rfl⟩ := Option.map_eq_some_iff.1 hn
    exact hg m hm
  · rw [lookup_modify_ne hkey] at hn
    exact h key n hn

theorem EveryNode.forget (h : EveryNode P f) (id : String) : EveryNode P (f.forget id) := by
  intro key n hn
  by_cases hkey : key = id
  · rw [hkey, lookup_forget_self] at hn
    cases hn
  · rw [lookup_forget_ne hkey] at hn
    exact h key n hn

end

/-! ## The wiring -/

/-- A node goes by its key, and has slots only as a primary that is the first pod of a
shard. -/
structure InRole (cr : ValkeyCluster) (key : String) (n : NodeInfo) : Prop where
  id : n.id = key
  host : n.host = key
  owner : n.slotCount ≠ 0 →
    0 < n.slotCount ∧ n.isPrimary = true ∧ ∃ i, key = podFQDN cr i 0

/-- The cluster is wired as described, and shard `i` owns `slots i` slots. -/
structure Holds (cr : ValkeyCluster) (f : Fake) (slots : Nat → Nat) : Prop where
  roles : ∀ {key n}, f.nodes.lookup key = some n → InRole cr key n
  slots : ∀ i, (NodeMap.get f.nodes (podFQDN cr i 0)).slotCount = slots i

section

variable {cr : ValkeyCluster} {f f' : Fake} {slots : Nat → Nat} {i j k : Nat} {key : String}
  {n : NodeInfo}

theorem InRole.ownsSlots_iff (h : InRole cr key n) : ownsSlots n = true ↔ 0 < n.slotCount := by
  simp only [ownsSlots, Bool.and_eq_true, decide_eq_true_iff]
  exact ⟨And.right, fun hpos => ⟨(h.owner (by omega)).2.1, hpos⟩⟩

/-- The slots of a listed first pod. -/
theorem Holds.slotCount_eq (h : Holds cr f slots)
    (hn : f.nodes.lookup (podFQDN cr i 0) = some n) : n.slotCount = slots i := by
  rw [← h.slots i, NodeMap.get, hn]
  rfl

/-- A node with slots is the first pod of its shard. -/
theorem Holds.owner (h : Holds cr f slots) (hn : f.nodes.lookup key = some n)
    (hslots : n.slotCount ≠ 0) :
    ∃ i, key = podFQDN cr i 0 ∧ n.slotCount = slots i ∧ 0 < slots i := by
  obtain ⟨hpos, -, i, rfl⟩ := (h.roles hn).owner hslots
  have heq := h.slotCount_eq hn
  exact ⟨i, rfl, heq, by omega⟩

theorem Holds.slotCount_zero (h : Holds cr f slots)
    (hkey : ∀ i, key = podFQDN cr i 0 → slots i = 0) :
    (NodeMap.get f.nodes key).slotCount = 0 := by
  unfold NodeMap.get
  cases hn : f.nodes.lookup key with
  | none => rfl
  | some n =>
      by_contra hslots
      obtain ⟨i, rfl, -, hpos⟩ := h.owner hn hslots
      exact absurd (hkey i rfl) (by omega)

/-! ## What the commands do -/

/-- The record of a first pod is set. -/
theorem Holds.putFirst (h : Holds cr f slots)
    (hself : f'.nodes.lookup (podFQDN cr i 0) = some n)
    (hother : ∀ key, key ≠ podFQDN cr i 0 → f'.nodes.lookup key = f.nodes.lookup key)
    (hrole : InRole cr (podFQDN cr i 0) n) (hcount : n.slotCount = k) :
    Holds cr f' (Function.update slots i k) := by
  refine ⟨fun {key m} hm => ?_, fun i' => ?_⟩
  · by_cases hkey : key = podFQDN cr i 0
    · subst hkey
      rw [hself, Option.some.injEq] at hm
      exact hm ▸ hrole
    · rw [hother key hkey] at hm
      exact h.roles hm
  · rw [NodeMap.get]
    by_cases hi : i' = i
    · subst hi
      rw [hself, Function.update_self]
      exact hcount
    · rw [hother _ fun hkey => hi (podFQDN_inj hkey).1, Function.update_of_ne hi]
      exact h.slots i'

/-- The record of another pod is set. -/
theorem Holds.putOther (h : Holds cr f slots) (hj : j ≠ 0)
    (hself : f'.nodes.lookup (podFQDN cr i j) = some n)
    (hother : ∀ key, key ≠ podFQDN cr i j → f'.nodes.lookup key = f.nodes.lookup key)
    (hrole : InRole cr (podFQDN cr i j) n) : Holds cr f' slots := by
  refine ⟨fun {key m} hm => ?_, fun i' => ?_⟩
  · by_cases hkey : key = podFQDN cr i j
    · subst hkey
      rw [hself, Option.some.injEq] at hm
      exact hm ▸ hrole
    · rw [hother key hkey] at hm
      exact h.roles hm
  · rw [NodeMap.get, hother _ fun hkey => hj (podFQDN_inj hkey).2.symm]
    exact h.slots i'

theorem inRole_newNode (cr : ValkeyCluster) (i j : Nat) :
    InRole cr (podFQDN cr i j) (Fake.newNode (endpoint cr i j)) :=
  ⟨rfl, rfl, fun h => absurd rfl h⟩

theorem Holds.ensure (h : Holds cr f slots) (i j : Nat) :
    Holds cr (f.ensure (endpoint cr i j)) slots := by
  by_cases hmem : podFQDN cr i j ∈ f.nodes
  · rw [ensure_of_mem hmem]
    exact h
  have hnone : f.nodes.lookup (podFQDN cr i j) = none := AList.lookup_eq_none.2 hmem
  have hself : (f.ensure (endpoint cr i j)).nodes.lookup (podFQDN cr i j) =
      some (Fake.newNode (endpoint cr i j)) :=
    (lookup_ensure_self f (endpoint cr i j)).trans (by rw [endpoint_host, hnone]; rfl)
  have hother : ∀ key, key ≠ podFQDN cr i j →
      (f.ensure (endpoint cr i j)).nodes.lookup key = f.nodes.lookup key :=
    fun _ hkey => lookup_ensure_ne hkey
  by_cases hj : j = 0
  · subst hj
    have hzero : slots i = 0 := by
      have := h.slots i
      rw [NodeMap.get, hnone] at this
      exact Int.ofNat_eq_zero.1 this.symm
    rw [← Function.update_eq_self i slots, hzero]
    exact h.putFirst hself hother (inRole_newNode cr i 0) rfl
  · exact h.putOther hj hself hother (inRole_newNode cr i j)

theorem Holds.replicate (h : Holds cr f slots) (hj : j ≠ 0) (id : String) :
    Holds cr (f.replicate (endpoint cr i j) id) slots := by
  have h' := h.ensure i j
  obtain ⟨m, hm⟩ := exists_lookup (mem_ensure f (endpoint cr i j))
  have hrole := h'.roles hm
  refine h'.putOther hj (lookup_modify_self.trans (congrArg _ hm))
    (fun _ => lookup_modify_ne) ?_
  exact ⟨hrole.id, hrole.host, fun h => absurd rfl h⟩

theorem Holds.forget (h : Holds cr f slots) {id : String}
    (hid : ∀ i, id = podFQDN cr i 0 → slots i = 0) : Holds cr (f.forget id) slots := by
  refine ⟨fun {key m} hm => ?_, fun i => ?_⟩
  · by_cases hkey : key = id
    · rw [hkey, lookup_forget_self] at hm
      exact nomatch hm
    · rw [lookup_forget_ne hkey] at hm
      exact h.roles hm
  · by_cases hkey : podFQDN cr i 0 = id
    · rw [NodeMap.get, hkey, lookup_forget_self, hid i hkey.symm]
      rfl
    · rw [NodeMap.get, lookup_forget_ne hkey]
      exact h.slots i

/-- A primary with another number of slots. -/
theorem InRole.recount (h : InRole cr (podFQDN cr i 0) n) {m : NodeInfo} (hid : m.id = n.id)
    (hhost : m.host = n.host) (hprimary : m.slotCount ≠ 0 → m.isPrimary = true)
    (hcount : m.slotCount = k) : InRole cr (podFQDN cr i 0) m :=
  ⟨hid.trans h.id, hhost.trans h.host, fun hne => ⟨by omega, hprimary hne, i, rfl⟩⟩

theorem Holds.addSlots (h : Holds cr f slots) {r : SlotRange} (hr : r.size = k) :
    Holds cr (f.addSlots (endpoint cr i 0) [r])
      (Function.update slots i (slots i + k)) := by
  have h' := h.ensure i 0
  obtain ⟨m, hm⟩ := exists_lookup (mem_ensure f (endpoint cr i 0))
  have hcount : NodeInfo.slotCount { Fake.asPrimary m with slots := m.slots ++ [r] } =
      ((slots i + k : Nat) : Int) := by
    have := h'.slotCount_eq hm
    simp only [NodeInfo.slotCount, List.map_append, List.sum_append, List.map_singleton,
      List.sum_singleton, hr] at this ⊢
    omega
  exact h'.putFirst (lookup_modify_self.trans (congrArg _ hm)) (fun _ => lookup_modify_ne)
    ((h'.roles hm).recount rfl rfl (fun _ => rfl) hcount) hcount

theorem slotCount_countToRanges {m : NodeInfo} {count : Int}
    (hm : m.slots = Fake.countToRanges count) : m.slotCount = max count 0 := by
  rw [NodeInfo.slotCount, hm, Fake.countToRanges]
  split
  · simp only [List.map_nil, List.sum_nil]
    omega
  · simp only [List.map_singleton, List.sum_singleton, SlotRange.size]
    omega

/-- Slots move between first pods as they move between shards. -/
theorem Holds.moveSlots (h : Holds cr f slots) {a b : Nat} (hab : a ≠ b) (hk : k ≤ slots a)
    (ha : podFQDN cr a 0 ∈ f.nodes) (hb : podFQDN cr b 0 ∈ f.nodes) :
    (f.moveSlots (podFQDN cr a 0) (podFQDN cr b 0) k).1 = k ∧
      Holds cr (f.moveSlots (podFQDN cr a 0) (podFQDN cr b 0) k).2
        (Placement.moved slots a b k) := by
  obtain ⟨m, hm⟩ := exists_lookup ha
  obtain ⟨t, ht⟩ := exists_lookup hb
  have hkeys : podFQDN cr b 0 ≠ podFQDN cr a 0 := fun hkey => hab (podFQDN_inj hkey).1.symm
  have hmcount := h.slotCount_eq hm
  have htcount := h.slotCount_eq ht
  have hmoved : min (k : Int) m.slotCount = k := by omega
  unfold Fake.moveSlots
  simp only [hm, ht, hmoved, true_and]
  -- the source loses them, then the target gains them
  have hsource : NodeInfo.slotCount { m with
      slots := Fake.countToRanges (m.slotCount - k) } = ((slots a - k : Nat) : Int) := by
    rw [slotCount_countToRanges rfl]
    omega
  have htarget : NodeInfo.slotCount { Fake.asPrimary t with
      slots := Fake.countToRanges (t.slotCount + k) } = ((slots b + k : Nat) : Int) := by
    rw [slotCount_countToRanges rfl]
    omega
  -- what is left of the source had slots before, so it is a primary
  have hprimary : NodeInfo.slotCount { m with
      slots := Fake.countToRanges (m.slotCount - k) } ≠ 0 → m.isPrimary = true := fun hne =>
    ((h.roles hm).owner (by omega)).2.1
  have hdrained : Holds cr (f.modify (podFQDN cr a 0) fun s =>
      { s with slots := Fake.countToRanges (s.slotCount - k) }) _ :=
    h.putFirst (lookup_modify_self.trans (congrArg _ hm)) (fun _ => lookup_modify_ne)
      ((h.roles hm).recount rfl rfl hprimary hsource) hsource
  exact hdrained.putFirst
    (lookup_modify_self.trans (congrArg _ ((lookup_modify_ne hkeys).trans ht)))
    (fun _ => lookup_modify_ne) ((h.roles ht).recount rfl rfl (fun _ => rfl) htarget) htarget

/-! ## What the controller reads -/

theorem mem_state_nodes : n ∈ f.state.nodes ↔ ∃ key, f.nodes.lookup key = some n := by
  simp only [Fake.state, List.mem_mergeSort, List.mem_map]
  constructor
  · rintro ⟨e, he, rfl⟩
    exact ⟨e.1, AList.mem_lookup_iff.2 he⟩
  · rintro ⟨key, hn⟩
    exact ⟨⟨key, n⟩, AList.mem_lookup_iff.1 hn, rfl⟩

theorem nodup_state_nodes {field : NodeInfo → String}
    (hfield : ∀ {key n}, f.nodes.lookup key = some n → field n = key) :
    (f.state.nodes.map field).Nodup := by
  have hperm := (List.mergeSort_perm (f.nodes.entries.map fun e => e.2)
    fun a b => decide (a.id ≤ b.id)).map field
  have hkeys : (f.nodes.entries.map fun e => e.2).map field = f.nodes.keys := by
    rw [List.map_map, AList.keys, List.keys]
    exact List.map_congr_left fun e he => hfield (AList.mem_lookup_iff.2 he)
  exact hperm.nodup_iff.2 (hkeys ▸ f.nodes.keys_nodup)

/-- An index by a field that is the key of each node is the map itself. -/
theorem lookup_indexBy_state {field : NodeInfo → String}
    (hfield : ∀ {key n}, f.nodes.lookup key = some n → field n = key) (key : String) :
    (indexBy field f.state.nodes).lookup key = f.nodes.lookup key := by
  refine Option.ext fun n => ?_
  rw [lookup_indexBy (nodup_state_nodes hfield), mem_state_nodes]
  constructor
  · rintro ⟨⟨key', hn⟩, rfl⟩
    rw [hfield hn]
    exact hn
  · exact fun hn => ⟨⟨key, hn⟩, hfield hn⟩

theorem Holds.lookup_byID (h : Holds cr f slots) (key : String) :
    (byID f.state).lookup key = f.nodes.lookup key :=
  lookup_indexBy_state (fun hn => (h.roles hn).id) key

theorem Holds.lookup_hostIndex (h : Holds cr f slots) (key : String) :
    (hostIndex f.state).lookup key = f.nodes.lookup key :=
  lookup_indexBy_state (fun hn => (h.roles hn).host) key

theorem Holds.get_byID (h : Holds cr f slots) (i : Nat) :
    (NodeMap.get (byID f.state) (podFQDN cr i 0)).slotCount = slots i := by
  rw [NodeMap.get, h.lookup_byID]
  exact h.slots i

end

section

variable {cr : ValkeyCluster} {f : Fake} {p : Placement} {i : Nat}

/-- A sum over the nodes, of something only slot owners have, is one over the shards. -/
theorem Holds.sum_entries {M : Type} [AddCommMonoid M] (h : Holds cr f p.slots)
    (φ : NodeInfo → M) (ψ : Nat → M) (hφ : ∀ n, n.slotCount = 0 → φ n = 0)
    (hψ : ∀ i n, InRole cr (podFQDN cr i 0) n → n.slotCount = p.slots i →
      φ n = ψ (p.slots i)) (hψ0 : ψ 0 = 0) :
    (f.nodes.entries.map fun e => φ e.2).sum = ∑ i ∈ p.sets, ψ (p.slots i) := by
  have hsupport : ∀ key n, f.nodes.lookup key = some n → φ n ≠ 0 →
      key ∈ p.sets.image fun i => podFQDN cr i 0 := by
    intro key n hn hne
    obtain ⟨i, rfl, -, hpos⟩ := h.owner hn fun hzero => hne (hφ n hzero)
    exact Finset.mem_image_of_mem _ (p.housed i hpos)
  rw [Lib.sum_entries hsupport, Finset.sum_image fun i _ j _ hij => (podFQDN_inj hij).1]
  refine Finset.sum_congr rfl fun i _ => ?_
  unfold entryValue
  cases hn : f.nodes.lookup (podFQDN cr i 0) with
  | none =>
      have hzero := h.slots i
      rw [NodeMap.get, hn] at hzero
      rw [Int.ofNat_eq_zero.1 hzero.symm, hψ0]
      rfl
  | some n => exact hψ i n (h.roles hn) (h.slotCount_eq hn)

theorem Holds.assignedSlots (h : Holds cr f p.slots) : f.assignedSlots = p.total := by
  rw [Fake.assignedSlots, h.sum_entries NodeInfo.slotCount (fun k => (k : Int))
    (fun _ hzero => hzero) (fun _ _ _ hn => hn) rfl, Placement.total, Nat.cast_sum]

theorem Holds.countP_ownsSlots (h : Holds cr f p.slots) :
    f.state.nodes.countP ownsSlots = p.owners.card := by
  have hsum := h.sum_entries (fun n => if ownsSlots n then 1 else 0)
    (fun k => if 0 < k then 1 else 0) (fun n hzero => ?_) (fun i n hrole hn => ?_)
    rfl
  · rw [Placement.owners, Finset.card_filter, ← hsum]
    change (List.mergeSort _ _).countP _ = _
    rw [(List.mergeSort_perm _ _).countP_eq, List.countP_map, countP_eq_sum]
    rfl
  · simp [ownsSlots, hzero]
  · simp only [hrole.ownsSlots_iff, hn, Int.natCast_pos]

theorem Holds.formed (h : Holds cr f p.slots) : f.state.formed = decide (0 < p.total) := by
  have hentries : 0 < p.total → 0 < f.nodes.entries.length := by
    intro hpos
    by_contra hnone
    have hnil : f.nodes.entries = [] := List.eq_nil_of_length_eq_zero (by omega)
    have := h.assignedSlots
    rw [Fake.assignedSlots, hnil, List.map_nil, List.sum_nil] at this
    omega
  simp only [Fake.state, h.assignedSlots, Int.natCast_pos]
  by_cases hpos : 0 < p.total
  · simp [hpos, hentries hpos]
  · simp [hpos]

theorem Holds.slotsCovered (h : Holds cr f p.slots) :
    f.state.slotsCovered = decide (p.total = slotSpace) := by
  change (f.assignedSlots == totalSlots) = _
  rw [h.assignedSlots, Bool.eq_iff_iff, beq_iff_eq, decide_eq_true_iff]
  exact Int.ofNat_inj

theorem Holds.summarize (h : Holds cr f p.slots) :
    (summarize cr f.state).formed = decide (0 < p.total) ∧
      (summarize cr f.state).slotsCovered = decide (p.total = slotSpace) ∧
      (summarize cr f.state).primaryCount = p.owners.card := by
  refine ⟨h.formed, ?_, ?_⟩
  · change (f.state.slotsCovered && !false) = _
    rw [h.slotsCovered, Bool.not_false, Bool.and_true]
  · change (f.state.nodes.filter ownsSlots).length = _
    rw [← List.countP_eq_length_filter, h.countP_ownsSlots]

theorem Holds.shardPrimary_isSome (h : Holds cr f p.slots) (i : Nat) :
    (shardPrimary cr f.state i).isSome = true ↔ 0 < p.slots i := by
  simp only [shardPrimary, shardNodes, List.find?_isSome, List.mem_reverse, List.mem_filterMap,
    List.mem_range, h.lookup_hostIndex]
  constructor
  · rintro ⟨n, ⟨j, -, hn⟩, howns⟩
    have hcount := ((h.roles hn).ownsSlots_iff).1 howns
    obtain ⟨i', hkey, -, hpos⟩ := h.owner hn (by omega)
    rwa [(podFQDN_inj hkey).1]
  · intro hpos
    cases hn : f.nodes.lookup (podFQDN cr i 0) with
    | none =>
        have := h.slots i
        rw [NodeMap.get, hn] at this
        have : ((0 : Int)) = p.slots i := this
        omega
    | some n =>
        refine ⟨n, ⟨0, by omega, hn⟩, ((h.roles hn).ownsSlots_iff).2 ?_⟩
        have := h.slotCount_eq hn
        omega

/-- The status says all is ready when every desired shard owns slots and no other. -/
theorem Holds.allReady_iff (h : Holds cr f p.slots) :
    allReady cr f.state = true ↔ (∀ i < cr.spec.shards, 0 < p.slots i) ∧
      p.owners.card = cr.spec.shards ∧ p.total = slotSpace := by
  have hready : readyShards cr f.state = cr.spec.shards ↔
      ∀ i < cr.spec.shards, 0 < p.slots i := by
    have hlen := List.countP_eq_length (p := fun i => (shardPrimary cr f.state i).isSome)
      (l := List.range cr.spec.shards)
    rw [List.length_range] at hlen
    rw [readyShards, hlen]
    simp only [List.mem_range, h.shardPrimary_isSome]
  simp only [allReady, Bool.and_eq_true, beq_iff_eq, hready, actualShards,
    h.countP_ownsSlots, h.slotsCovered, decide_eq_true_iff]
  exact ⟨fun hr => ⟨hr.1.1.1, hr.1.1.2, hr.1.2⟩, fun hr => ⟨⟨⟨hr.1, hr.2.1⟩, hr.2.2⟩, rfl⟩⟩

end

end Valkeyop.Controller
