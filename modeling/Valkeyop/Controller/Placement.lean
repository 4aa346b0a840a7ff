import Mathlib.Algebra.BigOperators.Intervals
import Mathlib.Algebra.Order.BigOperators.Group.Finset
import Valkeyop.Lib.EvenSplit
import Valkeyop.Lib.Simulation

/-!
# Where the slots are

What reconciling is about, without nodes, names and calls: which shards have a
StatefulSet, and how many slots each shard owns. A shard that owns slots has a
StatefulSet; that is a field, so a pass that loses track of one cannot be written
down. Slots move from shard to shard and are never counted twice, so whatever the
passes do, the total stays.

`Pass n` is what one reconcile pass may do towards `n` shards. New shards are
numbered from the number of shards that own slots, which is only right when those
are the first ones; `OnTrack` is the condition under which it does no harm, and the
passes lead to `n` shards from exactly the placements that meet it.
-/

namespace Valkeyop.Controller

open Finset Valkeyop.Lib

/-- `totalSlots`, as a natural number. -/
def slotSpace : ℕ := 16384

structure Placement where
  /-- The shards with a StatefulSet. -/
  sets : Finset ℕ
  slots : ℕ → ℕ
  housed : ∀ i, 0 < slots i → i ∈ sets

namespace Placement

/-- The shards that own slots. -/
def owners (p : Placement) : Finset ℕ := p.sets.filter fun i => 0 < p.slots i

def total (p : Placement) : ℕ := ∑ i ∈ p.sets, p.slots i

/-- No StatefulSet and no slot. -/
def empty : Placement := ⟨∅, fun _ => 0, fun _ h => absurd h (lt_irrefl 0)⟩

section

variable {p p' : Placement} {i : ℕ}

theorem mem_owners : i ∈ p.owners ↔ 0 < p.slots i := by
  rw [owners, mem_filter]
  exact ⟨And.right, fun h => ⟨p.housed i h, h⟩⟩

theorem owners_congr (h : ∀ i, 0 < p'.slots i ↔ 0 < p.slots i) : p'.owners = p.owners := by
  ext i
  rw [mem_owners, mem_owners, h]

/-- The total over any set of shards that has the owners in it. -/
theorem total_eq_sum {s : Finset ℕ} (h : ∀ i, 0 < p.slots i → i ∈ s) :
    p.total = ∑ i ∈ s, p.slots i := by
  have hfilter : ∀ t : Finset ℕ, (∀ i, 0 < p.slots i → i ∈ t) →
      ∑ i ∈ t, p.slots i = ∑ i ∈ p.owners, p.slots i := by
    intro t ht
    refine (sum_subset (fun i hi => ht i (mem_owners.1 hi)) fun i _ hi => ?_).symm
    exact Nat.eq_zero_of_not_pos (mt mem_owners.2 hi)
  rw [total, hfilter _ p.housed, hfilter _ h]

theorem total_congr (h : p'.slots = p.slots) : p'.total = p.total := by
  rw [total_eq_sum p.housed, total_eq_sum fun i hi => p.housed i (h ▸ hi), h]

theorem slots_eq_zero (h : p.total = 0) (i : ℕ) : p.slots i = 0 := by
  by_contra hi
  exact hi (sum_eq_zero_iff.1 h i (p.housed i (Nat.pos_of_ne_zero hi)))

theorem card_owners_le_total : p.owners.card ≤ p.total := by
  rw [total_eq_sum fun i hi => mem_owners.2 hi, card_eq_sum_ones]
  exact sum_le_sum fun i hi => mem_owners.1 hi

end

/-! ## Moving slots -/

/-- `k` slots move from shard `a` to shard `b`. -/
def moved (slots : ℕ → ℕ) (a b k : ℕ) : ℕ → ℕ :=
  Function.update (Function.update slots a (slots a - k)) b (slots b + k)

section

variable {p p' : Placement} {a b k i : ℕ}

theorem moved_source (hab : a ≠ b) (slots : ℕ → ℕ) :
    moved slots a b k a = slots a - k := by
  simp [moved, hab]

theorem moved_target (slots : ℕ → ℕ) : moved slots a b k b = slots b + k := by
  simp [moved]

theorem moved_other (ha : i ≠ a) (hb : i ≠ b) (slots : ℕ → ℕ) :
    moved slots a b k i = slots i := by
  simp [moved, ha, hb]

theorem sum_moved {slots : ℕ → ℕ} {s : Finset ℕ} (hab : a ≠ b) (ha : a ∈ s) (hb : b ∈ s)
    (hk : k ≤ slots a) : ∑ i ∈ s, moved slots a b k i = ∑ i ∈ s, slots i := by
  have ha' : a ∈ s.erase b := mem_erase.2 ⟨hab, ha⟩
  have hrest : ∑ i ∈ (s.erase b).erase a, moved slots a b k i =
      ∑ i ∈ (s.erase b).erase a, slots i :=
    sum_congr rfl fun i hi => by
      simp only [mem_erase] at hi
      exact moved_other hi.1 hi.2.1 slots
  rw [← add_sum_erase s _ hb, ← add_sum_erase _ _ ha', ← add_sum_erase s slots hb,
    ← add_sum_erase _ slots ha', moved_source hab, moved_target, hrest]
  omega

theorem total_moved (hab : a ≠ b) (hk : k ≤ p.slots a)
    (hslots : p'.slots = moved p.slots a b k) : p'.total = p.total := by
  have hs : ∀ i, 0 < p.slots i ∨ 0 < p'.slots i → i ∈ insert a (insert b (p.sets ∪ p'.sets)) := by
    rintro i (hi | hi)
    · simp [p.housed i hi]
    · simp [p'.housed i hi]
  rw [total_eq_sum fun i hi => hs i (Or.inl hi), total_eq_sum fun i hi => hs i (Or.inr hi),
    hslots, sum_moved hab (by simp) (by simp) hk]

end

/-! ## The even split -/

/-- The slots shard `i` of `n` is formed with. -/
def share (n i : ℕ) : ℕ := (i + 1) * slotSpace / n - i * slotSpace / n

theorem share_eq_runLength (n i : ℕ) : share n i = runLength slotSpace n i := rfl

theorem sum_share (n k : ℕ) : ∑ i ∈ range k, share n i = k * slotSpace / n := by
  simp only [share_eq_runLength]
  exact sum_runLength k

theorem share_pos {n : ℕ} (hn : 0 < n) (hle : n ≤ slotSpace) (i : ℕ) : 0 < share n i :=
  runLength_pos hn hle i

/-- The first `k` of `n` shards have their share, the others nothing. -/
def dealt (n k i : ℕ) : ℕ := if i < k then share n i else 0

theorem lt_of_dealt_pos {n k i : ℕ} (h : 0 < dealt n k i) : i < k := by
  by_contra hi
  rw [dealt, if_neg hi] at h
  exact absurd h (lt_irrefl 0)

theorem dealt_zero (n : ℕ) : dealt n 0 = fun _ => 0 := by
  funext i
  simp [dealt]

theorem update_dealt (n k : ℕ) :
    Function.update (dealt n k) k (dealt n k k + share n k) = dealt n (k + 1) := by
  funext i
  by_cases hi : i = k
  · subst hi
    simp [dealt]
  · rw [Function.update_of_ne hi, dealt, dealt]
    congr 1
    rw [eq_iff_iff]
    omega

theorem total_dealt {p : Placement} {n k : ℕ} (hslots : p.slots = dealt n k) :
    p.total = k * slotSpace / n := by
  have hin : ∀ i, 0 < p.slots i → i ∈ range k := by
    intro i hi
    rw [hslots] at hi
    exact mem_range.2 (lt_of_dealt_pos hi)
  rw [total_eq_sum hin, ← sum_share]
  exact sum_congr rfl fun i hi => by rw [hslots, dealt, if_pos (mem_range.1 hi)]

theorem total_dealt_all {p : Placement} {n : ℕ} (hn : 0 < n) (hslots : p.slots = dealt n n) :
    p.total = slotSpace := by
  rw [total_dealt hslots, Nat.mul_div_cancel_left _ hn]

/-- The desired shards, `k` of them with their share. -/
def ofDeal (n k : ℕ) : Placement where
  sets := range n
  slots := dealt n (min k n)
  housed i hi := by
    have := lt_of_dealt_pos hi
    exact mem_range.2 (by omega)

theorem slots_ofDeal (n k : ℕ) : (ofDeal n k).slots = dealt n (min k n) := rfl

theorem owners_dealt {p : Placement} {n k : ℕ} (hn : 0 < n) (hle : n ≤ slotSpace)
    (hslots : p.slots = dealt n k) : p.owners = range k := by
  ext i
  rw [mem_owners, mem_range, hslots, dealt]
  split
  · next hi => exact iff_of_true (share_pos hn hle i) hi
  · next hi => exact iff_of_false (lt_irrefl 0) hi

/-! ## Passes -/

/-- The batch one pass drains at most. -/
def batch : ℕ := 1024

/-- One pass towards `n` shards. -/
inductive Pass (n : ℕ) (p p' : Placement) : Prop
  /-- Nobody owns a slot: the cluster is formed. -/
  | form (htotal : p.total = 0) (hsets : p'.sets = p.sets ∪ range n)
      (hslots : p'.slots = dealt n n)
  /-- Some slots have no owner: a repair is asked for, and does nothing. -/
  | repair (hsome : p.total ≠ 0) (hpart : p.total ≠ slotSpace)
      (hsets : p'.sets = p.sets ∪ range n) (hslots : p'.slots = p.slots)
  /-- Shards are added, numbered from the number of owners; with more shards than
  slots there is nothing to give them. -/
  | out (htotal : p.total = slotSpace) (hfew : p.owners.card < n)
      (hsets : p'.sets = p.sets ∪ range n) (htotal' : p'.total = slotSpace)
      (howners : ∀ i, 0 < p'.slots i ↔
        0 < p.slots i ∨ (n ≤ slotSpace ∧ p.owners.card ≤ i ∧ i < n))
      (hshrunk : ∀ i, n ≤ i → p'.slots i ≤ p.slots i)
  /-- The first departing shard with slots loses a batch to shard 0, and the empty
  ones before it go. -/
  | drain (i : ℕ) (htotal : p.total = slotSpace) (hmany : n ≤ p.owners.card) (hi : n ≤ i)
      (hslot : 0 < p.slots i) (hfirst : ∀ k, n ≤ k → k < i → p.slots k = 0)
      (hsets : p'.sets = (p.sets ∪ range n).filter fun k => k < n ∨ i ≤ k)
      (hslots : p'.slots = moved p.slots i 0 (min batch (p.slots i)))
  /-- No departing shard has slots: their StatefulSets go. -/
  | clear (htotal : p.total = slotSpace) (hmany : n ≤ p.owners.card)
      (hnone : ∀ k, n ≤ k → p.slots k = 0) (hsets : p'.sets = range n)
      (hslots : p'.slots = p.slots)

/-- With StatefulSets for the first `n` shards. -/
def provision (n : ℕ) (p : Placement) : Placement where
  sets := p.sets ∪ range n
  slots := p.slots
  housed i hi := mem_union_left _ (p.housed i hi)

theorem total_provision (n : ℕ) (p : Placement) : (p.provision n).total = p.total :=
  total_congr rfl

theorem owners_provision (n : ℕ) (p : Placement) : (p.provision n).owners = p.owners :=
  owners_congr fun _ => Iff.rfl

theorem sets_provision (n : ℕ) (p : Placement) :
    (p.provision n).sets ∪ range n = p.sets ∪ range n := by
  rw [provision, union_assoc, union_self]

/-- A pass makes sure of the StatefulSets before it does anything else. -/
theorem Pass.of_provision {n : ℕ} {p p' : Placement} (h : Pass n (p.provision n) p') :
    Pass n p p' := by
  cases h with
  | form htotal hsets hslots =>
      exact .form (total_provision n p ▸ htotal) (hsets.trans (sets_provision n p)) hslots
  | repair hsome hpart hsets hslots =>
      rw [total_provision] at hsome hpart
      exact .repair hsome hpart (hsets.trans (sets_provision n p)) hslots
  | out htotal hfew hsets htotal' howners hshrunk =>
      rw [total_provision] at htotal
      rw [owners_provision] at hfew howners
      exact .out htotal hfew (hsets.trans (sets_provision n p)) htotal' howners hshrunk
  | drain i htotal hmany hi hslot hfirst hsets hslots =>
      rw [total_provision] at htotal
      rw [owners_provision] at hmany
      rw [sets_provision] at hsets
      exact .drain i htotal hmany hi hslot hfirst hsets hslots
  | clear htotal hmany hnone hsets hslots =>
      rw [total_provision] at htotal
      rw [owners_provision] at hmany
      exact .clear htotal hmany hnone hsets hslots

/-- As long as some slots have an owner and others do not, only desired shards have
StatefulSets. -/
def Tidy (n : ℕ) (p : Placement) : Prop :=
  p.total = 0 ∨ p.total = slotSpace ∨ p.sets ⊆ range n

/-- All slots have an owner, and shard 0 is one of them. -/
structure Serving (p : Placement) : Prop where
  total : p.total = slotSpace
  seed : 0 < p.slots 0

section

variable {n : ℕ} {p p' : Placement}

theorem Pass.serving (hn : 0 < n) (hp : p.Serving) (h : Pass n p p') : p'.Serving := by
  cases h with
  | form htotal => exact absurd (htotal.symm.trans hp.total) (by decide)
  | repair _ hpart => exact absurd hp.total hpart
  | out _ _ _ htotal' howners => exact ⟨htotal', (howners 0).2 (Or.inl hp.seed)⟩
  | drain i _ _ hi _ _ _ hslots =>
      have hi0 : i ≠ 0 := by omega
      refine ⟨(total_moved hi0 (Nat.min_le_right ..) hslots).trans hp.total, ?_⟩
      rw [hslots, moved_target]
      exact Nat.add_pos_left hp.seed _
  | clear _ _ _ _ hslots => exact ⟨(total_congr hslots).trans hp.total, hslots ▸ hp.seed⟩

theorem Tidy.provision (hp : p.Tidy n) : (p.provision n).Tidy n := by
  rw [Tidy, total_provision]
  exact hp.imp_right (.imp_right fun hsub => union_subset hsub subset_rfl)

theorem Pass.tidy (hn : 0 < n) (hp : p.Tidy n) (h : Pass n p p') : p'.Tidy n := by
  cases h with
  | form _ _ hslots => exact Or.inr (Or.inl (total_dealt_all hn hslots))
  | repair hsome hpart hsets hslots =>
      have hsub := (hp.resolve_left hsome).resolve_left hpart
      exact Or.inr (Or.inr (hsets ▸ union_subset hsub subset_rfl))
  | out _ _ _ htotal' => exact Or.inr (Or.inl htotal')
  | drain i htotal _ hi _ _ _ hslots =>
      have hi0 : i ≠ 0 := by omega
      exact Or.inr (Or.inl ((total_moved hi0 (Nat.min_le_right ..) hslots).trans htotal))
  | clear htotal _ _ _ hslots => exact Or.inr (Or.inl ((total_congr hslots).trans htotal))

theorem Pass.slots_of_form (hp : p.total = 0) (h : Pass n p p') : p'.slots = dealt n n := by
  cases h with
  | form _ _ hslots => exact hslots
  | repair hsome => exact absurd hp hsome
  | out htotal => exact absurd (hp.symm.trans htotal) (by decide)
  | drain _ htotal => exact absurd (hp.symm.trans htotal) (by decide)
  | clear htotal => exact absurd (hp.symm.trans htotal) (by decide)

/-- A cluster that is formed is formed with all slots. -/
theorem Pass.serving_of_form (hn : 0 < n) (hle : n ≤ slotSpace) (hp : p.total = 0)
    (h : Pass n p p') : p'.Serving ∧ p'.owners = range n := by
  have hslots := h.slots_of_form hp
  have howners := owners_dealt hn hle hslots
  exact ⟨⟨total_dealt_all hn hslots, mem_owners.1 (howners ▸ mem_range.2 hn)⟩, howners⟩

/-- Slots without an owner stay without one. -/
theorem Pass.total_of_part (hsome : p.total ≠ 0) (hpart : p.total ≠ slotSpace)
    (h : Pass n p p') : p'.total = p.total := by
  cases h with
  | form htotal => exact absurd htotal hsome
  | repair _ _ _ hslots => exact total_congr hslots
  | out htotal => exact absurd htotal hpart
  | drain _ htotal => exact absurd htotal hpart
  | clear htotal => exact absurd htotal hpart

/-- The first shard to go is drained batch by batch. -/
theorem Pass.slots_of_drain (hp : p.Serving) (hmany : n ≤ p.owners.card)
    (hfull : batch ≤ p.slots n) (h : Pass n p p') : p'.slots = moved p.slots n 0 batch := by
  have hpos : 0 < p.slots n := lt_of_lt_of_le (by decide) hfull
  cases h with
  | form htotal => exact absurd (htotal.symm.trans hp.total) (by decide)
  | repair _ hpart => exact absurd hp.total hpart
  | out _ hfew => omega
  | drain i _ _ hi _ hfirst _ hslots =>
      obtain rfl : i = n := by
        by_contra hne
        have := hfirst n le_rfl (by omega)
        omega
      rw [hslots, min_eq_left hfull]
  | clear _ _ hnone =>
      have := hnone n le_rfl
      omega

/-- While there is a shard to drain, the shards that stay keep their slots. -/
theorem moved_pos_iff {i k b : ℕ} {slots : ℕ → ℕ} (hseed : 0 < slots 0) (hk : k ≠ i) :
    0 < moved slots i 0 b k ↔ 0 < slots k := by
  by_cases h0 : k = 0
  · subst h0
    rw [moved_target]
    exact iff_of_true (Nat.add_pos_left hseed _) hseed
  · rw [moved_other hk h0]

end

/-! ## Filling new shards -/

/-- From `p`, the shards from `old` up to `k` have been given slots of others, if there
are enough for `n` shards. -/
structure Filled (n old k : ℕ) (p q : Placement) : Prop where
  sets : q.sets = p.sets
  total : q.total = p.total
  owners : ∀ i, 0 < q.slots i ↔ 0 < p.slots i ∨ (n ≤ slotSpace ∧ old ≤ i ∧ i < k)
  shrunk : ∀ i, n ≤ i → q.slots i ≤ p.slots i

section

variable {n old k a : ℕ} {p q q' : Placement}

theorem Filled.refl (n old : ℕ) (p : Placement) : Filled n old old p p :=
  ⟨rfl, rfl, fun i => by omega, fun _ _ => le_rfl⟩

theorem Filled.card_others_lt (h : Filled n p.owners.card k p q) (hold : p.owners.card ≤ k)
    (hk : k < n) : (q.owners.erase k).card < n := by
  have hsub : q.owners ⊆ p.owners ∪ Ico p.owners.card k := by
    intro i hi
    rcases (h.owners i).1 (mem_owners.1 hi) with hp | hrange
    · exact mem_union_left _ (mem_owners.2 hp)
    · exact mem_union_right _ (mem_Ico.2 hrange.2)
  calc (q.owners.erase k).card ≤ q.owners.card := card_le_card (erase_subset ..)
    _ ≤ (p.owners ∪ Ico p.owners.card k).card := card_le_card hsub
    _ ≤ p.owners.card + (k - p.owners.card) := by
        rw [← Nat.card_Ico]
        exact card_union_le ..
    _ < n := by omega

theorem exists_other (hlt : q.slots k < q.total) : ∃ i, i ≠ k ∧ 0 < q.slots i := by
  by_contra hnone
  push Not at hnone
  have htotal : q.total = ∑ i ∈ {k}, q.slots i := total_eq_sum fun i hi => by
    by_contra hik
    exact absurd (hnone i (by simpa using hik)) (by omega)
  rw [sum_singleton] at htotal
  omega

/-- With fewer than `n` others, the fattest of them has more than a share while shard `k`
has less. -/
theorem share_lt_fattest (htotal : q.total = slotSpace) (hcard : (q.owners.erase k).card < n)
    (hmax : ∀ i, i ≠ k → q.slots i ≤ q.slots a) (hneed : q.slots k < slotSpace / n) :
    slotSpace / n < q.slots a := by
  have hothers : q.total ≤ q.slots k + (q.owners.erase k).card * q.slots a := by
    have hsum : ∑ i ∈ q.owners.erase k, q.slots i ≤ (q.owners.erase k).card * q.slots a :=
      sum_le_card_nsmul _ _ _ fun i hi => hmax i (ne_of_mem_erase hi)
    have htotal : q.total = ∑ i ∈ insert k (q.owners.erase k), q.slots i :=
      total_eq_sum fun i hi => by
        by_cases hik : i = k
        · simp [hik]
        · simp [hik, mem_owners.2 hi]
    rw [htotal, sum_insert (notMem_erase k _)]
    omega
  by_contra hle
  obtain ⟨m, rfl⟩ : ∃ m, n = m + 1 := ⟨n - 1, by omega⟩
  have hdiv : (m + 1) * (slotSpace / (m + 1)) ≤ slotSpace := Nat.mul_div_le ..
  have hprod : (q.owners.erase k).card * q.slots a ≤ m * (slotSpace / (m + 1)) :=
    Nat.mul_le_mul (by omega) (by omega)
  rw [Nat.succ_mul] at hdiv
  omega

theorem Filled.step_move (h : Filled n p.owners.card k p q) (hold : p.owners.card ≤ k)
    (hk : k < n) (htotal : p.total = slotSpace) (ha : a ≠ k)
    (hmax : ∀ i, i ≠ k → q.slots i ≤ q.slots a) (hneed : q.slots k < slotSpace / n)
    (hsets : q'.sets = q.sets)
    (hslots : q'.slots = moved q.slots a k (slotSpace / n - q.slots k)) :
    Filled n p.owners.card (k + 1) p q' := by
  have hlt := share_lt_fattest (h.total.trans htotal) (h.card_others_lt hold hk) hmax hneed
  have hn : n ≤ slotSpace := by
    by_contra hgt
    rw [Nat.div_eq_of_lt (by omega)] at hneed
    omega
  refine ⟨hsets.trans h.sets, (total_moved ha (by omega) hslots).trans h.total, fun i => ?_,
    fun i hi => ?_⟩
  · have := h.owners i
    rw [hslots]
    by_cases hik : i = k
    · rw [hik, moved_target]
      omega
    · by_cases hia : i = a
      · rw [hia, moved_source ha]
        have := h.owners a
        omega
      · rw [moved_other hia hik]
        omega
  · have := h.shrunk i hi
    rw [hslots]
    by_cases hia : i = a
    · rw [hia, moved_source ha]
      rw [hia] at this
      omega
    · rw [moved_other hia (by omega)]
      exact this

/-- A shard that has its share already is left alone. -/
theorem Filled.step_full (h : Filled n old k p q) (hold : old ≤ k) (hn : 0 < n)
    (hfull : slotSpace / n ≤ q.slots k) : Filled n old (k + 1) p q := by
  have hpos : n ≤ slotSpace → 0 < q.slots k := fun hle =>
    lt_of_lt_of_le (Nat.div_pos hle hn) hfull
  refine ⟨h.sets, h.total, fun i => ?_, h.shrunk⟩
  have := h.owners i
  by_cases hik : i = k
  · subst hik
    omega
  · omega

end

/-- A pass from `p` towards `n` shards, when it has come to `q`, wants `k` slots of shard
`a` for shard `b`: what a new shard lacks of its share, from the fattest of the others. -/
structure Fills (n : ℕ) (p q : Placement) (a b k : ℕ) : Prop where
  filled : Filled n p.owners.card b p q
  total : p.total = slotSpace
  old : p.owners.card ≤ b
  lt : b < n
  ne : a ≠ b
  max : ∀ i, i ≠ b → q.slots i ≤ q.slots a
  need : q.slots b < slotSpace / n
  amount : k = slotSpace / n - q.slots b

/-! ## Removing shards -/

/-- The shards of the list have been gone through in turn: departing ones without slots
lost their StatefulSet, and the first one with slots was drained and ended it. -/
inductive Removed (n : ℕ) (idxs : List ℕ) (p q : Placement) : Prop
  | drained (i : ℕ) (hmem : i ∈ idxs) (hi : n ≤ i) (hslot : 0 < p.slots i)
      (hfirst : ∀ k ∈ idxs, n ≤ k → k < i → p.slots k = 0)
      (hsets : q.sets = p.sets.filter fun k => ¬ (k ∈ idxs ∧ n ≤ k ∧ k < i))
      (hslots : q.slots = moved p.slots i 0 (min batch (p.slots i)))
  | cleared (hnone : ∀ k ∈ idxs, n ≤ k → p.slots k = 0)
      (hsets : q.sets = p.sets.filter fun k => ¬ (k ∈ idxs ∧ n ≤ k))
      (hslots : q.slots = p.slots)

/-- Without the StatefulSet of an empty shard. -/
def remove (p : Placement) (i : ℕ) (hi : p.slots i = 0) : Placement where
  sets := p.sets.erase i
  slots := p.slots
  housed k hk := mem_erase.2 ⟨fun hki => by rw [hki] at hk; omega, p.housed k hk⟩

section

variable {n i : ℕ} {idxs : List ℕ} {p q : Placement}

theorem Removed.skip (hi : i < n) (h : Removed n idxs p q) : Removed n (i :: idxs) p q := by
  have hmem : ∀ k, n ≤ k → (k ∈ i :: idxs ↔ k ∈ idxs) := fun k hk => by
    rw [List.mem_cons, or_iff_right (by omega)]
  cases h with
  | drained k hk hge hslot hfirst hsets hslots =>
      refine .drained k (List.mem_cons_of_mem _ hk) hge hslot
        (fun k' hk' hge' => hfirst k' ((hmem k' hge').1 hk') hge') ?_ hslots
      rw [hsets]
      exact filter_congr fun k' _ => not_congr (and_congr_left fun hge' =>
        (hmem k' hge'.1).symm)
  | cleared hnone hsets hslots =>
      refine .cleared (fun k' hk' hge' => hnone k' ((hmem k' hge').1 hk') hge') ?_ hslots
      rw [hsets]
      exact filter_congr fun k' _ => not_congr (and_congr_left fun hge' => (hmem k' hge').symm)

theorem Removed.delete (hi : p.slots i = 0) (hge : n ≤ i) (hlt : ∀ k ∈ idxs, i < k)
    (h : Removed n idxs (p.remove i hi) q) : Removed n (i :: idxs) p q := by
  cases h with
  | drained k hk hgek hslot hfirst hsets hslots =>
      refine .drained k (List.mem_cons_of_mem _ hk) hgek hslot (fun k' hk' hge' hlt' => ?_) ?_
        hslots
      · rcases List.mem_cons.1 hk' with rfl | hk'
        · exact hi
        · exact hfirst k' hk' hge' hlt'
      · rw [hsets]
        ext k'
        have := hlt k hk
        simp only [remove, mem_filter, mem_erase, List.mem_cons]
        grind
  | cleared hnone hsets hslots =>
      refine .cleared (fun k' hk' hge' => ?_) ?_ hslots
      · rcases List.mem_cons.1 hk' with rfl | hk'
        · exact hi
        · exact hnone k' hk' hge'
      · rw [hsets]
        ext k'
        simp only [remove, mem_filter, mem_erase, List.mem_cons]
        grind

/-- Going through all shards is a pass. -/
theorem Removed.pass (h : Removed n idxs p q) (hidxs : ∀ k, k ∈ idxs ↔ k ∈ p.sets)
    (hsub : ∀ k < n, k ∈ p.sets) (htotal : p.total = slotSpace) (hmany : n ≤ p.owners.card) :
    Pass n p q := by
  have hzero : ∀ k, k ∉ p.sets → p.slots k = 0 := fun k hk =>
    Nat.eq_zero_of_not_pos fun hpos => hk (p.housed k hpos)
  have hunion : p.sets ∪ range n = p.sets :=
    union_eq_left.2 fun k hk => hsub k (mem_range.1 hk)
  cases h with
  | drained i hmem hi hslot hfirst hsets hslots =>
      refine .drain i htotal hmany hi hslot (fun k hge hlt => ?_) ?_ hslots
      · by_cases hk : k ∈ p.sets
        · exact hfirst k ((hidxs k).2 hk) hge hlt
        · exact hzero k hk
      · rw [hsets, hunion]
        refine filter_congr fun k hk => ?_
        rw [hidxs]
        simp only [hk, true_and]
        omega
  | cleared hnone hsets hslots =>
      refine .clear htotal hmany (fun k hge => ?_) ?_ hslots
      · by_cases hk : k ∈ p.sets
        · exact hnone k ((hidxs k).2 hk) hge
        · exact hzero k hk
      · rw [hsets]
        ext k
        simp only [mem_filter, hidxs, mem_range]
        exact ⟨fun ⟨hk, hnot⟩ => by_contra fun hge => hnot ⟨hk, by omega⟩,
          fun hk => ⟨hsub k hk, fun hnot => by omega⟩⟩

end

/-! ## Getting there -/

/-- Every shard below the number of owners owns slots, the last desired one apart. -/
def OnTrack (n : ℕ) (p : Placement) : Prop :=
  ∀ i < min p.owners.card (n - 1), 0 < p.slots i

/-- Exactly the desired shards own slots, and no other has a StatefulSet. -/
structure Settled (n : ℕ) (p : Placement) : Prop where
  owners : p.owners = range n
  sets : p.sets ⊆ range n

/-- What is left to do: slots to drain, shards to fill, StatefulSets to delete. -/
def left (n : ℕ) (p : Placement) : ℕ :=
  ∑ i ∈ p.sets with n ≤ i, p.slots i + ((range n).filter fun i => p.slots i = 0).card +
    (p.sets.filter fun i => n ≤ i).card

section

variable {n : ℕ} {p p' : Placement}

theorem Settled.provision (h : Settled n p) : Settled n (p.provision n) :=
  ⟨(owners_provision n p).trans h.owners, union_subset h.sets subset_rfl⟩

theorem OnTrack.owners_eq (h : OnTrack n p) (hlt : p.owners.card < n) :
    p.owners = range p.owners.card := by
  refine (eq_of_subset_of_card_le (fun i hi => mem_owners.2 (h i ?_)) ?_).symm
  · have := mem_range.1 hi
    omega
  · rw [card_range]

theorem onTrack_of_owners (h : range n ⊆ p.owners) : OnTrack n p := fun i hi =>
  mem_owners.1 (h (mem_range.2 (by omega)))

/-- A drained shard below an owner is a gap, unless it is the last. -/
theorem not_onTrack_of_gap {a : ℕ} (hgap : p.slots a = 0) (ha : a + 1 < n)
    (hcard : a < p.owners.card) : ¬ OnTrack n p := fun h => by
  have := h a (by omega)
  omega

/-- No pass gets a placement on the track, and none leaves it. -/
theorem Pass.onTrack_iff (hn : 0 < n) (hle : n ≤ slotSpace) (hp : p.Serving)
    (h : Pass n p p') : OnTrack n p' ↔ OnTrack n p := by
  cases h with
  | form htotal => exact absurd (htotal.symm.trans hp.total) (by decide)
  | repair _ hpart => exact absurd hp.total hpart
  | out _ hfew _ _ howners =>
      have hcard : p.owners.card ≤ p'.owners.card :=
        card_le_card fun i hi => mem_owners.2 ((howners i).2 (Or.inl (mem_owners.1 hi)))
      constructor
      · intro h i hi
        rcases (howners i).1 (h i (by omega)) with hpos | ⟨-, hge, -⟩
        · exact hpos
        · omega
      · intro h i hi
        refine (howners i).2 ?_
        by_cases hlt : i < p.owners.card
        · exact Or.inl (h i (by omega))
        · exact Or.inr ⟨hle, by omega, by omega⟩
  | drain i _ hmany hi hslot _ _ hslots =>
      have hi0 : i ≠ 0 := by omega
      have hpos : ∀ k, k ≠ i → (0 < p'.slots k ↔ 0 < p.slots k) := fun k hk => by
        rw [hslots]
        exact moved_pos_iff hp.seed hk
      have hcard : p.owners.card - 1 ≤ p'.owners.card := by
        rw [← card_erase_of_mem (mem_owners.2 hslot)]
        refine card_le_card fun k hk => ?_
        obtain ⟨hne, hk⟩ := mem_erase.1 hk
        exact mem_owners.2 ((hpos k hne).2 (mem_owners.1 hk))
      have hmin : min p'.owners.card (n - 1) = n - 1 := by omega
      have hmin' : min p.owners.card (n - 1) = n - 1 := by omega
      rw [OnTrack, OnTrack, hmin, hmin']
      exact forall₂_congr fun k hk => hpos k (by omega)
  | clear _ _ _ _ hslots =>
      have howners : p'.owners = p.owners := owners_congr fun i => by rw [hslots]
      rw [OnTrack, OnTrack, howners, hslots]

/-- On the track, a pass that finds something to do leaves less to do. -/
theorem Pass.left_lt (hle : n ≤ slotSpace) (hp : p.Serving) (hn : 0 < n)
    (htrack : OnTrack n p) (hsettled : ¬ Settled n p) (h : Pass n p p') :
    left n p' < left n p := by
  cases h with
  | form htotal => exact absurd (htotal.symm.trans hp.total) (by decide)
  | repair _ hpart => exact absurd hp.total hpart
  | out _ hfew hsets _ howners hshrunk =>
      have hdeparting : p'.sets.filter (n ≤ ·) = p.sets.filter (n ≤ ·) := by
        ext i
        simp only [hsets, mem_filter, mem_union, mem_range]
        grind
      -- the owners are the first shards, so the first new one owns nothing yet
      have hfirst : p.slots p.owners.card = 0 := by
        refine Nat.eq_zero_of_not_pos fun hpos => ?_
        have := mem_owners.2 hpos
        rw [htrack.owners_eq hfew] at this
        simp at this
      have hmissing : ((range n).filter fun i => p'.slots i = 0).card <
          ((range n).filter fun i => p.slots i = 0).card := by
        refine card_lt_card ((ssubset_iff_of_subset fun i hi => ?_).2 ?_)
        · simp only [mem_filter, mem_range] at hi ⊢
          have := howners i
          omega
        · refine ⟨p.owners.card, by simp [hfew, hfirst], fun hmem => ?_⟩
          have hpos := (howners p.owners.card).2 (Or.inr ⟨hle, le_rfl, hfew⟩)
          simp only [mem_filter] at hmem
          omega
      have hslots : ∑ i ∈ p'.sets with n ≤ i, p'.slots i ≤ ∑ i ∈ p.sets with n ≤ i, p.slots i := by
        rw [hdeparting]
        exact sum_le_sum fun i hi => hshrunk i (mem_filter.1 hi).2
      rw [left, left, hdeparting] at *
      omega
  | drain i _ hmany hi hslot _ hsets hslots =>
      have hi0 : i ≠ 0 := by omega
      have hmem : i ∈ p.sets := p.housed i hslot
      have hsub : p'.sets.filter (n ≤ ·) ⊆ p.sets.filter (n ≤ ·) := by
        intro k
        simp only [hsets, mem_filter, mem_union, mem_range]
        grind
      have hmissing : ((range n).filter fun k => p'.slots k = 0) =
          (range n).filter fun k => p.slots k = 0 := by
        refine filter_congr fun k hk => ?_
        have := moved_pos_iff (b := min batch (p.slots i)) hp.seed
          (Nat.ne_of_lt (lt_of_lt_of_le (mem_range.1 hk) hi))
        rw [hslots]
        omega
      have hdrained : ∑ k ∈ p'.sets with n ≤ k, p'.slots k <
          ∑ k ∈ p.sets with n ≤ k, p.slots k := by
        refine lt_of_le_of_lt (sum_le_sum_of_subset hsub) (sum_lt_sum (fun k hk => ?_)
          ⟨i, mem_filter.2 ⟨hmem, hi⟩, ?_⟩)
        · have hk0 : k ≠ 0 := by
            have := (mem_filter.1 hk).2
            omega
          rw [hslots]
          by_cases hki : k = i
          · rw [hki, moved_source hi0]
            exact Nat.sub_le ..
          · rw [moved_other hki hk0]
        · rw [hslots, moved_source hi0]
          have : 0 < batch := by decide
          omega
      have hcard := card_le_card hsub
      rw [left, left, hmissing]
      omega
  | clear _ hmany hnone hsets hslots =>
      have howners : p.owners = range n := by
        refine eq_of_subset_of_card_le (fun i hi => mem_range.2 ?_) (by rwa [card_range])
        by_contra hge
        have := hnone i (by omega)
        have := mem_owners.1 hi
        omega
      have hexcess : 0 < (p.sets.filter fun i => n ≤ i).card := by
        obtain ⟨i, hi, hge⟩ := not_subset.1 fun h => hsettled ⟨howners, h⟩
        exact card_pos.2 ⟨i, mem_filter.2 ⟨hi, by simpa using hge⟩⟩
      have hgone : p'.sets.filter (n ≤ ·) = ∅ := by
        ext i
        simp [hsets]
      rw [left, left, hgone, hslots]
      simp only [sum_empty, card_empty]
      omega

/-- A settled placement stays, down to its StatefulSets. -/
theorem Pass.settled (hp : p.Serving) (hsettled : Settled n p) (h : Pass n p p') :
    Settled n p' ∧ p'.slots = p.slots := by
  have hcard : p.owners.card = n := by rw [hsettled.owners, card_range]
  cases h with
  | form htotal => exact absurd (htotal.symm.trans hp.total) (by decide)
  | repair _ hpart => exact absurd hp.total hpart
  | out _ hfew => omega
  | drain i _ _ hi hslot =>
      have := mem_range.1 (hsettled.sets (p.housed i hslot))
      omega
  | clear _ _ _ hsets hslots =>
      have howners : p'.owners = p.owners := owners_congr fun i => by rw [hslots]
      exact ⟨⟨howners.trans hsettled.owners, hsets.subset⟩, hslots⟩

variable {σ : Type} {f : σ → σ} {R : σ → Placement → Prop} {s : σ}

/-- From a placement on the track, passes that are made over and over settle. -/
theorem exists_settled (hn : 0 < n) (hle : n ≤ slotSpace) (hsim : Simulated f R (Pass n))
    (hs : R s p) (hp : p.Serving) (htrack : OnTrack n p) :
    ∃ k p', R (f^[k] s) p' ∧ p'.Serving ∧ Settled n p' := by
  obtain ⟨k, p', hs', ⟨hp', -⟩, hsettled⟩ := hsim.reaches
    (I := fun p => p.Serving ∧ OnTrack n p)
    (fun a b ha hpass => ⟨hpass.serving hn ha.1, (hpass.onTrack_iff hn hle ha.1).2 ha.2⟩)
    (fun a b ha hgoal hpass => hpass.left_lt hle ha.1 hn ha.2 hgoal) hs ⟨hp, htrack⟩
  exact ⟨k, p', hs', hp', hsettled⟩

theorem onTrack_iterate (hn : 0 < n) (hle : n ≤ slotSpace) (hsim : Simulated f R (Pass n))
    (hs : R s p) (hp : p.Serving) (k : ℕ) :
    ∃ p', R (f^[k] s) p' ∧ (OnTrack n p' ↔ OnTrack n p) := by
  obtain ⟨p', hs', -, hiff⟩ := hsim.iterate
    (I := fun q => q.Serving ∧ (OnTrack n q ↔ OnTrack n p))
    (fun a b ha hpass => ⟨hpass.serving hn ha.1,
      (hpass.onTrack_iff hn hle ha.1).trans ha.2⟩) hs ⟨hp, Iff.rfl⟩ k
  exact ⟨p', hs', hiff⟩

end

end Placement

end Valkeyop.Controller
