import Mathlib.Algebra.BigOperators.Group.Finset.Piecewise
import Mathlib.Algebra.Order.BigOperators.Group.Finset
import Mathlib.Data.Multiset.Fold
import Mathlib.Order.Lattice.Nat

/-!
# Taking from the largest

Of some numbers one of the largest gives `k` away, again and again. Which one of several
largest it is may be anybody's choice: the numbers come out the same up to their order.

They all come out as `k` or `k + 1` exactly if they could be cut up that way to begin
with, each of them into parts of `k` of which one may be larger by one. A round then
takes a part off a largest number. It can only fail to find a spare part there if `k`
is one, and then another number of the same size has one to swap.
-/

namespace Valkeyop.Lib

open Finset

variable {ι : Type} {s : Finset ι} {k n : ℕ} {f g : ι → ℕ} {a : ι}

/-- Number `a`, a largest one and more than `k`, gives `k` away. -/
structure Takes (s : Finset ι) (k : ℕ) (f g : ι → ℕ) (a : ι) : Prop where
  mem : a ∈ s
  lt : k < f a
  max : ∀ i ∈ s, f i ≤ f a
  source : g a = f a - k
  other : ∀ i ∈ s, i ≠ a → g i = f i

/-- What `n` rounds may have made of `f`. -/
inductive Taken (s : Finset ι) (k : ℕ) (f : ι → ℕ) : ℕ → (ι → ℕ) → Prop
  | none : Taken s k f 0 f
  | more {n : ℕ} {g g' : ι → ℕ} (a : ι) (hrun : Taken s k f n g) (hround : Takes s k g g' a) :
      Taken s k f (n + 1) g'

theorem Takes.pos (h : Takes s k f g a) (hf : ∀ i ∈ s, 0 < f i) : ∀ i ∈ s, 0 < g i := by
  intro i hi
  by_cases hia : i = a
  · have := h.lt
    rw [hia, h.source]
    omega
  · rw [h.other i hi hia]
    exact hf i hi

theorem Taken.pos (h : Taken s k f n g) (hf : ∀ i ∈ s, 0 < f i) : ∀ i ∈ s, 0 < g i := by
  induction h with
  | none => exact hf
  | more a _ hround ih => exact hround.pos ih

/-! ## Whose choice it is -/

/-- A largest number of a multiset gives `k` away. -/
def takeLargest (k : ℕ) (m : Multiset ℕ) : Multiset ℕ := (m.sup - k) ::ₘ m.erase m.sup

theorem Takes.map_val [DecidableEq ι] (h : Takes s k f g a) :
    s.val.map g = takeLargest k (s.val.map f) := by
  have hsup : (s.val.map f).sup = f a := by
    refine le_antisymm (Multiset.sup_le.2 fun x hx => ?_)
      (Multiset.le_sup (Multiset.mem_map_of_mem f h.mem))
    obtain ⟨i, hi, rfl⟩ := Multiset.mem_map.1 hx
    exact h.max i hi
  have hsplit : s.val = a ::ₘ (s.erase a).val := by
    rw [erase_val, Multiset.cons_erase h.mem]
  have hrest : (s.erase a).val.map g = (s.erase a).val.map f :=
    Multiset.map_congr rfl fun i hi => by
      obtain ⟨hne, hmem⟩ := mem_erase.1 hi
      exact h.other i hmem hne
  unfold takeLargest
  rw [hsup, hsplit, Multiset.map_cons, Multiset.map_cons, Multiset.erase_cons_head,
    hrest, h.source]

theorem Taken.map_val [DecidableEq ι] (h : Taken s k f n g) :
    s.val.map g = (takeLargest k)^[n] (s.val.map f) := by
  induction h with
  | none => rfl
  | more a _ hround ih => rw [hround.map_val, ih, Function.iterate_succ_apply']

/-! ## Ending level -/

/-- The numbers can be cut into `n` parts of `k`, of which one of each number may be larger
by one. -/
def Cuts (s : Finset ι) (k n : ℕ) (f : ι → ℕ) : Prop :=
  ∃ parts : ι → ℕ, (∀ i ∈ s, 1 ≤ parts i ∧ (f i = parts i * k ∨ f i = parts i * k + 1)) ∧
    ∑ i ∈ s, parts i = n

theorem cuts_congr (hfg : ∀ i ∈ s, f i = g i) : Cuts s k n f ↔ Cuts s k n g := by
  refine exists_congr fun parts => and_congr_left fun _ => forall₂_congr fun i hi => ?_
  rw [hfg i hi]

theorem sum_update_add [DecidableEq ι] {t : ι → ℕ} (ha : a ∈ s) (x : ℕ) :
    ∑ i ∈ s, Function.update t a x i + t a = ∑ i ∈ s, t i + x := by
  rw [sum_update_of_mem ha, sum_eq_sum_sdiff_singleton_add ha t]
  omega

theorem Takes.cuts [DecidableEq ι] (hk : 0 < k) (h : Takes s k f g a) (hn : s.card ≤ n)
    (hcuts : Cuts s k (n + 1) f) : Cuts s k n g := by
  obtain ⟨parts, hparts, hsum⟩ := hcuts
  obtain ⟨hone, hcut⟩ := hparts a h.mem
  by_cases hspare : 2 ≤ parts a
  · have hupdate := sum_update_add (t := parts) h.mem (parts a - 1)
    refine ⟨Function.update parts a (parts a - 1), fun i hi => ?_, by omega⟩
    by_cases hia : i = a
    · obtain ⟨x, hx⟩ : ∃ x, parts a = x + 1 := ⟨parts a - 1, by omega⟩
      rw [hia, Function.update_self, h.source, hx, Nat.add_sub_cancel]
      rw [hx, Nat.succ_mul] at hcut
      omega
    · rw [Function.update_of_ne hia, h.other i hi hia]
      exact hparts i hi
  · -- then the number is `k + 1`, and so is another one that has a part to spare
    have hlt := h.lt
    rw [show parts a = 1 by omega, one_mul] at hcut
    obtain ⟨b, hb, htwo⟩ : ∃ b ∈ s, 2 ≤ parts b := by
      by_contra hnone
      push Not at hnone
      have hle : ∑ i ∈ s, parts i ≤ ∑ i ∈ s, 1 :=
        sum_le_sum fun i hi => Nat.le_of_lt_succ (hnone i hi)
      rw [← card_eq_sum_ones] at hle
      omega
    have hmax := h.max b hb
    have hdouble : 2 * k ≤ parts b * k := Nat.mul_le_mul_right k htwo
    obtain ⟨-, hcutb⟩ := hparts b hb
    obtain rfl : k = 1 := by omega
    have hba : b ≠ a := by
      rintro rfl
      omega
    have hupdate := sum_update_add (t := parts) hb 1
    refine ⟨Function.update parts b 1, fun i hi => ?_, by omega⟩
    by_cases hib : i = b
    · rw [hib, Function.update_self, h.other b hb hba]
      omega
    · rw [Function.update_of_ne hib]
      by_cases hia : i = a
      · rw [hia, h.source]
        omega
      · rw [h.other i hi hia]
        exact hparts i hi

theorem Taken.cuts [DecidableEq ι] (hk : 0 < k) (h : Taken s k f n g) :
    ∀ m, Cuts s k (s.card + n + m) f → Cuts s k (s.card + m) g := by
  induction h with
  | none => exact fun m hcuts => hcuts
  | @more n g g' a _ hround ih =>
      intro m hcuts
      refine hround.cuts hk (Nat.le_add_right ..) (ih (m + 1) ?_)
      rwa [show s.card + n + (m + 1) = s.card + (n + 1) + m by omega]

/-- How often each number was taken from. -/
theorem Taken.exists_times [DecidableEq ι] (h : Taken s k f n g) :
    ∃ times : ι → ℕ, (∀ i ∈ s, f i = g i + times i * k) ∧ ∑ i ∈ s, times i = n := by
  induction h with
  | none => exact ⟨fun _ => 0, fun i _ => by simp, sum_const_zero⟩
  | @more n g g' a _ hround ih =>
      obtain ⟨times, htimes, hsum⟩ := ih
      have hupdate := sum_update_add (t := times) hround.mem (times a + 1)
      refine ⟨Function.update times a (times a + 1), fun i hi => ?_, by omega⟩
      by_cases hia : i = a
      · have hlt := hround.lt
        rw [hia, Function.update_self, htimes a hround.mem, hround.source, Nat.succ_mul]
        omega
      · rw [Function.update_of_ne hia, htimes i hi, hround.other i hi hia]

theorem Taken.level_iff [DecidableEq ι] (hk : 0 < k) (h : Taken s k f n g) :
    (∀ i ∈ s, g i = k ∨ g i = k + 1) ↔ Cuts s k (s.card + n) f := by
  constructor
  · intro hlevel
    obtain ⟨times, htimes, hsum⟩ := h.exists_times
    refine ⟨fun i => times i + 1, fun i hi => ⟨Nat.le_add_left .., ?_⟩, ?_⟩
    · rw [htimes i hi, Nat.succ_mul]
      have := hlevel i hi
      omega
    · rw [sum_add_distrib, hsum, ← card_eq_sum_ones, Nat.add_comm]
  · intro hcuts
    obtain ⟨parts, hparts, hsum⟩ := h.cuts hk 0 hcuts
    rw [Nat.add_zero, card_eq_sum_ones] at hsum
    have hones := (sum_eq_sum_iff_of_le fun i hi => (hparts i hi).1).1 hsum.symm
    intro i hi
    obtain ⟨-, hcut⟩ := hparts i hi
    rw [← hones i hi, one_mul] at hcut
    exact hcut

end Valkeyop.Lib
