import Mathlib.Algebra.BigOperators.Group.Finset.Basic
import Mathlib.Algebra.GroupWithZero.Nat
import Mathlib.Data.List.AList

/-!
# Sums over association lists

An association list is summed entry by entry, and argued about key by key. The
bridge is one lemma: the sum over the entries is the sum over any set of keys that
has every entry in it that counts.
-/

namespace Valkeyop.Lib

open Finset

variable {α β M : Type} [DecidableEq α] [AddCommMonoid M]

/-- What a key contributes: nothing if it is not there. -/
def entryValue (φ : β → M) (m : AList fun _ : α => β) (k : α) : M :=
  ((m.lookup k).map φ).getD 0

theorem sum_entries {φ : β → M} {m : AList fun _ : α => β} {s : Finset α}
    (hs : ∀ k b, m.lookup k = some b → φ b ≠ 0 → k ∈ s) :
    (m.entries.map fun e => φ e.2).sum = ∑ k ∈ s, entryValue φ m k := by
  classical
  have hkeys : m.entries.map (fun e => φ e.2) = m.keys.map (entryValue φ m) := by
    rw [AList.keys, List.keys, List.map_map]
    refine List.map_congr_left fun e he => ?_
    have hlookup : m.lookup e.1 = some e.2 := AList.mem_lookup_iff.2 he
    simp [entryValue, hlookup]
  rw [hkeys, ← List.sum_toFinset _ m.keys_nodup, ← sum_filter_ne_zero,
    ← sum_filter_ne_zero s]
  refine sum_congr ?_ fun _ _ => rfl
  ext k
  have hmem : entryValue φ m k ≠ 0 → k ∈ m.keys ∧ k ∈ s := by
    intro hne
    cases hlookup : m.lookup k with
    | none => simp [entryValue, hlookup] at hne
    | some b =>
        refine ⟨AList.mem_keys.1 (AList.lookup_isSome.1 (by simp [hlookup])), hs k b hlookup ?_⟩
        simpa [entryValue, hlookup] using hne
  simp only [mem_filter, List.mem_toFinset]
  exact ⟨fun h => ⟨(hmem h.2).2, h.2⟩, fun h => ⟨(hmem h.2).1, h.2⟩⟩

/-- Two maps that differ at one key differ in their sums by what is there. -/
theorem sum_entries_agree {φ : β → M} {m m' : AList fun _ : α => β} {k : α}
    (hagree : ∀ k', k' ≠ k → m'.lookup k' = m.lookup k') :
    (m'.entries.map fun e => φ e.2).sum + entryValue φ m k =
      (m.entries.map fun e => φ e.2).sum + entryValue φ m' k := by
  let s := insert k (m.keys ++ m'.keys).toFinset
  have hkey : ∀ {m : AList fun _ : α => β} {k' b}, m.lookup k' = some b → k' ∈ m.keys :=
    fun hb => AList.mem_keys.1 (AList.lookup_isSome.1 (by simp [hb]))
  have hm : ∀ k' b, m.lookup k' = some b → φ b ≠ 0 → k' ∈ s :=
    fun k' b hb _ => by simp [s, hkey hb]
  have hm' : ∀ k' b, m'.lookup k' = some b → φ b ≠ 0 → k' ∈ s :=
    fun k' b hb _ => by simp [s, hkey hb]
  have hk : k ∈ s := mem_insert_self ..
  have hrest : ∑ k' ∈ s.erase k, entryValue φ m' k' = ∑ k' ∈ s.erase k, entryValue φ m k' :=
    sum_congr rfl fun k' hk' => by
      rw [entryValue, hagree k' (ne_of_mem_erase hk'), entryValue]
  rw [sum_entries hm, sum_entries hm', ← sum_erase_add _ _ hk, ← sum_erase_add s _ hk, hrest,
    add_right_comm]

/-- Counting is summing. -/
theorem countP_eq_sum {γ : Type} (q : γ → Bool) :
    ∀ l : List γ, l.countP q = (l.map fun x => if q x then 1 else 0).sum
  | [] => rfl
  | x :: l => by
      rw [List.countP_cons, countP_eq_sum q l, List.map_cons, List.sum_cons, Nat.add_comm]

end Valkeyop.Lib
