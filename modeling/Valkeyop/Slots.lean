import Mathlib.Algebra.BigOperators.Ring.Finset
import Valkeyop.Cluster.Types
import Valkeyop.Lib.EvenSplit

/-!
# The even split of the slot space

`internal/slots/slots.go`: which slots each of `n` shards gets when a cluster is
formed, and how ranges of slots are written in the status.
-/

namespace Valkeyop.Slots

open Valkeyop.Lib Valkeyop.Cluster

/-- Shard `i` gets `[i * Total / n, (i + 1) * Total / n - 1]`. -/
def distribute (n : Nat) : List SlotRange :=
  (List.range n).map fun i : Nat =>
    ⟨(i : Int) * totalSlots / n, ((i : Int) + 1) * totalSlots / n - 1⟩

/-- How many slots each of `n` shards should own. -/
def targetCounts (n : Nat) : List Int :=
  (distribute n).map fun r => r.stop - r.start + 1

def formatRange (r : SlotRange) : String :=
  if r.start = r.stop then toString r.start
  else toString r.start ++ "-" ++ toString r.stop

def formatRanges (ranges : List SlotRange) : String :=
  if ranges.length = 0 then "" else String.intercalate "," (ranges.map formatRange)

/-! ## The entries of the split -/

/-- Entry `i` of `distribute n`. -/
def evenRange (n i : Nat) : SlotRange :=
  ⟨(i : Int) * totalSlots / n, ((i : Int) + 1) * totalSlots / n - 1⟩

section

variable {n i : Nat}

theorem length_distribute (n : Nat) : (distribute n).length = n := by simp [distribute]

theorem getElem?_distribute (hi : i < n) : (distribute n)[i]? = some (evenRange n i) := by
  rw [distribute, List.getElem?_map, List.getElem?_range hi]
  rfl

theorem getElem?_distribute_eq_some {r : SlotRange} :
    (distribute n)[i]? = some r ↔ i < n ∧ r = evenRange n i := by
  constructor
  · intro hr
    have hi : i < n := by
      obtain ⟨hlt, -⟩ := List.getElem?_eq_some_iff.1 hr
      rwa [length_distribute] at hlt
    rw [getElem?_distribute hi, Option.some.injEq] at hr
    exact ⟨hi, hr.symm⟩
  · rintro ⟨hi, rfl⟩
    exact getElem?_distribute hi

theorem mem_distribute {r : SlotRange} : r ∈ distribute n ↔ ∃ i < n, r = evenRange n i := by
  rw [List.mem_iff_getElem?]
  exact exists_congr fun _ => getElem?_distribute_eq_some

theorem start_evenRange (n i : Nat) : (evenRange n i).start = cutAt 16384 n i := by
  simp [evenRange, cutAt, totalSlots]

theorem stop_evenRange (n i : Nat) : (evenRange n i).stop = cutAt 16384 n (i + 1) - 1 := by
  simp [evenRange, cutAt, totalSlots]

theorem size_evenRange (n i : Nat) : (evenRange n i).size = runLength 16384 n i := by
  rw [SlotRange.size, start_evenRange, stop_evenRange, cutAt_succ]
  omega

theorem sum_size_evenRange (hn : 0 < n) :
    ((List.range n).map fun i => (evenRange n i).size).sum = totalSlots := by
  calc ((List.range n).map fun i => (evenRange n i).size).sum
      = ∑ i ∈ Finset.range n, (runLength 16384 n i : Int) := by simp only [size_evenRange]; rfl
    _ = (cutAt 16384 n n : Int) := by rw [← Nat.cast_sum, sum_runLength]
    _ = totalSlots := by rw [cutAt_last hn]; rfl

end

end Valkeyop.Slots
