import Mathlib.Algebra.BigOperators.Intervals
import Mathlib.Algebra.Order.Floor.Div
import Mathlib.Tactic.Ring

/-!
# Splitting a number evenly

The numbers below `total`, cut into `n` runs at `i * total / n`. Each cut is rounded
down on its own, so nothing is rounded twice: the runs follow each other without a gap
or an overlap, and since `(i + 1) * total` is `i * total` and `total` more, no run is
off the exact share by one or more.
-/

namespace Valkeyop.Lib

open Finset

/-- Where run `i` of `n` begins. -/
def cutAt (total n i : ℕ) : ℕ := i * total / n

def runLength (total n i : ℕ) : ℕ := cutAt total n (i + 1) - cutAt total n i

section

variable {total n : ℕ}

theorem cutAt_mono (total n : ℕ) : Monotone (cutAt total n) := fun _ _ hij =>
  Nat.div_le_div_right (Nat.mul_le_mul_right _ hij)

theorem cutAt_zero : cutAt total n 0 = 0 := by simp [cutAt]

theorem cutAt_last (hn : 0 < n) : cutAt total n n = total := Nat.mul_div_cancel_left _ hn

theorem cutAt_succ (i : ℕ) : cutAt total n (i + 1) = cutAt total n i + runLength total n i :=
  (Nat.add_sub_cancel' (cutAt_mono total n (Nat.le_succ i))).symm

theorem sum_runLength (k : ℕ) : ∑ i ∈ range k, runLength total n i = cutAt total n k := by
  have hsum := sum_range_tsub (cutAt_mono total n) k
  rwa [cutAt_zero, Nat.sub_zero] at hsum

/-! ## Balance -/

/-- Whole rounds are dealt out evenly, so only the remainder matters. -/
theorem cutAt_eq_rounds (hn : 0 < n) (i : ℕ) :
    cutAt total n i = i * (total / n) + cutAt (total % n) n i := by
  have hsplit : i * total = i * (total % n) + n * (i * (total / n)) := by
    conv_lhs => rw [← Nat.div_add_mod total n]
    ring
  rw [cutAt, hsplit, Nat.add_mul_div_left _ _ hn, cutAt, Nat.add_comm]

theorem runLength_le_one {r : ℕ} (hn : 0 < n) (hr : r ≤ n) (i : ℕ) : runLength r n i ≤ 1 := by
  have hstep : cutAt r n (i + 1) ≤ cutAt r n i + 1 := by
    rw [cutAt, cutAt, ← Nat.add_div_right _ hn, Nat.add_mul, Nat.one_mul]
    exact Nat.div_le_div_right (Nat.add_le_add_left hr _)
  rw [runLength]
  omega

theorem runLength_eq (hn : 0 < n) (i : ℕ) :
    runLength total n i = total / n + runLength (total % n) n i := by
  have hstep : cutAt (total % n) n (i + 1) = _ := cutAt_succ i
  rw [runLength, cutAt_eq_rounds hn i, cutAt_eq_rounds hn (i + 1), hstep, Nat.succ_mul]
  generalize total / n = q
  omega

theorem runLength_floor_or_ceil (hn : 0 < n) (i : ℕ) :
    runLength total n i = total / n ∨ runLength total n i = total ⌈/⌉ n := by
  have hle := runLength_le_one hn (Nat.mod_lt total hn).le i
  rw [runLength_eq hn]
  rcases Nat.eq_zero_or_pos (total % n) with hzero | hpos
  · -- nothing is left over, so every run has the exact share
    left
    rw [hzero, runLength, cutAt, cutAt, Nat.mul_zero, Nat.mul_zero, Nat.sub_self, Nat.add_zero]
  · have hceil : total ⌈/⌉ n = total / n + 1 := by
      rw [Nat.ceilDiv_eq_add_pred_div]
      conv_lhs => rw [← Nat.div_add_mod total n]
      rw [Nat.add_assoc, Nat.add_sub_assoc (by omega), Nat.mul_add_div hn]
      congr 1
      exact Nat.div_eq_of_lt_le (by omega) (by have := Nat.mod_lt total hn; omega)
    omega

theorem runLength_pos (hn : 0 < n) (hle : n ≤ total) (i : ℕ) : 0 < runLength total n i := by
  rw [runLength_eq hn]
  have := Nat.div_pos hle hn
  omega

/-! ## Every number has its run -/

theorem exists_run (hn : 0 < n) {x : ℕ} (hx : x < total) :
    ∃ i < n, cutAt total n i ≤ x ∧ x < cutAt total n (i + 1) := by
  have hlast : x < cutAt total n (n - 1 + 1) := by rwa [Nat.sub_add_cancel hn, cutAt_last hn]
  -- the first run that ends beyond `x` begins no later than `x`
  have hbeyond : ∃ i, x < cutAt total n (i + 1) := ⟨n - 1, hlast⟩
  have hle : Nat.find hbeyond ≤ n - 1 := Nat.find_min' hbeyond hlast
  refine ⟨Nat.find hbeyond, by omega, ?_, Nat.find_spec hbeyond⟩
  cases hfirst : Nat.find hbeyond with
  | zero => exact cutAt_zero.trans_le (Nat.zero_le x)
  | succ j => exact Nat.le_of_not_lt (Nat.find_min hbeyond (m := j) (by omega))

theorem run_unique {i j x : ℕ} (hi : cutAt total n i ≤ x) (hi' : x < cutAt total n (i + 1))
    (hj : cutAt total n j ≤ x) (hj' : x < cutAt total n (j + 1)) : i = j := by
  rcases Nat.lt_trichotomy i j with hlt | heq | hlt
  · have := cutAt_mono total n (show i + 1 ≤ j from hlt)
    omega
  · exact heq
  · have := cutAt_mono total n (show j + 1 ≤ i from hlt)
    omega

end

end Valkeyop.Lib
