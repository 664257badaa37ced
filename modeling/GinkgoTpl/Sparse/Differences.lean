import Mathlib.Algebra.BigOperators.Intervals
import Mathlib.Algebra.Order.BigOperators.Ring.Finset
import Mathlib.Tactic.LinearCombination

/-!
# Second differences on a line

The second difference of the values on a line of `n` points, with zeros beyond both ends. As a
matrix it is symmetric and positive definite, by summation by parts.
-/

namespace GinkgoTpl.Sparse

open Finset

section
variable {V : Type} [CommRing V] {n : ℕ} {f g : ℕ → V}

/-- Twice the value at a point, less the values before and after it on the line. -/
def secondDifference (n : ℕ) (f : ℕ → V) (k : ℕ) : V :=
  2 * f k - (if 0 < k then f (k - 1) else 0) - if k + 1 < n then f (k + 1) else 0

/-- The values of the line with a zero on each side. -/
def padded (n : ℕ) (f : ℕ → V) : ℕ → V
  | 0 => 0
  | k + 1 => if k < n then f k else 0

/-- The difference across the `k`-th gap of the padded line. -/
def gap (n : ℕ) (f : ℕ → V) (k : ℕ) : V := padded n f (k + 1) - padded n f k

/-- Summation by parts, with the term that remains at the end. -/
theorem sum_mul_secondDifference_add {a b : ℕ → V} (m : ℕ) (ha : a 0 = 0) :
    ∑ k ∈ range m, a (k + 1) * (2 * b (k + 1) - b k - b (k + 2)) + a (m + 1) * (b (m + 1) - b m) =
      ∑ k ∈ range (m + 1), (a (k + 1) - a k) * (b (k + 1) - b k) := by
  induction m with
  | zero => simp [ha]
  | succ m ih =>
    rw [sum_range_succ, sum_range_succ _ (m + 1), ← ih]
    ring

theorem sum_mul_secondDifference (f g : ℕ → V) :
    ∑ k ∈ range n, f k * secondDifference n g k =
      ∑ k ∈ range (n + 1), gap n f k * gap n g k := by
  have hparts := sum_mul_secondDifference_add (a := padded n f) (b := padded n g) n rfl
  have hend : padded n f (n + 1) = 0 := if_neg (lt_irrefl n)
  rw [hend, zero_mul, add_zero] at hparts
  refine (sum_congr rfl fun k hk => ?_).trans hparts
  have hk : k < n := mem_range.mp hk
  have hbefore : padded n g k = if 0 < k then g (k - 1) else 0 := by
    cases k with
    | zero => rfl
    | succ k => simp [padded, Nat.lt_of_succ_lt hk]
  have hself : ∀ h : ℕ → V, padded n h (k + 1) = h k := fun h => if_pos hk
  rw [hself, hself, hbefore]
  rfl

/-- The second difference is symmetric. -/
theorem sum_mul_secondDifference_comm (f g : ℕ → V) :
    ∑ k ∈ range n, f k * secondDifference n g k = ∑ k ∈ range n, g k * secondDifference n f k := by
  rw [sum_mul_secondDifference, sum_mul_secondDifference]
  exact sum_congr rfl fun k _ => mul_comm _ _

end

section
variable {V : Type} [CommRing V] [LinearOrder V] [IsStrictOrderedRing V] {n : ℕ} {f : ℕ → V}

theorem sum_mul_secondDifference_nonneg (f : ℕ → V) :
    0 ≤ ∑ k ∈ range n, f k * secondDifference n f k := by
  rw [sum_mul_secondDifference]
  exact sum_nonneg fun k _ => mul_self_nonneg _

/-- Without a difference across any gap, all values are the zero before the first one. -/
theorem sum_mul_secondDifference_pos {k : ℕ} (hk : k < n) (hf : f k ≠ 0) :
    0 < ∑ k ∈ range n, f k * secondDifference n f k := by
  refine (sum_mul_secondDifference_nonneg f).lt_of_ne fun hzero => hf ?_
  rw [sum_mul_secondDifference] at hzero
  have hgaps := (sum_eq_zero_iff_of_nonneg fun j _ => mul_self_nonneg (gap n f j)).mp hzero.symm
  have hpadded : ∀ j ≤ n, padded n f j = 0 := by
    intro j
    induction j with
    | zero => exact fun _ => rfl
    | succ j ih =>
      intro hj
      have hgap : gap n f j = 0 := mul_self_eq_zero.mp (hgaps j (mem_range.mpr (by omega)))
      rw [gap, ih (by omega), sub_zero] at hgap
      exact hgap
  have hself : padded n f (k + 1) = f k := if_pos hk
  rw [← hself]
  exact hpadded (k + 1) hk

end

end GinkgoTpl.Sparse
