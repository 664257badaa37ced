import Mathlib.LinearAlgebra.Matrix.Symmetric
import Mathlib.Tactic.Linarith
import GinkgoTpl.MachineInt
import GinkgoTpl.Sparse.Assembly
import GinkgoTpl.Sparse.Differences

/-!
# The Laplacian of the tests and of device_smoke

`laplacian_3d` of `common/test/laplacian.hpp`, which numbers the points in a fixed-width integer
type. Where the number of rows fits the type, no number wraps around
(`laplacian3d_eq_exactLaplacian3d`): the entries are in row-major order, without repetitions and
within the matrix (`laplacian3d_rowMajor`), and the matrix is symmetric and positive definite
(`laplacian3d_posDef`), as the method of conjugate gradients needs it.
-/

namespace GinkgoTpl.DeviceSmoke

open Sparse Finset

section
variable {V : Type} [Ring V]

/-- The entries that the body of the loops writes, in an index type of `bits` bits. -/
def pointRow (bits : ℕ) (n x y z : ℤ) : List (ℤ × ℤ × V) :=
  let row := castInt bits (x + n * y + n * n * z)
  (if z > 0 then [(row, castInt bits (row - n * n), -1)] else []) ++
  (if y > 0 then [(row, castInt bits (row - n), -1)] else []) ++
  (if x > 0 then [(row, castInt bits (row - 1), -1)] else []) ++
  [(row, row, 6)] ++
  (if x < n - 1 then [(row, castInt bits (row + 1), -1)] else []) ++
  (if y < n - 1 then [(row, castInt bits (row + n), -1)] else []) ++
  (if z < n - 1 then [(row, castInt bits (row + n * n), -1)] else [])

/-- The nonzeros of the matrix, which has `n * n * n` rows. -/
def laplacian3d (bits n : ℕ) : List (ℤ × ℤ × V) :=
  (List.range n).flatMap fun (z : ℕ) => (List.range n).flatMap fun (y : ℕ) =>
    (List.range n).flatMap fun (x : ℕ) => pointRow bits n x y z

/-- The entries of a point, with numbers that never wrap around. -/
def exactPointRow (n x y z : ℤ) : List (ℤ × ℤ × V) :=
  let row := x + n * y + n * n * z
  (if z > 0 then [(row, row - n * n, -1)] else []) ++
  (if y > 0 then [(row, row - n, -1)] else []) ++
  (if x > 0 then [(row, row - 1, -1)] else []) ++
  [(row, row, 6)] ++
  (if x < n - 1 then [(row, row + 1, -1)] else []) ++
  (if y < n - 1 then [(row, row + n, -1)] else []) ++
  (if z < n - 1 then [(row, row + n * n, -1)] else [])

/-- The entries of all points, with numbers that never wrap around. -/
def exactLaplacian3d (n : ℕ) : List (ℤ × ℤ × V) :=
  (List.range n).flatMap fun (z : ℕ) => (List.range n).flatMap fun (y : ℕ) =>
    (List.range n).flatMap fun (x : ℕ) => exactPointRow n x y z

end

/-! ## The order of the entries -/

/-- The row-major order. -/
def RowMajor {V : Type} (s t : ℤ × ℤ × V) : Prop := s.1 < t.1 ∨ s.1 = t.1 ∧ s.2.1 < t.2.1

section
variable {V : Type} [Ring V] {n : ℕ} {x y z : ℕ}

theorem forall_mem_guarded {α : Type} {c : Prop} [Decidable c] {e : α} {p : α → Prop} :
    (∀ t ∈ (if c then [e] else []), p t) ↔ (c → p e) := by
  split <;> simp [*]

/-- A point has up to six neighbours. -/
theorem forall_mem_exactPointRow {n x y z : ℤ} {p : ℤ × ℤ × V → Prop} :
    (∀ t ∈ exactPointRow n x y z, p t) ↔
      let row := x + n * y + n * n * z
      ((((((z > 0 → p (row, row - n * n, -1)) ∧ (y > 0 → p (row, row - n, -1))) ∧
        (x > 0 → p (row, row - 1, -1))) ∧ p (row, row, 6)) ∧
        (x < n - 1 → p (row, row + 1, -1))) ∧ (y < n - 1 → p (row, row + n, -1))) ∧
        (z < n - 1 → p (row, row + n * n, -1)) := by
  simp only [exactPointRow, List.forall_mem_append, forall_mem_guarded, List.forall_mem_singleton]

theorem row_of_mem_exactPointRow {n x y z : ℤ} : ∀ t ∈ (exactPointRow n x y z : List (ℤ × ℤ × V)),
    t.1 = x + n * y + n * n * z :=
  forall_mem_exactPointRow.mpr (by simp)

theorem guarded_sublist {α : Type} {c : Prop} [Decidable c] {e : α} :
    (if c then [e] else []).Sublist [e] := by
  split <;> simp

/-- The entries of a row are written from left to right. -/
theorem exactPointRow_rowMajor (hx : x < n) (hy : y < n) (hz : z < n) :
    (exactPointRow n x y z : List (ℤ × ℤ × V)).Pairwise RowMajor := by
  obtain rfl | hn : n = 1 ∨ 1 < n := by omega
  · obtain ⟨rfl, rfl, rfl⟩ : x = 0 ∧ y = 0 ∧ z = 0 := by omega
    simp [exactPointRow]
  · have hmul : (n : ℤ) < n * n := by exact_mod_cast Nat.lt_mul_self_iff.mpr hn
    refine List.Pairwise.sublist ((((((guarded_sublist.append guarded_sublist).append
      guarded_sublist).append (.refl _)).append guarded_sublist).append guarded_sublist).append
      guarded_sublist) ?_
    generalize (x : ℤ) + n * y + n * n * z = row
    simp only [List.cons_append, List.nil_append, List.pairwise_cons, List.forall_mem_cons,
      List.not_mem_nil, false_imp_iff, implies_true, and_true, List.Pairwise.nil, RowMajor,
      lt_irrefl, true_and, false_or]
    omega

/-- Points are numbered along the lines, the lines along the planes. -/
theorem line_lt {y y' : ℕ} {x x' : ℕ} (hx : x < n) (hy : y < y') :
    (x : ℤ) + n * y < x' + n * y' := by
  have hmul : n * (y + 1) ≤ n * y' := Nat.mul_le_mul_left n hy
  rw [Nat.mul_add] at hmul
  have hlt : x + n * y < x' + n * y' := by omega
  exact_mod_cast hlt

/-- The points are visited in the order of their numbers. -/
theorem row_lt {x x' y y' z z' : ℕ} (hx : x < n) (hy : y < n)
    (h : z < z' ∨ z = z' ∧ (y < y' ∨ y = y' ∧ x < x')) :
    (x : ℤ) + n * y + n * n * z < x' + n * y' + n * n * z' := by
  obtain hz | ⟨rfl, hy | ⟨rfl, hx⟩⟩ := h
  · have hplane : (y : ℤ) + n * z < y' + n * z' := line_lt hy hz
    nlinarith
  · have hline : (x : ℤ) + n * y < x' + n * y' := line_lt hx hy
    omega
  · omega

theorem mem_exactLaplacian3d {t : ℤ × ℤ × V} :
    t ∈ exactLaplacian3d n ↔ ∃ z < n, ∃ y < n, ∃ x < n, t ∈ exactPointRow n x y z := by
  simp [exactLaplacian3d, List.mem_flatMap]

/-- The points of the grid are the rows of the matrix. -/
theorem row_range {n x y z : ℤ} (hx : 0 ≤ x ∧ x < n) (hy : 0 ≤ y ∧ y < n) (hz : 0 ≤ z ∧ z < n) :
    0 ≤ x + n * y + n * n * z ∧ x + n * y + n * n * z < n ^ 3 := by
  have hn : 0 ≤ n := by omega
  have hline : n * y ≤ n * (n - 1) := mul_le_mul_of_nonneg_left (by omega) hn
  have hplane : n * n * z ≤ n * n * (n - 1) :=
    mul_le_mul_of_nonneg_left (by omega) (mul_nonneg hn hn)
  have hy0 : 0 ≤ n * y := mul_nonneg hn hy.1
  have hz0 : 0 ≤ n * n * z := mul_nonneg (mul_nonneg hn hn) hz.1
  refine ⟨by omega, ?_⟩
  calc x + n * y + n * n * z < n + n * (n - 1) + n * n * (n - 1) := by omega
    _ = n ^ 3 := by ring

theorem exactPointRow_range {n x y z : ℤ} (hx : 0 ≤ x ∧ x < n) (hy : 0 ≤ y ∧ y < n)
    (hz : 0 ≤ z ∧ z < n) : ∀ t ∈ (exactPointRow n x y z : List (ℤ × ℤ × V)),
      (0 ≤ t.1 ∧ t.1 < n ^ 3) ∧ 0 ≤ t.2.1 ∧ t.2.1 < n ^ 3 := by
  have hrow := row_range hx hy hz
  -- the column of a neighbour is the row of its own point
  have hpoint : ∀ {x' y' z' col : ℤ}, 0 ≤ x' ∧ x' < n → 0 ≤ y' ∧ y' < n → 0 ≤ z' ∧ z' < n →
      col = x' + n * y' + n * n * z' →
      (0 ≤ x + n * y + n * n * z ∧ x + n * y + n * n * z < n ^ 3) ∧ 0 ≤ col ∧ col < n ^ 3 := by
    rintro x' y' z' _ hx' hy' hz' rfl
    exact ⟨hrow, row_range hx' hy' hz'⟩
  have hbefore : ∀ {k : ℤ}, 0 ≤ k ∧ k < n → k > 0 → 0 ≤ k - 1 ∧ k - 1 < n := by omega
  have hafter : ∀ {k : ℤ}, 0 ≤ k ∧ k < n → k < n - 1 → 0 ≤ k + 1 ∧ k + 1 < n := by omega
  refine forall_mem_exactPointRow.mpr ⟨⟨⟨⟨⟨⟨?_, ?_⟩, ?_⟩, ?_⟩, ?_⟩, ?_⟩, ?_⟩
  · exact fun h => hpoint hx hy (hbefore hz h) (by ring)
  · exact fun h => hpoint hx (hbefore hy h) hz (by ring)
  · exact fun h => hpoint (hbefore hx h) hy hz (by ring)
  · exact hpoint hx hy hz rfl
  · exact fun h => hpoint (hafter hx h) hy hz (by ring)
  · exact fun h => hpoint hx (hafter hy h) hz (by ring)
  · exact fun h => hpoint hx hy (hafter hz h) (by ring)

/-- How many neighbours a coordinate has in its direction. -/
def neighbors (n k : ℕ) : ℕ := (if 0 < k then 1 else 0) + if k + 1 < n then 1 else 0

theorem exactPointRow_length : (exactPointRow n x y z : List (ℤ × ℤ × V)).length =
    1 + neighbors n x + neighbors n y + neighbors n z := by
  have hlength : ∀ (c : Prop) [Decidable c] (e : ℤ × ℤ × V),
      (if c then [e] else []).length = if c then 1 else 0 := fun c _ e => by split <;> rfl
  have hlt : ∀ k : ℕ, (k : ℤ) < n - 1 ↔ k + 1 < n := fun k => by omega
  simp only [exactPointRow, List.length_append, hlength, hlt, neighbors, gt_iff_lt, Nat.cast_pos,
    List.length_singleton]
  omega

theorem sum_neighbors (n : ℕ) : ∑ k ∈ range (n + 1), neighbors (n + 1) k = 2 * n := by
  have hfirst : ∑ k ∈ range (n + 1), (if 0 < k then 1 else 0) = n := by
    rw [sum_range_succ']
    simp
  have hlast : ∑ k ∈ range (n + 1), (if k + 1 < n + 1 then 1 else 0) = n := by
    rw [sum_range_succ, sum_congr rfl fun k hk => if_pos (Nat.succ_lt_succ (mem_range.mp hk))]
    simp
  simp only [neighbors, sum_add_distrib, hfirst, hlast]
  omega

theorem exactLaplacian3d_length (n : ℕ) :
    (exactLaplacian3d n : List (ℤ × ℤ × V)).length + 6 * n ^ 2 = 7 * n ^ 3 := by
  cases n with
  | zero => simp [exactLaplacian3d]
  | succ n =>
    have hlength : (exactLaplacian3d (n + 1) : List (ℤ × ℤ × V)).length =
        ∑ z ∈ range (n + 1), ∑ y ∈ range (n + 1), ∑ x ∈ range (n + 1),
          (1 + neighbors (n + 1) x + neighbors (n + 1) y + neighbors (n + 1) z) := by
      simp only [exactLaplacian3d, List.length_flatMap, exactPointRow_length]
      rfl
    rw [hlength]
    simp only [sum_add_distrib, sum_const, card_range, smul_eq_mul, ← mul_sum, sum_neighbors]
    ring

theorem exactLaplacian3d_range : ∀ t ∈ (exactLaplacian3d n : List (ℤ × ℤ × V)),
    (0 ≤ t.1 ∧ t.1 < (n : ℤ) ^ 3) ∧ 0 ≤ t.2.1 ∧ t.2.1 < (n : ℤ) ^ 3 := by
  intro t ht
  obtain ⟨z, hz, y, hy, x, hx, ht⟩ := mem_exactLaplacian3d.mp ht
  exact exactPointRow_range ⟨by omega, by omega⟩ ⟨by omega, by omega⟩ ⟨by omega, by omega⟩ t ht

theorem exactLaplacian3d_rowMajor (n : ℕ) :
    (exactLaplacian3d n : List (ℤ × ℤ × V)).Pairwise RowMajor := by
  have hrows : ∀ {x x' y y' z z' : ℕ}, x < n → y < n →
      (z < z' ∨ z = z' ∧ (y < y' ∨ y = y' ∧ x < x')) →
      ∀ s ∈ (exactPointRow n x y z : List (ℤ × ℤ × V)), ∀ t ∈ exactPointRow n x' y' z',
        RowMajor s t :=
    fun hx hy h s hs t ht => .inl (row_of_mem_exactPointRow s hs ▸ row_of_mem_exactPointRow t ht ▸
      row_lt hx hy h)
  refine List.pairwise_flatMap.mpr ⟨fun z hz => List.pairwise_flatMap.mpr ⟨fun y hy =>
    List.pairwise_flatMap.mpr ⟨fun x hx => ?_, ?_⟩, ?_⟩, ?_⟩
  · exact exactPointRow_rowMajor (List.mem_range.mp hx) (List.mem_range.mp hy)
      (List.mem_range.mp hz)
  · refine List.pairwise_lt_range.imp_of_mem fun {x x'} hx _ hlt s hs t ht => ?_
    exact hrows (List.mem_range.mp hx) (List.mem_range.mp hy) (.inr ⟨rfl, .inr ⟨rfl, hlt⟩⟩)
      s hs t ht
  · refine List.pairwise_lt_range.imp_of_mem fun {y y'} hy _ hlt s hs t ht => ?_
    obtain ⟨x, hx, hs⟩ := List.mem_flatMap.mp hs
    obtain ⟨x', -, ht⟩ := List.mem_flatMap.mp ht
    exact hrows (List.mem_range.mp hx) (List.mem_range.mp hy) (.inr ⟨rfl, .inl hlt⟩) s hs t ht
  · refine List.pairwise_lt_range.imp_of_mem fun {z z'} hz _ hlt s hs t ht => ?_
    simp only [List.mem_flatMap, List.mem_range] at hs ht
    obtain ⟨y, hy, x, hx, hs⟩ := hs
    obtain ⟨y', -, x', -, ht⟩ := ht
    exact hrows hx hy (.inl hlt) s hs t ht

end

/-! ## Numbers in the index type -/

section
variable {V : Type} [Ring V] {bits n : ℕ}

/-- No number of a point wraps around where the numbers of all rows fit. -/
theorem pointRow_eq_exactPointRow (hfits : IntFits bits ((n : ℤ) ^ 3)) {x y z : ℤ}
    (hx : 0 ≤ x ∧ x < n) (hy : 0 ≤ y ∧ y < n) (hz : 0 ≤ z ∧ z < n) :
    (pointRow bits n x y z : List (ℤ × ℤ × V)) = exactPointRow n x y z := by
  have hcast : ∀ {number : ℤ}, 0 ≤ number ∧ number < (n : ℤ) ^ 3 →
      castInt bits number = number := by
    intro number hnumber
    have hfit : IntFits bits number := hfits.of_le hnumber.1 (le_of_lt hnumber.2)
    exact hfit.castInt (hfits.pos_bits (lt_of_le_of_lt hnumber.1 hnumber.2))
  have hcolumn : ∀ {c : Prop} [Decidable c] {row col : ℤ}, (c → 0 ≤ col ∧ col < (n : ℤ) ^ 3) →
      (if c then [(row, castInt bits col, (-1 : V))] else []) =
        if c then [(row, col, -1)] else [] := by
    intro c _ row col hcol
    split
    · next hc => rw [hcast (hcol hc)]
    · rfl
  have hrange := exactPointRow_range (V := V) hx hy hz
  simp only [forall_mem_exactPointRow, row_range hx hy hz, true_and] at hrange
  obtain ⟨⟨⟨⟨⟨⟨hzb, hyb⟩, hxb⟩, -⟩, hxa⟩, hya⟩, hza⟩ := hrange
  simp only [pointRow, exactPointRow, hcast (row_range hx hy hz), hcolumn hzb, hcolumn hyb,
    hcolumn hxb, hcolumn hxa, hcolumn hya, hcolumn hza]

theorem laplacian3d_eq_exactLaplacian3d (hfits : IntFits bits ((n : ℤ) ^ 3)) :
    (laplacian3d bits n : List (ℤ × ℤ × V)) = exactLaplacian3d n := by
  refine List.flatMap_congr fun z hz => List.flatMap_congr fun y hy =>
    List.flatMap_congr fun x hx => ?_
  rw [List.mem_range] at hx hy hz
  exact pointRow_eq_exactPointRow hfits ⟨by omega, by omega⟩ ⟨by omega, by omega⟩
    ⟨by omega, by omega⟩

/-- The entries are written in row-major order, none twice, and lie within the matrix. -/
theorem laplacian3d_rowMajor (bits n : ℕ) (hfits : IntFits bits ((n : ℤ) ^ 3)) :
    (laplacian3d bits n : List (ℤ × ℤ × V)).Pairwise RowMajor ∧
    (∀ t ∈ (laplacian3d bits n : List (ℤ × ℤ × V)),
      (0 ≤ t.1 ∧ t.1 < (n : ℤ) ^ 3) ∧ 0 ≤ t.2.1 ∧ t.2.1 < (n : ℤ) ^ 3) ∧
    (laplacian3d bits n : List (ℤ × ℤ × V)).length + 6 * n ^ 2 = 7 * n ^ 3 := by
  rw [laplacian3d_eq_exactLaplacian3d hfits]
  exact ⟨exactLaplacian3d_rowMajor n, exactLaplacian3d_range, exactLaplacian3d_length n⟩

/-- The largest grid whose points an index type of 32 bits numbers. -/
theorem laplacian3d_rowMajor_largest :
    (laplacian3d 32 1290 : List (ℤ × ℤ × ℤ)).Pairwise RowMajor ∧
    (∀ t ∈ (laplacian3d 32 1290 : List (ℤ × ℤ × ℤ)),
      (0 ≤ t.1 ∧ t.1 < ((1290 : ℕ) : ℤ) ^ 3) ∧ 0 ≤ t.2.1 ∧ t.2.1 < ((1290 : ℕ) : ℤ) ^ 3) ∧
    (laplacian3d 32 1290 : List (ℤ × ℤ × ℤ)).length + 6 * 1290 ^ 2 = 7 * 1290 ^ 3 :=
  laplacian3d_rowMajor 32 1290 (by norm_num [IntFits])

end

/-! ## The bilinear form -/

section
variable {V : Type} [CommRing V] {n : ℕ}

/-- The values along the three lines through a point. -/
def xLine (n y z : ℕ) (w : ℤ → V) (x : ℕ) : V := w (x + n * y + n * n * z)

def yLine (n x z : ℕ) (w : ℤ → V) (y : ℕ) : V := w (x + n * y + n * n * z)

def zLine (n x y : ℕ) (w : ℤ → V) (z : ℕ) : V := w (x + n * y + n * n * z)

/-- What the entries of a point contribute. -/
theorem sum_exactPointRow (n x y z : ℕ) (u w : ℤ → V) :
    ((exactPointRow n x y z).map fun t => u t.1 * (t.2.2 * w t.2.1)).sum =
      xLine n y z u x * secondDifference n (xLine n y z w) x +
      yLine n x z u y * secondDifference n (yLine n x z w) y +
      zLine n x y u z * secondDifference n (zLine n x y w) z := by
  have hguarded : ∀ {p q : Prop} [Decidable p] [Decidable q] {col row : ℤ} (col' : ℤ), (p ↔ q) →
      (q → col = col') →
      ((if p then [(row, col, (-1 : V))] else []).map fun t => u t.1 * (t.2.2 * w t.2.1)).sum =
        -(u row * if q then w col' else 0) := by
    intro p q _ _ col row col' hpq hcol
    by_cases hq : q
    · rw [if_pos (hpq.mpr hq), if_pos hq, hcol hq]
      simp
    · rw [if_neg fun hp => hq (hpq.mp hp), if_neg hq]
      simp
  have hbefore : ∀ k : ℕ, 0 < k → ((k - 1 : ℕ) : ℤ) = k - 1 := fun k hk => by omega
  have hafter : ∀ k : ℕ, (k : ℤ) < n - 1 ↔ k + 1 < n := fun k => by omega
  simp only [exactPointRow, List.map_append, List.sum_append, secondDifference, xLine, yLine, zLine]
  rw [hguarded (x + n * y + n * n * (z - 1 : ℕ)) Nat.cast_pos (fun h => by rw [hbefore z h]; ring),
    hguarded (x + n * (y - 1 : ℕ) + n * n * z) Nat.cast_pos (fun h => by rw [hbefore y h]; ring),
    hguarded ((x - 1 : ℕ) + n * y + n * n * z) Nat.cast_pos (fun h => by rw [hbefore x h]; ring),
    hguarded ((x + 1 : ℕ) + n * y + n * n * z) (hafter x) (fun _ => by push_cast; ring),
    hguarded (x + n * (y + 1 : ℕ) + n * n * z) (hafter y) (fun _ => by push_cast; ring),
    hguarded (x + n * y + n * n * (z + 1 : ℕ)) (hafter z) (fun _ => by push_cast; ring)]
  simp only [List.map_cons, List.map_nil, List.sum_cons, List.sum_nil]
  ring

theorem sum_range_flatMap {α : Type} (f : ℕ → List α) (g : α → V) :
    (((List.range n).flatMap f).map g).sum = ∑ k ∈ range n, ((f k).map g).sum := by
  rw [List.flatMap, List.map_flatten, List.sum_flatten, List.map_map, List.map_map]
  rfl

/-- The bilinear form is the sum of those of all lines of the grid. -/
theorem exactLaplacian3d_form (n : ℕ) (u w : ℤ → V) :
    (fun i : Fin (n ^ 3) => u i) ⬝ᵥ (assemble (n ^ 3) (exactLaplacian3d n)).mulVec (fun j => w j) =
      ∑ z ∈ range n, ∑ y ∈ range n, ∑ x ∈ range n,
        xLine n y z u x * secondDifference n (xLine n y z w) x +
      ∑ z ∈ range n, ∑ x ∈ range n, ∑ y ∈ range n,
        yLine n x z u y * secondDifference n (yLine n x z w) y +
      ∑ y ∈ range n, ∑ x ∈ range n, ∑ z ∈ range n,
        zLine n x y u z * secondDifference n (zLine n x y w) z := by
  have hpow : ((n ^ 3 : ℕ) : ℤ) = (n : ℤ) ^ 3 := by push_cast; rfl
  rw [dotProduct_assemble_mulVec fun t ht => ?_]
  · simp only [exactLaplacian3d, sum_range_flatMap, sum_exactPointRow, sum_add_distrib]
    congr 1
    · congr 1
      exact sum_congr rfl fun z _ => sum_comm
    · rw [sum_comm]
      exact sum_congr rfl fun y _ => sum_comm
  · obtain ⟨z, hz, y, hy, x, hx, ht⟩ := mem_exactLaplacian3d.mp ht
    rw [hpow]
    exact exactPointRow_range ⟨by omega, by omega⟩ ⟨by omega, by omega⟩ ⟨by omega, by omega⟩ t ht

theorem exactLaplacian3d_form_comm (n : ℕ) (u w : ℤ → V) :
    (fun i : Fin (n ^ 3) => u i) ⬝ᵥ (assemble (n ^ 3) (exactLaplacian3d n)).mulVec (fun j => w j) =
      (fun i : Fin (n ^ 3) => w i) ⬝ᵥ
        (assemble (n ^ 3) (exactLaplacian3d n)).mulVec (fun j => u j) := by
  simp only [exactLaplacian3d_form, sum_mul_secondDifference_comm (xLine n _ _ u),
    sum_mul_secondDifference_comm (yLine n _ _ u), sum_mul_secondDifference_comm (zLine n _ _ u)]

/-- A vector of the matrix, continued by zeros. -/
def extend {m : ℕ} (v : Fin m → V) (g : ℤ) : V :=
  if h : 0 ≤ g ∧ g.toNat < m then v ⟨g.toNat, h.2⟩ else 0

theorem extend_natCast {m : ℕ} (v : Fin m → V) (i : Fin m) : extend v (i : ℕ) = v i := by
  simp [extend]

theorem exactLaplacian3d_isSymm (n : ℕ) :
    (assemble (n ^ 3) (exactLaplacian3d n) : Matrix (Fin (n ^ 3)) (Fin (n ^ 3)) V).IsSymm := by
  have hentry : ∀ i j : Fin (n ^ 3), (assemble (n ^ 3) (exactLaplacian3d n)) i j =
      (fun k : Fin (n ^ 3) => extend (Pi.single i (1 : V)) (k : ℕ)) ⬝ᵥ
        (assemble (n ^ 3) (exactLaplacian3d n)).mulVec
          fun k => extend (Pi.single j (1 : V)) (k : ℕ) := fun i j => by
    simp only [extend_natCast]
    simp
  refine Matrix.IsSymm.ext fun i j => ?_
  rw [hentry i j, hentry j i]
  exact exactLaplacian3d_form_comm n _ _

end

section
variable {V : Type} [CommRing V] [LinearOrder V] [IsStrictOrderedRing V] {n : ℕ}

/-- A row is a point of the grid. -/
theorem exists_point {g : ℕ} (hg : g < n ^ 3) : ∃ z < n, ∃ y < n, ∃ x < n,
    g = x + n * y + n * n * z := by
  have hn : 0 < n := Nat.pos_of_ne_zero fun h => by simp [h] at hg
  have hplane : g < n * n * n := by rwa [pow_succ, pow_two] at hg
  refine ⟨g / (n * n), Nat.div_lt_of_lt_mul hplane, g / n % n, Nat.mod_lt _ hn, g % n,
    Nat.mod_lt _ hn, ?_⟩
  have h1 := Nat.mod_add_div g n
  have h2 := Nat.mod_add_div (g / n) n
  rw [Nat.div_div_eq_div_mul] at h2
  calc g = g % n + n * (g / n % n + n * (g / (n * n))) := by rw [h2, h1]
    _ = _ := by ring

theorem exactLaplacian3d_posDef (n : ℕ) :
    (assemble (n ^ 3) (exactLaplacian3d n) : Matrix (Fin (n ^ 3)) (Fin (n ^ 3)) V).IsSymm ∧
    ∀ v : Fin (n ^ 3) → V, v ≠ 0 → 0 < v ⬝ᵥ (assemble (n ^ 3) (exactLaplacian3d n)).mulVec v := by
  refine ⟨exactLaplacian3d_isSymm n, fun v hv => ?_⟩
  obtain ⟨i, hi⟩ := Function.ne_iff.mp hv
  obtain ⟨z, hz, y, hy, x, hx, hrow⟩ := exists_point i.2
  have hform := exactLaplacian3d_form n (extend v) (extend v)
  simp only [extend_natCast] at hform
  have hline : xLine n y z (extend v) x ≠ 0 := by
    have hself : xLine n y z (extend v) x = v i := by
      rw [← extend_natCast v i, hrow]
      push_cast
      rfl
    rwa [hself]
  have hxs : 0 < ∑ z ∈ range n, ∑ y ∈ range n, ∑ x ∈ range n,
      xLine n y z (extend v) x * secondDifference n (xLine n y z (extend v)) x :=
    sum_pos' (fun z _ => sum_nonneg fun y _ => sum_mul_secondDifference_nonneg _)
      ⟨z, mem_range.mpr hz, sum_pos' (fun y _ => sum_mul_secondDifference_nonneg _)
        ⟨y, mem_range.mpr hy, sum_mul_secondDifference_pos hx hline⟩⟩
  rw [hform]
  exact add_pos_of_pos_of_nonneg (add_pos_of_pos_of_nonneg hxs
    (sum_nonneg fun z _ => sum_nonneg fun x _ => sum_mul_secondDifference_nonneg _))
    (sum_nonneg fun y _ => sum_nonneg fun x _ => sum_mul_secondDifference_nonneg _)

/-- The matrix is symmetric and positive definite. -/
theorem laplacian3d_posDef (bits n : ℕ) (hfits : IntFits bits ((n : ℤ) ^ 3)) :
    (assemble (n ^ 3) (laplacian3d bits n) : Matrix (Fin (n ^ 3)) (Fin (n ^ 3)) V).IsSymm ∧
    ∀ v : Fin (n ^ 3) → V, v ≠ 0 → 0 < v ⬝ᵥ (assemble (n ^ 3) (laplacian3d bits n)).mulVec v := by
  rw [laplacian3d_eq_exactLaplacian3d hfits]
  exact exactLaplacian3d_posDef n

/-- The eight points of the smallest grid with neighbours in all directions. -/
theorem laplacian3d_posDef_two :
    (assemble 8 (laplacian3d 32 2) : Matrix (Fin 8) (Fin 8) ℤ).IsSymm ∧
    ∀ v : Fin 8 → ℤ, v ≠ 0 → 0 < v ⬝ᵥ (assemble 8 (laplacian3d 32 2)).mulVec v :=
  laplacian3d_posDef 32 2 (by norm_num [IntFits])

end

end GinkgoTpl.DeviceSmoke
