import Mathlib.LinearAlgebra.Matrix.Notation

/-!
# Matrices assembled from triplets

A list of (row, column, value) triplets describes a matrix whose entries are the sums of the values
that have their indices. `assemble_mulVec` computes its products from the triplets.
-/

namespace GinkgoTpl.Sparse

variable {V : Type} {n : ℕ}

/-- What a triplet adds to a matrix. -/
def contribution [Zero V] (n : ℕ) (t : ℤ × ℤ × V) : Matrix (Fin n) (Fin n) V :=
  Matrix.of fun i j => if t.1 = i ∧ t.2.1 = j then t.2.2 else 0

/-- The matrix of the triplets; where indices repeat, the values are added. -/
def assemble [AddMonoid V] (n : ℕ) (ts : List (ℤ × ℤ × V)) : Matrix (Fin n) (Fin n) V :=
  (ts.map (contribution n)).sum

section
variable [AddCommMonoid V] {ts us : List (ℤ × ℤ × V)}

@[simp] theorem assemble_nil : assemble n ([] : List (ℤ × ℤ × V)) = 0 := rfl

theorem assemble_cons (t : ℤ × ℤ × V) :
    assemble n (t :: ts) = contribution n t + assemble n ts := by
  simp [assemble]

/-- The order of the triplets does not matter. -/
theorem assemble_perm (h : ts.Perm us) : assemble n ts = assemble n us := by
  exact (h.map _).sum_eq

end

section
variable [NonUnitalNonAssocSemiring V] {ts : List (ℤ × ℤ × V)}

/-- The product of the matrix with a vector, row by row from the triplets. -/
theorem assemble_mulVec (h : ∀ t ∈ ts, 0 ≤ t.2.1 ∧ t.2.1 < n) (x : ℤ → V) (i : Fin n) :
    (assemble n ts).mulVec (fun j => x j) i =
      ((ts.filter (·.1 = (i : ℤ))).map fun t => t.2.2 * x t.2.1).sum := by
  induction ts with
  | nil => simp
  | cons t ts ih =>
    obtain ⟨⟨h0, hlt⟩, hts⟩ := List.forall_mem_cons.mp h
    have ht : (contribution n t).mulVec (fun j => x j) i =
        if t.1 = i then t.2.2 * x t.2.1 else 0 := by
      let j₀ : Fin n := ⟨t.2.1.toNat, by omega⟩
      have hj₀ : ((j₀ : ℕ) : ℤ) = t.2.1 := by simp [j₀, h0]
      rw [Matrix.mulVec, dotProduct, Finset.sum_eq_single j₀]
      · by_cases hi : t.1 = i <;> simp [contribution, hi, hj₀]
      · intro j _ hj
        have hne : t.2.1 ≠ (j : ℤ) := fun heq => hj (Fin.ext (by omega))
        simp [contribution, hne]
      · simp
    rw [assemble_cons, Matrix.add_mulVec, Pi.add_apply, ht, ih hts]
    by_cases hi : t.1 = i <;> simp [hi]

/-- The bilinear form of the matrix, triplet by triplet. -/
theorem dotProduct_assemble_mulVec
    (h : ∀ t ∈ ts, (0 ≤ t.1 ∧ t.1 < n) ∧ 0 ≤ t.2.1 ∧ t.2.1 < n) (u w : ℤ → V) :
    (fun i : Fin n => u i) ⬝ᵥ (assemble n ts).mulVec (fun j => w j) =
      (ts.map fun t => u t.1 * (t.2.2 * w t.2.1)).sum := by
  induction ts with
  | nil => simp
  | cons t ts ih =>
    obtain ⟨⟨⟨h0, hlt⟩, hcol⟩, hts⟩ := List.forall_mem_cons.mp h
    let i₀ : Fin n := ⟨t.1.toNat, by omega⟩
    have hi₀ : ((i₀ : ℕ) : ℤ) = t.1 := by simp [i₀, h0]
    have ht : ∀ i : Fin n, (contribution n t).mulVec (fun j => w j) i =
        if t.1 = i then t.2.2 * w t.2.1 else 0 := fun i => by
      have hcol' : ∀ s ∈ [t], 0 ≤ s.2.1 ∧ s.2.1 < n := List.forall_mem_singleton.mpr hcol
      have hsingle := assemble_mulVec hcol' w i
      rw [assemble_cons, assemble_nil, add_zero] at hsingle
      rw [hsingle]
      by_cases hi : t.1 = i <;> simp [hi]
    rw [assemble_cons, Matrix.add_mulVec, dotProduct_add, ih hts, List.map_cons, List.sum_cons,
      dotProduct, Finset.sum_eq_single i₀]
    · rw [ht, hi₀, if_pos rfl]
    · intro i _ hi
      have hne : t.1 ≠ (i : ℤ) := fun heq => hi (Fin.ext (by omega))
      rw [ht, if_neg hne, mul_zero]
    · simp

end

end GinkgoTpl.Sparse
