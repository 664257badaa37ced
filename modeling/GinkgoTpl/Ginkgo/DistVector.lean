import Mathlib.Data.List.FinRange
import Mathlib.Data.List.GetD
import GinkgoTpl.Ginkgo.DistMatrix

/-!
# Vectors distributed over ranks

A vector of which every rank has the entries of its part, in local order. The libraries put the
arrays of the ranks one behind the other; for a partition with ordered parts this is the same vector
(`joined_eq`). With it, the product that a rank computes from its two blocks is the one with the
whole matrix (`rankProduct_eq`).
-/

namespace GinkgoTpl.Ginkgo

namespace Partition

variable {P : ℕ} {p : Partition P}

/-- Ordered parts follow one another. -/
theorem flatMap_part (h : p.hasOrderedParts) :
    (List.finRange P).flatMap (fun r : Fin P => p.part r) = List.range p.size := by
  have key : ∀ r, (List.range r).flatMap p.part = List.range (p.start r) := by
    intro r
    induction r with
    | zero => simp
    | succ r ih =>
      rw [List.range_succ, List.flatMap_append, ih, List.flatMap_cons, List.flatMap_nil,
        List.append_nil, part_eq_range' h, start_succ, List.range_add, List.range'_eq_map_range]
  rw [← start_ranks p, ← key, ← List.map_coe_finRange_eq_range, List.flatMap_map]

end Partition

section
variable {P : ℕ} {V : Type} [Zero V]

/-- The entry `g` of the vector of which each rank has the first values of its array. -/
def globalVector (p : Partition P) (parts : Fin P → List V) (g : ℕ) : V :=
  if h : p.owner g < P then (parts ⟨p.owner g, h⟩).getD (p.localIndex g) 0 else 0

/-- The arrays of the ranks one behind the other. -/
def joined (parts : Fin P → List V) : List V := (List.finRange P).flatMap parts

variable {p : Partition P} {parts : Fin P → List V}

/-- The entries of a part, by their local numbers. -/
theorem globalVector_start (h : p.hasOrderedParts) {r : Fin P} {i : ℕ} (hi : i < p.partSize r) :
    globalVector p parts (p.start r + i) = (parts r).getD i 0 := by
  have hlt : p.start r + i < p.size := by
    have := p.start_add_partSize_le r.isLt
    omega
  have howner := (Partition.owner_eq_iff h hlt r).mpr ⟨by omega, by omega⟩
  have hindex := Partition.start_add_localIndex h hlt
  rw [howner, Nat.add_right_inj] at hindex
  have hrank : ∀ h, (⟨p.owner (p.start r + i), h⟩ : Fin P) = r := fun _ => Fin.ext howner
  rw [globalVector, dif_pos (by rw [howner]; exact r.isLt), hrank, hindex]

/-- On its own part, a rank has the entries of the vector. -/
theorem map_part_globalVector (h : p.hasOrderedParts)
    (hlength : ∀ r : Fin P, (parts r).length = p.partSize r) (r : Fin P) :
    (p.part r).map (globalVector p parts) = parts r := by
  rw [Partition.part_eq_range' h, ← hlength]
  refine List.ext_getElem (by simp) fun i _ hi => ?_
  rw [List.getElem_map, List.getElem_range', Nat.one_mul, globalVector_start h (hlength r ▸ hi),
    List.getD_eq_getElem _ _ hi]

/-- With ordered parts, the arrays of the ranks one behind the other are the vector. -/
theorem joined_eq (h : p.hasOrderedParts)
    (hlength : ∀ r : Fin P, (parts r).length = p.partSize r) :
    joined parts = (List.range p.size).map (globalVector p parts) := by
  rw [← Partition.flatMap_part h, List.map_flatMap, joined]
  simp only [map_part_globalVector h hlength]

theorem joined_getD (h : p.hasOrderedParts)
    (hlength : ∀ r : Fin P, (parts r).length = p.partSize r) {g : ℕ} (hg : g < p.size) :
    (joined parts).getD g 0 = globalVector p parts g := by
  rw [joined_eq h hlength, List.getD_eq_getElem _ _ (by simpa using hg)]
  simp

end

/-! ## Products -/

open Sparse

section
variable {P : ℕ} {V : Type} [Inhabited V]

/-- Row `i` of the product of a rank's blocks with the vector `x`: the diagonal block meets the
rank's own values, the off-diagonal one the values it receives. -/
def rankProduct [Semiring V] (L : LocalMatrix P V) (x : ℤ → V) (i : ℕ) : V :=
  Csr.sumRow (L.diag.csr.entries.map (L.globalize .«local»)) x i +
    Csr.sumRow (L.offDiag.csr.entries.map (L.globalize .nonLocal)) x i

/-- Row `i` of the residual that Ginkgo computes on a rank, with the rank's part of `b`. -/
def rankResidual [Ring V] (L : LocalMatrix P V) (b : List V) (x : ℕ → V) (i : ℕ) : V :=
  b.getD i 0 - rankProduct L (fun g => x g.toNat) i

variable {M : DistMatrix P V}

theorem rankProduct_eq [Semiring V] (hord : M.rowPart.hasOrderedParts) (r : Fin P) (x : ℤ → V)
    {i : ℕ} (hi : i < M.rowPart.partSize r) :
    rankProduct (M.rank r) x i = rowOfProduct M.entries x (M.rowPart.start r + i) := by
  rw [rankProduct, ← Csr.sumRow_append, Csr.sumRow_perm (M.globalize_perm r),
    M.sumRow_localize hord r x hi]

/-- A row of the product meets entries of the vector only. -/
theorem rowOfProduct_joined [Semiring V] (hord : M.rowPart.hasOrderedParts) {x : Fin P → List V}
    (hx : ∀ s : Fin P, (x s).length = M.rowPart.partSize s) (g : ℕ) :
    rowOfProduct M.entries (fun j => (joined x).getD j.toNat 0) g =
      rowOfProduct M.entries (fun j => globalVector M.rowPart x j.toNat) g := by
  have hsize : M.rowPart.size = M.n := M.rowPart_size
  rw [rowOfProduct, rowOfProduct]
  congr 1
  refine List.map_congr_left fun e he => ?_
  have hcol := (M.entries_lt e (List.mem_filter.mp he).1).2
  rw [Int.toNat_natCast, joined_getD hord hx (hsize ▸ hcol)]

end

end GinkgoTpl.Ginkgo
