import Mathlib.Data.List.TakeWhile
import GinkgoTpl.Sparse.Csr

/-!
# hypre's routines on the diagonal block

hypre's ParCSR format wants the diagonal stored first in every row of the diagonal block. The
importer calls hypre to record the non-empty rows and to reorder them; `Kernels` is what these
routines do to the contents of a block, with what hypre promises of them. `Kernels.documented`
follows the description of the routines: it swaps the first diagonal entry of a recorded row with
the first entry, and stops at the first recorded row that stores none.
-/

namespace GinkgoTpl.Hypre

open Sparse

variable {V : Type} [Inhabited V]

/-- Row `i` of a block stores a diagonal entry. -/
def HasDiagonal (c : Csr V) (i : ℕ) : Prop := ∃ e ∈ c.row i, e.1 = i

instance (c : Csr V) (i : ℕ) : Decidable (HasDiagonal c i) :=
  decidable_of_iff ((c.row i).any fun e => e.1 = i) (by simp [HasDiagonal])

/-- Every non-empty row of a block stores its diagonal. -/
def DiagonalsStored (c : Csr V) : Prop := ∀ i < c.numRows, c.row i ≠ [] → HasDiagonal c i

instance (c : Csr V) : Decidable (DiagonalsStored c) := by
  unfold DiagonalsStored
  infer_instance

/-- The routines of hypre, as functions of a block's contents; the reorder routines also return
an error code. -/
structure Kernels (V : Type) [Inhabited V] where
  /-- `hypre_CSRMatrixSetRownnz`: the recorded rows. -/
  setRownnz : Csr V → List ℕ
  /-- `hypre_CSRMatrixReorder` with the recorded rows. -/
  reorder : List ℕ → Csr V → Csr V × ℤ
  /-- `hypre_CSRMatrixMoveDiagFirstDevice`. -/
  moveDiagFirstDevice : Csr V → Csr V × ℤ
  mem_setRownnz : ∀ {c : Csr V} {i : ℕ}, i ∈ setRownnz c ↔ i < c.numRows ∧ c.row i ≠ []
  reorder_rearranged : ∀ {rows : List ℕ} {c : Csr V}, c.RowWf → c.Rearranged (reorder rows c).1
  reorder_code : ∀ {rows : List ℕ} {c : Csr V}, c.RowWf →
    ((reorder rows c).2 = 0 ↔ ∀ i ∈ rows, HasDiagonal c i)
  reorder_first : ∀ {rows : List ℕ} {c : Csr V}, c.RowWf → (reorder rows c).2 = 0 →
    ∀ i ∈ rows, i < c.numRows → ∃ e, ((reorder rows c).1.row i).head? = some e ∧ e.1 = i
  moveDiagFirstDevice_rearranged : ∀ {c : Csr V}, c.RowWf → c.Rearranged (moveDiagFirstDevice c).1

/-! ## The documented routines -/

/-- Swaps the first diagonal entry of row `i` with the first entry. -/
def diagFirst (i : ℕ) (row : List (ℤ × V)) : List (ℤ × V) :=
  match row.findIdx? fun e => e.1 = (i : ℤ) with
  | some k => (row.set 0 (row.getD k default)).set k (row.getD 0 default)
  | none => row

theorem diagFirst_perm (i : ℕ) (row : List (ℤ × V)) : (diagFirst i row).Perm row := by
  unfold diagFirst
  split
  · rename_i k hk
    obtain ⟨hlt, -, -⟩ := List.findIdx?_eq_some_iff_getElem.mp hk
    have h0 : 0 < row.length := by omega
    have := List.set_set_perm h0 hlt
    simpa [List.getD_eq_getElem?_getD, List.getElem?_eq_getElem hlt, List.getElem?_eq_getElem h0]
  · exact .refl _

theorem head_diagFirst {i : ℕ} {row : List (ℤ × V)} (h : ∃ e ∈ row, e.1 = i) :
    ∃ e, (diagFirst i row).head? = some e ∧ e.1 = i := by
  obtain ⟨e, he, hei⟩ := h
  unfold diagFirst
  split
  · rename_i k hk
    obtain ⟨hlt, hdiag, -⟩ := List.findIdx?_eq_some_iff_getElem.mp hk
    refine ⟨row[k], ?_, by simpa using hdiag⟩
    have h0 : 0 < row.length := by omega
    rcases Nat.eq_zero_or_pos k with rfl | hpos
    · simp [List.head?_eq_getElem?, h0]
    · have hk0 : k ≠ 0 := by omega
      simp [List.head?_eq_getElem?, hk0, h0, hlt]
  · rename_i hnone
    have := List.findIdx?_eq_none_iff.mp hnone e he
    simp [hei] at this

/-- The recorded rows that are reordered: those before the first one without a diagonal entry. -/
def reorderedRows (rows : List ℕ) (c : Csr V) : List ℕ := rows.takeWhile fun i => HasDiagonal c i

def reorderRow (rows : List ℕ) (c : Csr V) (i : ℕ) : List (ℤ × V) :=
  if i ∈ reorderedRows rows c then diagFirst i (c.row i) else c.row i

theorem reorderRow_perm (rows : List ℕ) (c : Csr V) (i : ℕ) :
    (reorderRow rows c i).Perm (c.row i) := by
  unfold reorderRow
  split
  · exact diagFirst_perm _ _
  · exact .refl _

def Kernels.documented (V : Type) [Inhabited V] : Kernels V where
  setRownnz c := (List.range c.numRows).filter fun i => !(c.row i).isEmpty
  reorder rows c := (c.withRows (reorderRow rows c), if ∀ i ∈ rows, HasDiagonal c i then 0 else 1)
  moveDiagFirstDevice c := (c.withRows fun i => diagFirst i (c.row i), 0)
  mem_setRownnz := by simp
  reorder_rearranged h := Csr.rearranged_withRows h fun i _ => reorderRow_perm _ _ i
  reorder_code _ := by
    dsimp only
    split <;> simp_all
  reorder_first {rows c} h hcode i hi hlt := by
    have hall : ∀ i ∈ rows, HasDiagonal c i := by
      by_contra hall
      simp [hall] at hcode
    have hrows : reorderedRows rows c = rows :=
      List.takeWhile_eq_self_iff.mpr fun i hi => decide_eq_true (hall i hi)
    rw [Csr.row_withRows h (fun i _ => (reorderRow_perm _ _ i).length_eq) hlt, reorderRow, hrows,
      if_pos hi]
    exact head_diagFirst (hall i hi)
  moveDiagFirstDevice_rearranged h := Csr.rearranged_withRows h fun i _ => diagFirst_perm i _

/-- The documented routine accepts a block, of any shape, in which the recorded rows have their
diagonals. -/
theorem documented_reorder_code {rows : List ℕ} {c : Csr V} (h : ∀ i ∈ rows, HasDiagonal c i) :
    ((Kernels.documented V).reorder rows c).2 = 0 := if_pos h

end GinkgoTpl.Hypre
