import GinkgoTpl.Error
import GinkgoTpl.Ginkgo.DistMatrix
import GinkgoTpl.MachineInt
import GinkgoTpl.Mpi

/-!
# Import into PETSc

`petsc/detail/import.hpp`: a Ginkgo matrix is copied into global (row, column, value) triplets.
`PetscInt` is a signed integer of `bits` bits, and every index is checked before it is stored.
-/

namespace GinkgoTpl.Petsc

open Sparse Ginkgo Spmd

variable {P : ℕ} {A V : Type} [Inhabited V]

def toPetscInt (bits : ℕ) (value : ℤ) : Except Error ℤ :=
  if value < -2 ^ (bits - 1) ∨ value > 2 ^ (bits - 1) - 1 then
    .error (.invalidState ("index " ++ toString value ++ " does not fit into PetscInt; a PETSc " ++
      "build configured with --with-64-bit-indices is required"))
  else .ok value

/-- A matrix as global (row, column, value) triplets, with the number of rows this rank owns. -/
structure CooData (V : Type) where
  comm : Comm
  distributed : Bool
  numLocalRows : ℤ
  rows : List ℤ
  cols : List ℤ
  values : List V

/-- One pass of the loop body of `append_block`. -/
def pushEntry (bits : ℕ) (coo : CooData V) (row col : ℤ) (value : V) :
    Except Error (CooData V) := do
  let row ← toPetscInt bits row
  let col ← toPetscInt bits col
  return { coo with
    rows := coo.rows ++ [row]
    cols := coo.cols ++ [col]
    values := coo.values ++ [value] }

/-- Appends the entries of a Csr block: row `i` of the block is global row `rowOffset + i`, and
entry `k` is in global column `globalCols[k]`. -/
def appendBlock (bits : ℕ) (block : Csr V) (rowOffset : ℤ) (globalCols : List ℤ) (coo : CooData V) :
    Except Error (CooData V) :=
  (List.range block.numRows).foldlM (fun coo row =>
    (block.span row).foldlM (fun coo k =>
      pushEntry bits coo (rowOffset + row) (globalCols.getD k 0) (block.entryAt k).2) coo) coo

/-- `hostCsr` is the system matrix, copied and converted to a host Csr. -/
def buildSerialCoo (bits : ℕ) (hostCsr : Csr V) : Except Error (CooData V) := do
  let numLocalRows ← toPetscInt bits hostCsr.numRows
  appendBlock bits hostCsr 0 hostCsr.colIdxs
    { comm := .self, distributed := false, numLocalRows, rows := [], cols := [], values := [] }

/-- What `build_distributed_coo` does once it knows the first row of this rank. -/
def cooFromRow (bits : ℕ) (systemMatrix : LocalMatrix P V) (rowStart : ℤ) :
    Except Error (CooData V) := do
  let diag := systemMatrix.diag.csr
  let offDiag := systemMatrix.offDiag.csr
  let imap := systemMatrix.imap
  let diagCols := imap.mapToGlobal diag.colIdxs .«local»
  let offDiagCols := imap.mapToGlobal offDiag.colIdxs .nonLocal
  let numLocalRows ← toPetscInt bits diag.numRows
  let coo :=
    { comm := .matrix, distributed := true, numLocalRows, rows := [], cols := [], values := [] }
  let coo ← appendBlock bits diag rowStart diagCols coo
  appendBlock bits offDiag rowStart offDiagCols coo

/-- The blocks are copied and converted to Csr, whatever their type. The partition is the same on
all ranks, so throwing before the collective call cannot leave other ranks waiting. -/
def buildDistributedCoo (bits : ℕ) (systemMatrix : LocalMatrix P V) :
    Program (mpi P) A Error (CooData V) :=
  if !systemMatrix.rowPartition.any (·.hasOrderedParts) then
    .raise (.notSupported ("distributed::Matrix without a row partition of " ++
      "contiguous parts ordered by rank"))
  else do
    let numLocalRows : ℤ := systemMatrix.diag.csr.numRows
    let rowEnd ← mpiScan numLocalRows
    Program.ofExcept (cooFromRow bits systemMatrix (rowEnd - numLocalRows))

/-! ## What the loops append -/

theorem toPetscInt_eq_ok {bits : ℕ} {value v : ℤ} :
    toPetscInt bits value = .ok v ↔ IntFits bits value ∧ v = value := by
  unfold toPetscInt IntFits
  split
  · rename_i h
    simp only [reduceCtorEq, false_iff, not_and]
    rintro ⟨h1, h2⟩; omega
  · rename_i h
    rw [not_or, not_lt, not_lt] at h
    simp [h, eq_comm]

/-- The triplets of a block, in the order in which the loops visit them. -/
def blockTriplets (block : Csr V) (rowOffset : ℤ) (globalCols : List ℤ) : List (ℤ × ℤ × V) :=
  block.positions.map fun p => (rowOffset + p.1, globalCols.getD p.2 0, (block.entryAt p.2).2)

namespace CooData

def triplets (coo : CooData V) : List (ℤ × ℤ × V) := coo.rows.zip (coo.cols.zip coo.values)

def append (coo : CooData V) (ts : List (ℤ × ℤ × V)) : CooData V :=
  { coo with
    rows := coo.rows ++ ts.map (·.1)
    cols := coo.cols ++ ts.map (·.2.1)
    values := coo.values ++ ts.map (·.2.2) }

omit [Inhabited V] in
theorem append_append (coo : CooData V) (ts us : List (ℤ × ℤ × V)) :
    (coo.append ts).append us = coo.append (ts ++ us) := by simp [append]

omit [Inhabited V] in
/-- The triplets appended to no triplets. -/
theorem triplets_append {coo : CooData V} (hr : coo.rows = []) (hc : coo.cols = [])
    (hv : coo.values = []) (ts : List (ℤ × ℤ × V)) : (coo.append ts).triplets = ts := by
  simp only [triplets, append, hr, hc, hv, List.nil_append, List.zip_map']
  exact (List.map_congr_left fun _ _ => rfl).trans (List.map_id ts)

end CooData

/-- Both indices of a triplet fit into `PetscInt`. -/
def TripletFits (bits : ℕ) (t : ℤ × ℤ × V) : Prop := IntFits bits t.1 ∧ IntFits bits t.2.1

omit [Inhabited V] in
theorem pushEntry_eq_ok {bits : ℕ} {coo coo' : CooData V} {t : ℤ × ℤ × V} :
    pushEntry bits coo t.1 t.2.1 t.2.2 = .ok coo' ↔ TripletFits bits t ∧ coo' = coo.append [t] := by
  simp only [pushEntry, bind_eq_ok, toPetscInt_eq_ok, pure, Except.pure, Except.ok.injEq]
  constructor
  · rintro ⟨_, ⟨h1, rfl⟩, _, ⟨h2, rfl⟩, rfl⟩
    exact ⟨⟨h1, h2⟩, rfl⟩
  · rintro ⟨⟨h1, h2⟩, rfl⟩
    exact ⟨_, ⟨h1, rfl⟩, _, ⟨h2, rfl⟩, rfl⟩

omit [Inhabited V] in
theorem foldlM_pushEntry_eq_ok {bits : ℕ} {ts : List (ℤ × ℤ × V)} {coo coo' : CooData V} :
    ts.foldlM (fun coo t => pushEntry bits coo t.1 t.2.1 t.2.2) coo = .ok coo' ↔
      (∀ t ∈ ts, TripletFits bits t) ∧ coo' = coo.append ts := by
  induction ts generalizing coo with
  | nil => simp [CooData.append, pure, Except.pure, eq_comm]
  | cons t ts ih =>
    simp only [List.foldlM_cons, bind_eq_ok, pushEntry_eq_ok, ih, List.forall_mem_cons]
    constructor
    · rintro ⟨_, ⟨h1, rfl⟩, h2, rfl⟩
      exact ⟨⟨h1, h2⟩, by rw [CooData.append_append, List.singleton_append]⟩
    · rintro ⟨⟨h1, h2⟩, rfl⟩
      exact ⟨_, ⟨h1, rfl⟩, h2, by rw [CooData.append_append, List.singleton_append]⟩

/-- The nested loops are one loop over the triplets of the block. -/
theorem appendBlock_eq_foldlM (bits : ℕ) (block : Csr V) (rowOffset : ℤ) (globalCols : List ℤ)
    (coo : CooData V) : appendBlock bits block rowOffset globalCols coo =
      (blockTriplets block rowOffset globalCols).foldlM
        (fun coo t => pushEntry bits coo t.1 t.2.1 t.2.2) coo := by
  simp only [appendBlock, blockTriplets, Csr.positions, List.foldlM_map]
  generalize List.range block.numRows = rows
  induction rows generalizing coo with
  | nil => rfl
  | cons i rows ih =>
    rw [List.foldlM_cons, List.flatMap_cons, List.foldlM_append, List.foldlM_map]
    simp only [ih]

/-- The loops return exactly if all indices of the block fit, and then have appended the block's
triplets. -/
theorem appendBlock_eq_ok {bits : ℕ} {block : Csr V} {rowOffset : ℤ} {globalCols : List ℤ}
    {coo coo' : CooData V} : appendBlock bits block rowOffset globalCols coo = .ok coo' ↔
      (∀ t ∈ blockTriplets block rowOffset globalCols, TripletFits bits t) ∧
        coo' = coo.append (blockTriplets block rowOffset globalCols) := by
  rw [appendBlock_eq_foldlM, foldlM_pushEntry_eq_ok]

end GinkgoTpl.Petsc
