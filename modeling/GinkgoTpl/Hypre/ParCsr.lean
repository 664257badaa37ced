import GinkgoTpl.Hypre.Policy
import GinkgoTpl.MachineInt
import GinkgoTpl.Memory.Heap
import GinkgoTpl.Mpi
import GinkgoTpl.Sparse.Csr

/-!
# hypre matrices over Ginkgo's memory

The `par_csr` of `hypre/detail/import.hpp`. A hypre matrix consists of two Csr blocks that point
at arrays in memory; the wrapper sets them to Ginkgo's arrays or to copies that `ParCsr` owns.
`HypreCsr.view` is the matrix that a block describes in a given memory.
-/

namespace GinkgoTpl.Hypre

open Sparse Memory

variable {V : Type}

/-- What a piece of memory holds: an array, or an object of hypre. -/
inductive Buffer (V : Type) where
  | ints (l : List ℤ)
  | reals (l : List V)
  | object

/-- How many elements an array has. -/
def Buffer.size : Buffer V → ℕ
  | ints l => l.length
  | reals l => l.length
  | object => 1

section
variable (h : Heap (Buffer V)) (a : ℕ)

/-- The integer array at an address. -/
def ints : List ℤ :=
  match h.read a with
  | some (.ints l) => l
  | _ => []

/-- The value array at an address. -/
def reals : List V :=
  match h.read a with
  | some (.reals l) => l
  | _ => []

variable {h a}

theorem ints_eq {l : List ℤ} (ha : h.read a = some (.ints l)) : ints h a = l := by simp [ints, ha]

theorem reals_eq {l : List V} (ha : h.read a = some (.reals l)) : reals h a = l := by
  simp [reals, ha]

end

/-- `hypre_CSRMatrix`. -/
structure HypreCsr where
  numRows : ℤ
  numCols : ℤ
  numNonzeros : ℤ
  i : Option ℕ
  j : Option ℕ
  data : Option ℕ
  ownsData : Bool
  /-- The rows that `hypre_CSRMatrixSetRownnz` has recorded. -/
  rownnz : List ℕ

namespace HypreCsr

/-- A block without arrays. -/
def new (numRows numCols numNonzeros : ℤ) : HypreCsr :=
  ⟨numRows, numCols, numNonzeros, none, none, none, true, []⟩

/-- The matrix that the block describes. -/
def view (b : HypreCsr) (h : Heap (Buffer V)) : Csr V where
  numRows := b.numRows.toNat
  numCols := b.numCols.toNat
  rowPtrs := b.i.elim [] (ints h)
  colIdxs := b.j.elim [] (ints h)
  values := b.data.elim [] (reals h)

/-- `set_block`: points the block at arrays that it does not own. -/
def setBlock (b : HypreCsr) (rowPtrs colIdxs values : ℕ) (numNonzeros : ℤ) : HypreCsr :=
  { b with
    i := some rowPtrs
    j := some colIdxs
    data := some values
    numNonzeros
    ownsData := false }

/-- Nulls the array pointers, so that destroying the block leaves the arrays alone. -/
def detach (b : HypreCsr) : HypreCsr := { b with i := none, j := none, data := none }

end HypreCsr

/-- `hypre_ParCSRMatrix`. -/
structure ParCsrMatrix where
  handle : ℕ
  comm : Comm
  globalRows : ℤ
  globalCols : ℤ
  rowStarts : ℤ × ℤ
  colStarts : ℤ × ℤ
  diag : HypreCsr
  offd : HypreCsr
  colMapOffd : Option ℕ
  hasCommPkg : Bool

/-- `hypre_ParCSRMatrixCreate`: the blocks have as many rows and columns as their ranges. -/
def ParCsrMatrix.create (handle : ℕ) (comm : Comm) (globalRows globalCols : ℤ)
    (rowStarts colStarts : ℤ × ℤ) (numColsOffd numNonzerosDiag numNonzerosOffd : ℤ) :
    ParCsrMatrix where
  handle := handle
  comm := comm
  globalRows := globalRows
  globalCols := globalCols
  rowStarts := rowStarts
  colStarts := colStarts
  diag := .new (rowStarts.2 - rowStarts.1) (colStarts.2 - colStarts.1) numNonzerosDiag
  offd := .new (rowStarts.2 - rowStarts.1) numColsOffd numNonzerosOffd
  colMapOffd := none
  hasCommPkg := false

/-- A hypre matrix over Ginkgo's memory, with the arrays that it owns itself and the address of
the system matrix that it keeps alive. -/
structure ParCsr where
  matrix : Option ParCsrMatrix
  comm : Comm
  distributed : Bool
  numLocalRows : ℤ
  rowStart : ℤ
  globalRows : ℤ
  memoryLocation : MemoryLocation
  diagRowPtrs : Option ℕ
  diagColIdxs : Option ℕ
  diagValues : Option ℕ
  offdRowPtrs : Option ℕ
  offdColIdxs : Option ℕ
  systemMatrix : Option ℕ

/-- The default constructor. -/
def ParCsr.new : ParCsr :=
  ⟨none, .null, false, 0, 0, 0, .host, none, none, none, none, none, none⟩

/-- The destructor: the matrix it hands to `hypre_ParCSRMatrixDestroy`, if it calls hypre. The
off-diagonal block of a serial matrix is hypre's own and is left to it. -/
def ParCsr.destroy (result : ParCsr) (p : Process) : Option ParCsrMatrix :=
  match result.matrix with
  | some matrix =>
    if p.libraryInitialized && !p.libraryFinalized then
      let matrix := { matrix with diag := matrix.diag.detach }
      some (if result.distributed then { matrix with offd := matrix.offd.detach } else matrix)
    else none
  | none => none

/-! ## What a hypre matrix describes -/

namespace ParCsr

variable (result : ParCsr) (h : Heap (Buffer V))

def diagBlock : Csr V :=
  match result.matrix with
  | some matrix => matrix.diag.view h
  | none => (HypreCsr.new 0 0 0).view h

def offdBlock : Csr V :=
  match result.matrix with
  | some matrix => matrix.offd.view h
  | none => (HypreCsr.new 0 0 0).view h

/-- `col_map_offd`: the global numbers of the columns of the off-diagonal block. -/
def colMap : List ℤ := (result.matrix.bind ParCsrMatrix.colMapOffd).elim [] (ints h)

/-- The global column of column `j` of the off-diagonal block. -/
def offdCol (j : ℤ) : ℤ := (result.colMap h).getD j.toNat 0

variable [Inhabited V]

/-- The entries of both blocks in global numbers: row `i` is row `rowStart + i`, and column `j` of
the diagonal block is column `rowStart + j`. -/
def triplets : List (ℤ × ℤ × V) :=
  (result.diagBlock h).entries.map
      (fun e => (result.rowStart + e.1, result.rowStart + e.2.1, e.2.2)) ++
    (result.offdBlock h).entries.map fun e => (result.rowStart + e.1, result.offdCol h e.2.1, e.2.2)

/-- Row `i` of the product with `x`, as hypre forms it. -/
def rowProduct [Semiring V] (x : ℤ → V) (i : ℕ) : V :=
  (result.diagBlock h).rowDot (fun j => x (result.rowStart + j)) i +
    (result.offdBlock h).rowDot (fun j => x (result.offdCol h j)) i

end ParCsr

end GinkgoTpl.Hypre
