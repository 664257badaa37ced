import GinkgoTpl.Ginkgo.DistMatrix
import GinkgoTpl.Hypre.Lib
import GinkgoTpl.Hypre.ParCsr

/-!
# Import into hypre

`hypre/detail/import.hpp`: a Ginkgo matrix becomes a hypre matrix without copying its off-diagonal
block and, where the index types agree, its row pointers. The columns and values of the diagonal
block are copied, because hypre permutes them in place.
-/

namespace GinkgoTpl.Hypre

open Sparse Memory Ginkgo Spmd

variable {P : ℕ} {A V : Type} [Inhabited V]

def toHypreBigInt (bits : ℕ) (value : ℤ) : Except Error ℤ :=
  if value < -2 ^ (bits - 1) ∨ value > 2 ^ (bits - 1) - 1 then
    .error (.invalidState ("index " ++ toString value ++ " does not fit into HYPRE_BigInt; a " ++
      "hypre build configured with --enable-bigint is required"))
  else .ok value

/-- `array{exec, static_cast<size_type>(size)}`: a negative size becomes a size beyond every memory,
and the allocation throws. -/
def allocateArray (size : ℤ) : Except Error Unit :=
  if size < 0 then .error (.allocationError "failed to allocate memory block") else .ok ()

/-- The array of `as_hypre_int`, which is only made where the index types differ. -/
def allocateConverted (build : Build) (size : ℤ) : Except Error Unit :=
  if build.sameInt then .ok () else allocateArray size

/-! ## Views of index arrays -/

/-- An array for hypre: its address, the wrapper's storage for it, and the memory. -/
structure Handed (V : Type) where
  addr : ℕ
  storage : Option ℕ
  heap : Heap (Buffer V)

/-- `as_hypre_int`: the array itself when the index types match, otherwise a converted copy. -/
def asHypreInt (build : Build) (data : ℕ) (size : ℕ) (heap : Heap (Buffer V)) : Handed V :=
  if build.sameInt then ⟨data, none, heap⟩
  else
    let hostConverted := ((ints heap data).take size).map (castInt build.intBits)
    ⟨heap.next, some heap.next, heap.alloc (.ints hostConverted)⟩

/-- `copy_as_hypre_int`: always a copy that hypre is free to permute. -/
def copyAsHypreInt (build : Build) (data : ℕ) (size : ℕ) (heap : Heap (Buffer V)) : Handed V :=
  if build.sameInt then
    ⟨heap.next, some heap.next, heap.alloc (.ints ((ints heap data).take size))⟩
  else asHypreInt build data size heap

/-- A copy of a value array. -/
def copyValues (data : ℕ) (size : ℕ) (heap : Heap (Buffer V)) : Handed V :=
  ⟨heap.next, some heap.next, heap.alloc (.reals ((reals heap data).take size))⟩

/-! ## Diagonal first -/

/-- `hypre_CSRMatrixSetRownnz`. -/
def setRownnz (hypre : Lib V) (block : HypreCsr) (heap : Heap (Buffer V)) : HypreCsr :=
  { block with rownnz := hypre.kernels.setRownnz (block.view heap) }

/-- Stores the contents that a routine of hypre has computed for a block in the block's arrays. -/
def storeBlock (block : HypreCsr) (c : Csr V) (heap : Heap (Buffer V)) : Heap (Buffer V) :=
  let heap := block.j.elim heap fun a => heap.write a (.ints c.colIdxs)
  block.data.elim heap fun a => heap.write a (.reals c.values)

/-- `reorder_diag_first`: permutes the columns and values of the diagonal block in place. -/
def reorderDiagFirst (build : Build) (hypre : Lib V) (diag : HypreCsr)
    (memoryLocation : MemoryLocation) (heap : Heap (Buffer V)) : Except Error (Heap (Buffer V)) :=
  if build.gpu ∧ memoryLocation = .device then do
    let (c, code) := hypre.kernels.moveDiagFirstDevice (diag.view heap)
    assertNoHypreErrors hypre.describe code "hypre_CSRMatrixMoveDiagFirstDevice(diag)"
    return storeBlock diag c heap
  else do
    let (c, code) := hypre.kernels.reorder diag.rownnz (diag.view heap)
    assertNoHypreErrors hypre.describe code "hypre_CSRMatrixReorder(diag)"
    return storeBlock diag c heap

/-! ## Distributed matrices -/

/-- The addresses of the arrays of a Csr matrix. -/
structure CsrArrays where
  rowPtrs : ℕ
  colIdxs : ℕ
  values : ℕ

/-- The arrays of a Csr matrix are in memory. -/
structure CsrArrays.Stored (a : CsrArrays) (c : Csr V) (h : Heap (Buffer V)) : Prop where
  rowPtrs : h.read a.rowPtrs = some (.ints c.rowPtrs)
  colIdxs : h.read a.colIdxs = some (.ints c.colIdxs)
  values : h.read a.values = some (.reals c.values)

/-- The memory of a rank, in which its part of a distributed matrix is stored. -/
structure RankMemory (L : LocalMatrix P V) where
  heap : Heap (Buffer V)
  systemMatrix : ℕ
  diag : CsrArrays
  offDiag : CsrArrays
  remote : ℕ
  diag_stored : diag.Stored L.diag.csr heap
  offDiag_stored : offDiag.Stored L.offDiag.csr heap
  remote_stored : heap.read remote = some (.ints (L.imap.remote.map (↑)))

/-- A memory that holds the part of a rank and nothing else. -/
def RankMemory.new (L : LocalMatrix P V) : RankMemory L where
  heap := ⟨[some .object, some (.ints L.diag.csr.rowPtrs), some (.ints L.diag.csr.colIdxs),
    some (.reals L.diag.csr.values), some (.ints L.offDiag.csr.rowPtrs),
    some (.ints L.offDiag.csr.colIdxs), some (.reals L.offDiag.csr.values),
    some (.ints (L.imap.remote.map (↑)))]⟩
  systemMatrix := 0
  diag := ⟨1, 2, 3⟩
  offDiag := ⟨4, 5, 6⟩
  remote := 7
  diag_stored := ⟨rfl, rfl, rfl⟩
  offDiag_stored := ⟨rfl, rfl, rfl⟩
  remote_stored := rfl

/-- The arrays that a rank hands to hypre, in the order in which they are made. The off-diagonal
block is never reordered, so its values stay Ginkgo's own array. -/
structure HandedBlocks (V : Type) where
  diagValues : Handed V
  diagRows : Handed V
  diagCols : Handed V
  offdRows : Handed V
  offdCols : Handed V

def handBlocks (build : Build) (L : LocalMatrix P V) (mem : RankMemory L) (diagNnz offdNnz : ℤ)
    (heap : Heap (Buffer V)) : HandedBlocks V :=
  let numLocalRows := L.diag.csr.numRows
  let diagValues := copyValues mem.diag.values (castSize diagNnz) heap
  let diagRows := asHypreInt build mem.diag.rowPtrs (numLocalRows + 1) diagValues.heap
  let diagCols := copyAsHypreInt build mem.diag.colIdxs (castSize diagNnz) diagRows.heap
  let offdRows := asHypreInt build mem.offDiag.rowPtrs (numLocalRows + 1) diagCols.heap
  let offdCols := asHypreInt build mem.offDiag.colIdxs (castSize offdNnz) offdRows.heap
  { diagValues, diagRows, diagCols, offdRows, offdCols }

/-- The hypre matrix of a rank with its two blocks set. -/
def setBlocks (build : Build) (L : LocalMatrix P V) (mem : RankMemory L) (result : ParCsr)
    (rowStart rowStop : ℤ) : ParCsrMatrix × HandedBlocks V :=
  let numColsOffd := castInt build.intBits L.imap.getNonLocalSize
  let diagNnz := castInt build.intBits L.diag.csr.values.length
  let offdNnz := castInt build.intBits L.offDiag.csr.values.length
  let matrix := ParCsrMatrix.create mem.heap.next result.comm result.globalRows result.globalRows
    (rowStart, rowStop) (rowStart, rowStop) numColsOffd diagNnz offdNnz
  let blocks := handBlocks build L mem diagNnz offdNnz (mem.heap.alloc .object)
  ({ matrix with
      diag := matrix.diag.setBlock blocks.diagRows.addr blocks.diagCols.addr
        blocks.diagValues.addr diagNnz
      offd := matrix.offd.setBlock blocks.offdRows.addr blocks.offdCols.addr
        mem.offDiag.values offdNnz }, blocks)

/-- The local part of `build_distributed_par_csr`, from the end of the scan to the next collective
call. -/
def localParCsr (build : Build) (hypre : Lib V) (L : LocalMatrix P V) (mem : RankMemory L)
    (result : ParCsr) (rowEnd : ℤ) : Except Error (ParCsr × ParCsrMatrix × Heap (Buffer V)) := do
  let rowStart ← toHypreBigInt build.bigBits (rowEnd - L.diag.csr.numRows)
  let rowStop ← toHypreBigInt build.bigBits rowEnd
  allocateArray (castInt build.intBits L.diag.csr.values.length)
  allocateConverted build (castInt build.intBits L.offDiag.csr.values.length)
  let (matrix, blocks) := setBlocks build L mem result rowStart rowStop
  let heap := blocks.offdCols.heap
  hypre.check .parCsrMatrixInitialize
  let diag := setRownnz hypre matrix.diag heap
  let offd := setRownnz hypre matrix.offd heap
  let heap ← reorderDiagFirst build hypre diag result.memoryLocation heap
  let numColsOffd := castInt build.intBits L.imap.getNonLocalSize
  allocateArray numColsOffd
  let colMap ← ((ints heap mem.remote).take (castSize numColsOffd)).mapM
    (toHypreBigInt build.bigBits)
  let matrix := { matrix with diag, offd, colMapOffd := some heap.next }
  let result := { result with
    rowStart
    diagRowPtrs := blocks.diagRows.storage
    diagColIdxs := blocks.diagCols.storage
    diagValues := blocks.diagValues.storage
    offdRowPtrs := blocks.offdRows.storage
    offdColIdxs := blocks.offdCols.storage }
  return (result, matrix, heap.alloc (.ints colMap))

/-- The end of `build_distributed_par_csr`, which is collective. -/
def finishParCsr (hypre : Lib V) (result : ParCsr) (matrix : ParCsrMatrix) :
    Program (mpi P) A Error ParCsr := do
  enterLibrary .hypreParCsrMatrixSetNumNonzeros
  Program.ofExcept (hypre.check .parCsrMatrixSetNumNonzeros)
  if matrix.hasCommPkg then
    return { result with matrix := some matrix }
  else
    enterLibrary .hypreMatvecCommPkgCreate
    Program.ofExcept (hypre.check .matvecCommPkgCreate)
    return { result with matrix := some { matrix with hasCommPkg := true } }

/-- The record that a rank has filled before the scan. -/
def beforeScan (build : Build) (memoryLocation : MemoryLocation) (L : LocalMatrix P V)
    (mem : RankMemory L) (globalRows : ℤ) : ParCsr :=
  { ParCsr.new with
    comm := .matrix
    distributed := true
    numLocalRows := castInt build.intBits L.diag.csr.numRows
    globalRows
    memoryLocation
    systemMatrix := some mem.systemMatrix }

/-- `build_distributed_par_csr`. The partition is the same on every rank, so throwing before the
first collective call cannot leave other ranks waiting. -/
def buildDistributedParCsr (build : Build) (hypre : Lib V) (memoryLocation : MemoryLocation)
    (L : LocalMatrix P V) (mem : RankMemory L) (policy : PolicyState) :
    Program (mpi P) A Error (ParCsr × PolicyState × Heap (Buffer V)) :=
  if !L.rowPartition.any (·.hasOrderedParts) then
    .raise (.notSupported ("distributed::Matrix without a row partition of " ++
      "contiguous parts ordered by rank"))
  else if !(L.diag.isCsr && L.offDiag.isCsr) then
    .raise (.notSupported ("gko::experimental::distributed::Matrix<double, LocalIndexType, " ++
      "GlobalIndexType>"))
  else do
    let globalRows ← Program.ofExcept (toHypreBigInt build.bigBits L.size.1)
    let result := beforeScan build memoryLocation L mem globalRows
    let policy ← Program.ofExcept (hypre.setProcessPolicy build memoryLocation policy)
    let rowEnd ← mpiScan L.diag.csr.numRows
    let (result, matrix, heap) ← Program.ofExcept (localParCsr build hypre L mem result rowEnd)
    let result ← finishParCsr hypre result matrix
    return (result, policy, heap)

/-! ## Serial matrices -/

/-- The memory in which the serial system matrix is stored. -/
structure SerialMemory (mtx : Csr V) where
  heap : Heap (Buffer V)
  systemMatrix : ℕ
  arrays : CsrArrays
  stored : arrays.Stored mtx heap

/-- A memory that holds the serial system matrix and nothing else. -/
def SerialMemory.new (mtx : Csr V) : SerialMemory mtx where
  heap := ⟨[some .object, some (.ints mtx.rowPtrs), some (.ints mtx.colIdxs),
    some (.reals mtx.values)]⟩
  systemMatrix := 0
  arrays := ⟨1, 2, 3⟩
  stored := ⟨rfl, rfl, rfl⟩

/-- `build_serial_par_csr`: a one-rank matrix on `MPI_COMM_SELF`, with no off-diagonal block; the
calls that are collective have nobody to wait for. -/
def buildSerialParCsr (build : Build) (hypre : Lib V) (memoryLocation : MemoryLocation)
    (systemMatrix : Block V) (mem : SerialMemory systemMatrix.csr) (policy : PolicyState) :
    Except Error (ParCsr × PolicyState × Heap (Buffer V)) :=
  if !systemMatrix.isCsr then .error (.notSupported systemMatrix.typeName)
  else do
    let mtx := systemMatrix.csr
    let nnz := mtx.values.length
    let globalRows ← toHypreBigInt build.bigBits mtx.numRows
    let policy ← hypre.setProcessPolicy build memoryLocation policy
    let heap := mem.heap.alloc .object
    let matrix := ParCsrMatrix.create mem.heap.next .self globalRows globalRows (0, globalRows)
      (0, globalRows) 0 (castInt build.intBits nnz) 0
    let rowPtrs := asHypreInt build mem.arrays.rowPtrs (mtx.numRows + 1) heap
    let colIdxs := copyAsHypreInt build mem.arrays.colIdxs nnz rowPtrs.heap
    let diagValues := copyValues mem.arrays.values nnz colIdxs.heap
    let heap := diagValues.heap
    let diag := matrix.diag.setBlock rowPtrs.addr colIdxs.addr diagValues.addr
      (castInt build.intBits nnz)
    hypre.check .parCsrMatrixInitialize
    let diag := setRownnz hypre diag heap
    let heap ← reorderDiagFirst build hypre diag memoryLocation heap
    hypre.check .parCsrMatrixSetNumNonzeros
    if !matrix.hasCommPkg then hypre.check .matvecCommPkgCreate
    return ({ matrix := some { matrix with diag, hasCommPkg := true }
              comm := .self
              distributed := false
              numLocalRows := castInt build.intBits mtx.numRows
              rowStart := 0
              globalRows
              memoryLocation
              diagRowPtrs := rowPtrs.storage
              diagColIdxs := colIdxs.storage
              diagValues := diagValues.storage
              offdRowPtrs := none
              offdColIdxs := none
              systemMatrix := some mem.systemMatrix }, policy, heap)

end GinkgoTpl.Hypre
