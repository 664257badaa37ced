import GinkgoTpl.Hypre.Shutdown
import GinkgoTpl.Memory.Lifetimes
import GinkgoTpl.Transition.Throwing

/-!
# What a generation creates and destroys

The constructor of `Pcg` on one rank once more, with the objects of its scopes at each step: the
`par_csr` that an importer fills, the vector whose constructor runs, the two vectors of the setup
and the shared state. An exception finds them as the last step has left them, and their
destructors run from the innermost scope outwards. Here any call may fail, those of MPI too, and a
call that fails may have made its object all the same.
-/

namespace GinkgoTpl.Hypre

open Sparse Memory Ginkgo Spmd Transition

variable {P : ℕ} {V : Type} [Inhabited V]

/-! ## The resources of hypre -/

inductive ResourceKind where
  | parCsrMatrix
  | boomerAmg
  | pcg
  | vector
  /-- An array that hypre has allocated. -/
  | array
  deriving DecidableEq

structure Resource where
  kind : ResourceKind
  addr : ℕ
  deriving DecidableEq

/-- The solvers use the matrix they are set up with. -/
def Uses (user used : Resource) : Prop :=
  (user.kind = .boomerAmg ∨ user.kind = .pcg) ∧ used.kind = .parCsrMatrix

/-- The arrays that `hypre_CSRMatrixDestroy` frees: the row pointers always, the columns and the
values if the block owns them. -/
def HypreCsr.frees (b : HypreCsr) : List ℕ :=
  b.i.toList ++ if b.ownsData then b.j.toList ++ b.data.toList else []

/-- The arrays that `hypre_ParCSRMatrixDestroy` frees. -/
def ParCsrMatrix.frees (matrix : ParCsrMatrix) : List ℕ :=
  matrix.diag.frees ++ matrix.offd.frees ++ matrix.colMapOffd.toList

/-- What a call of a destructor destroys. -/
def DestroyCall.destroys : DestroyCall → List Resource
  | .pcgDestroy solver => [⟨.pcg, solver⟩]
  | .boomerAmgDestroy solver => [⟨.boomerAmg, solver⟩]
  | .ijVectorDestroy vector | .parVectorDestroy vector => [⟨.vector, vector⟩]
  | .parCsrMatrixDestroy matrix =>
    matrix.frees.map (⟨.array, ·⟩) ++ [⟨.parCsrMatrix, matrix.handle⟩]

def destroyEvents (calls : List DestroyCall) : List (ResourceEvent Resource) :=
  (calls.flatMap DestroyCall.destroys).map .destroy

/-- All arrays of a block. -/
def HypreCsr.arrays (b : HypreCsr) : List ℕ := b.i.toList ++ b.j.toList ++ b.data.toList

/-- The arrays that the matrix borrows. -/
def ParCsr.borrowed (result : ParCsr) : List ℕ :=
  match result.matrix with
  | some matrix => matrix.diag.arrays ++ if result.distributed then matrix.offd.arrays else []
  | none => []

/-- The memory that the system matrix is stored in. -/
def SystemMatrix.heap : SystemMatrix P V → Heap (Buffer V)
  | .csr _ mem => mem.heap
  | .distributed _ mem => mem.heap
  | .other .. => ⟨[]⟩

/-! ## The state of a construction -/

/-- A vector before its constructor's body. -/
def PlacedVector.empty : PlacedVector := ⟨none, none, false⟩

structure Construction (V : Type) where
  heap : Heap (Buffer V)
  policy : PolicyState
  log : List (ResourceEvent Resource)
  /-- The object that an importer fills. -/
  result : ParCsr
  /-- The vector whose constructor runs. -/
  vector : PlacedVector
  dummyB : Option PlacedVector
  dummyX : Option PlacedVector
  state : PcgState

/-- A computation of the constructor. -/
abbrev Constructing (V α : Type) := EStateM Error (Construction V) α

/-- A step that only may throw. -/
abbrev Constructing.ofExcept {α : Type} (x : Except Error α) : Constructing V α :=
  MonadExcept.ofExcept x

/-- The ends of the two phases of the constructor. -/
inductive ConstructorPhase where
  | imported
  | setUp

inductive MpiCall where
  | scan
  | barrier (phase : ConstructorPhase)
  | allreduceMax
  | allreduceSum

/-- How calls fail. -/
structure Faults where
  /-- Whether a failing call has made its object all the same. -/
  makes : HypreCall → Bool
  /-- Whether a failing initialization of the matrix has allocated the row pointers of a block and
  the map of the columns. -/
  rowPtrs : Bool
  colMap : Bool
  /-- The code of the synchronization at the end of a phase. -/
  sync : ConstructorPhase → ℤ
  mpi : MpiCall → Except Error Unit

/-- MPI does not fail, and a failing call of hypre makes nothing. -/
def Faults.none : Faults where
  makes _ := false
  rowPtrs := false
  colMap := false
  sync _ := 0
  mpi _ := .ok ()

namespace Construction

/-- Before the constructor's body. -/
def new (heap : Heap (Buffer V)) (policy : PolicyState) : Construction V :=
  ⟨heap, policy, [], .new, .empty, none, none, .new⟩

/-- hypre makes a resource at the next address. -/
def create (s : Construction V) (kind : ResourceKind) (contents : Buffer V) : Construction V :=
  { s with heap := s.heap.alloc contents, log := s.log ++ [.create ⟨kind, s.heap.next⟩] }

/-- The destructors that an exception runs, or the end of the constructor and later that of the
last object that shares the state. -/
def unwind (s : Construction V) (p : Process) : List DestroyCall :=
  s.dummyX.elim [] (·.destroy p) ++
    s.dummyB.elim [] (·.destroy p) ++
    ((s.result.destroy p).map .parCsrMatrixDestroy).toList ++
    s.state.destroy p

/-- `destroy` in the constructor of a vector: what it has made so far is destroyed. -/
def abandonVector (s : Construction V) (p : Process) : Construction V :=
  { s with log := s.log ++ destroyEvents (s.vector.destroy p), vector := .empty }

def setMatrix (matrix : ParCsrMatrix) (s : Construction V) : Construction V :=
  { s with result := { s.result with matrix := some matrix } }

/-! ## The steps -/

def setProcessPolicy (build : Build) (hypre : Lib V) (location : MemoryLocation) :
    Constructing V Unit := do
  let s ← get
  let policy ← .ofExcept (hypre.setProcessPolicy build location s.policy)
  modify fun s => { s with policy }

def check (hypre : Lib V) (call : HypreCall) : Constructing V Unit := .ofExcept (hypre.check call)

/-- A checked call that makes an object. -/
def make (hypre : Lib V) (faults : Faults) (call : HypreCall) (kind : ResourceKind)
    (hold : ℕ → Construction V → Construction V) : Constructing V Unit := do
  if hypre.code call = 0 ∨ faults.makes call then
    modify fun s => hold s.heap.next (s.create kind .object)
  check hypre call

/-- The row pointers that `hypre_CSRMatrixInitialize_v2` allocates for a block without any. -/
def allocRowPtrs (matrix : ParCsrMatrix) (s : Construction V) : ParCsrMatrix × Construction V :=
  if matrix.offd.i.isNone then
    ({ matrix with offd := { matrix.offd with i := some s.heap.next } },
      s.create .array (.ints (List.replicate (matrix.offd.numRows + 1).toNat 0)))
  else (matrix, s)

def allocColMap (matrix : ParCsrMatrix) (s : Construction V) : ParCsrMatrix × Construction V :=
  ({ matrix with colMapOffd := some s.heap.next },
    s.create .array (.ints (List.replicate matrix.offd.numCols.toNat 0)))

/-- `hypre_ParCSRMatrixInitialize_v2`. The diagonal block has its arrays already. -/
def initializeMatrix (hypre : Lib V) (faults : Faults) (matrix : ParCsrMatrix) :
    Constructing V ParCsrMatrix := do
  let succeeds : Bool := hypre.code .parCsrMatrixInitialize = 0
  let s ← get
  let (matrix, s) := if succeeds || faults.rowPtrs then allocRowPtrs matrix s else (matrix, s)
  let (matrix, s) := if succeeds || faults.colMap then allocColMap matrix s else (matrix, s)
  set (s.setMatrix matrix)
  check hypre .parCsrMatrixInitialize
  return matrix

/-- Permutes the diagonal block. -/
def reorderDiagFirst (build : Build) (hypre : Lib V) (matrix : ParCsrMatrix)
    (location : MemoryLocation) : Constructing V Unit := do
  let s ← get
  let heap ← .ofExcept (Hypre.reorderDiagFirst build hypre matrix.diag location s.heap)
  modify fun s => { s with heap }

/-- The end of both importers. -/
def finishParCsr (hypre : Lib V) (matrix : ParCsrMatrix) : Constructing V Unit := do
  check hypre .parCsrMatrixSetNumNonzeros
  if !matrix.hasCommPkg then
    check hypre .matvecCommPkgCreate
    modify (setMatrix { matrix with hasCommPkg := true })

/-! ## The importers -/

/-- Creates the matrix and sets its diagonal block. -/
def handSerial (build : Build) (mtx : Csr V) (mem : SerialMemory mtx) (globalRows : ℤ)
    (s : Construction V) : ParCsrMatrix × Construction V :=
  let nnz := mtx.values.length
  let matrix := ParCsrMatrix.create s.heap.next .self globalRows globalRows (0, globalRows)
    (0, globalRows) 0 (castInt build.intBits nnz) 0
  let s := s.create .parCsrMatrix .object
  let rowPtrs := asHypreInt build mem.arrays.rowPtrs (mtx.numRows + 1) s.heap
  let colIdxs := copyAsHypreInt build mem.arrays.colIdxs nnz rowPtrs.heap
  let diagValues := copyValues mem.arrays.values nnz colIdxs.heap
  let matrix := { matrix with
    diag := matrix.diag.setBlock rowPtrs.addr colIdxs.addr diagValues.addr
      (castInt build.intBits nnz) }
  (matrix, { s with
    heap := diagValues.heap
    result := { s.result with
      matrix := some matrix
      diagRowPtrs := rowPtrs.storage
      diagColIdxs := colIdxs.storage
      diagValues := diagValues.storage } })

/-- `build_serial_par_csr`. -/
def buildSerialParCsr (build : Build) (hypre : Lib V) (faults : Faults) (location : MemoryLocation)
    (systemMatrix : Block V) (mem : SerialMemory systemMatrix.csr) : Constructing V Unit :=
  if !systemMatrix.isCsr then throw (.notSupported systemMatrix.typeName)
  else do
    let mtx := systemMatrix.csr
    let globalRows ← .ofExcept (toHypreBigInt build.bigBits mtx.numRows)
    modify fun s => { s with result := { ParCsr.new with
      comm := .self
      numLocalRows := castInt build.intBits mtx.numRows
      globalRows
      memoryLocation := location
      systemMatrix := some mem.systemMatrix } }
    setProcessPolicy build hypre location
    let matrix ← modifyGet (handSerial build mtx mem globalRows)
    let matrix ← initializeMatrix hypre faults matrix
    let s ← get
    let matrix := { matrix with diag := setRownnz hypre matrix.diag s.heap }
    set (s.setMatrix matrix)
    reorderDiagFirst build hypre matrix location
    finishParCsr hypre matrix

/-- `hypre_ParCSRMatrixCreate` for the rows of the rank. -/
def createDistributed (build : Build) (L : LocalMatrix P V) (rowStart rowStop : ℤ)
    (s : Construction V) : ParCsrMatrix × Construction V :=
  let matrix := ParCsrMatrix.create s.heap.next s.result.comm s.result.globalRows
    s.result.globalRows (rowStart, rowStop) (rowStart, rowStop)
    (castInt build.intBits L.imap.getNonLocalSize)
    (castInt build.intBits L.diag.csr.values.length)
    (castInt build.intBits L.offDiag.csr.values.length)
  (matrix, { s.create .parCsrMatrix .object with
    result := { s.result with matrix := some matrix, rowStart } })

/-- Sets the two blocks of the matrix. -/
def handDistributed (build : Build) (L : LocalMatrix P V) (mem : RankMemory L)
    (matrix : ParCsrMatrix) (s : Construction V) : ParCsrMatrix × Construction V :=
  let diagNnz := castInt build.intBits L.diag.csr.values.length
  let offdNnz := castInt build.intBits L.offDiag.csr.values.length
  let blocks := handBlocks build L mem diagNnz offdNnz s.heap
  let matrix := { matrix with
    diag := matrix.diag.setBlock blocks.diagRows.addr blocks.diagCols.addr blocks.diagValues.addr
      diagNnz
    offd := matrix.offd.setBlock blocks.offdRows.addr blocks.offdCols.addr mem.offDiag.values
      offdNnz }
  (matrix, { s with
    heap := blocks.offdCols.heap
    result := { s.result with
      matrix := some matrix
      diagRowPtrs := blocks.diagRows.storage
      diagColIdxs := blocks.diagCols.storage
      diagValues := blocks.diagValues.storage
      offdRowPtrs := blocks.offdRows.storage
      offdColIdxs := blocks.offdCols.storage } })

/-- The map of the off-diagonal columns replaces the one that the initialization has made. -/
def replaceColMap (build : Build) (remote : ℕ) (numColsOffd : ℤ) (matrix : ParCsrMatrix) :
    Constructing V ParCsrMatrix := do
  .ofExcept (allocateArray numColsOffd)
  let s ← get
  let colMap := s.heap.next
  set (s.create .array (.ints (List.replicate (castSize numColsOffd) 0)))
  let globals ← .ofExcept (((ints s.heap remote).take (castSize numColsOffd)).mapM
    (toHypreBigInt build.bigBits))
  let freed := matrix.colMapOffd.toList.map fun a => .destroy ⟨.array, a⟩
  let matrix := { matrix with colMapOffd := some colMap }
  modify fun s => { s with
    heap := s.heap.write colMap (.ints globals), log := s.log ++ freed }.setMatrix matrix
  return matrix

/-- `build_distributed_par_csr`. -/
def buildDistributedParCsr (build : Build) (hypre : Lib V) (faults : Faults)
    (answer : (op : MpiOp) → op.Data → op.Data) (location : MemoryLocation)
    (L : LocalMatrix P V) (mem : RankMemory L) : Constructing V Unit :=
  if !L.rowPartition.any (·.hasOrderedParts) then
    throw (.notSupported ("distributed::Matrix without a row partition of " ++
      "contiguous parts ordered by rank"))
  else if !(L.diag.isCsr && L.offDiag.isCsr) then
    throw (.notSupported ("gko::experimental::distributed::Matrix<double, LocalIndexType, " ++
      "GlobalIndexType>"))
  else do
    let globalRows ← .ofExcept (toHypreBigInt build.bigBits L.size.1)
    modify fun s => { s with result := beforeScan build location L mem globalRows }
    setProcessPolicy build hypre location
    .ofExcept (faults.mpi .scan)
    let rowEnd : ℤ := answer .scan (L.diag.csr.numRows : ℤ)
    let rowStart ← .ofExcept (toHypreBigInt build.bigBits (rowEnd - L.diag.csr.numRows))
    let rowStop ← .ofExcept (toHypreBigInt build.bigBits rowEnd)
    let matrix ← modifyGet (createDistributed build L rowStart rowStop)
    .ofExcept (allocateArray (castInt build.intBits L.diag.csr.values.length))
    .ofExcept (allocateConverted build (castInt build.intBits L.offDiag.csr.values.length))
    let matrix ← modifyGet (handDistributed build L mem matrix)
    let matrix ← initializeMatrix hypre faults matrix
    let s ← get
    let matrix := { matrix with
      diag := setRownnz hypre matrix.diag s.heap
      offd := setRownnz hypre matrix.offd s.heap }
    set (s.setMatrix matrix)
    reorderDiagFirst build hypre matrix location
    let matrix ← replaceColMap build mem.remote (castInt build.intBits L.imap.getNonLocalSize)
      matrix
    finishParCsr hypre matrix

/-- The import of the system matrix. The state takes over the result, and the object that the
importer has filled is left empty. -/
def importMatrix (build : Build) (hypre : Lib V) (faults : Faults)
    (answer : (op : MpiOp) → op.Data → op.Data) (location : MemoryLocation)
    (systemMatrix : SystemMatrix P V) : Constructing V Unit := do
  match systemMatrix with
  | .csr mtx mem =>
    buildSerialParCsr build hypre faults location
      ⟨"gko::matrix::Csr<double, LocalIndexType>", true, mtx⟩ mem
  | .distributed L mem => buildDistributedParCsr build hypre faults answer location L mem
  | .other typeName _ => throw (.notSupported typeName)
  modify fun s => { s with
    result := s.state.matrix
    state := { s.state with matrix := s.result } }

/-! ## The vectors of the setup -/

/-- The body of the vector's constructor that may throw. -/
def placeVector (build : Build) (hypre : Lib V) (faults : Faults) (v : Operand)
    (rowStart localSize : ℤ) (values : ℕ) : Constructing V Unit :=
  if build.release ≥ 23300 then do
    make hypre faults (.ijVectorCreate v rowStart (rowStart + localSize - 1)) .vector
      fun a s => { s with vector := { s.vector with ijVector := some a } }
    check hypre (.ijVectorSetObjectType v)
    check hypre (.ijVectorInitializeShell v)
    check hypre (.ijVectorSetData v values)
    check hypre (.ijVectorAssemble v)
    check hypre (.ijVectorGetObject v)
    modify fun s => { s with
      heap := s.heap.alloc .object
      vector := { s.vector with vector := some s.heap.next } }
  else if hypre.parVectorNull v then
    throw (.invalidState "hypre_ParVectorCreate returned null")
  else do
    modify fun s => { s.create .vector .object with
      vector := { s.vector with vector := some s.heap.next, ownsParVector := true } }
    check hypre (.seqVectorSetDataOwner v)
    check hypre (.parVectorInitialize v)

/-- The constructor of the vector `v`, which destroys what it has made if it throws. -/
def placedVector (build : Build) (hypre : Lib V) (faults : Faults) (p : Process) (v : Operand)
    (rowStart localSize : ℤ) (values : ℕ) (location : MemoryLocation) : Constructing V Unit := do
  setProcessPolicy build hypre location
  onThrow (placeVector build hypre faults v rowStart localSize values) (·.abandonVector p)

/-! ## The constructor -/

def endOfPhase (build : Build) (hypre : Lib V) (faults : Faults) (device : Bool)
    (phase : ConstructorPhase) : Constructing V Unit := do
  if build.gpu ∧ device then
    let call : HypreCall := if build.release ≥ 23300 then .syncDevice else .syncCudaDevice
    .ofExcept (assertNoHypreErrors hypre.describe (faults.sync phase) call.text)
  .ofExcept (faults.mpi (.barrier phase))

def gridHierarchy (hypre : Lib V) (faults : Faults) (answer : (op : MpiOp) → op.Data → op.Data)
    (localRows : ℕ) : Constructing V Hierarchy := do
  let (code, lastLevel) := hypre.gridHierarchy
  let localMax := (List.range localRows).foldl (fun localMax i => max localMax (lastLevel i)) 0
  .ofExcept (faults.mpi .allreduceMax)
  let reduced : ℤ × ℤ := answer .allreduceMax (castInt 32 code, castInt 32 localMax + 1)
  if reduced.1 ≠ 0 then
    throw (hierarchyError hypre.describe reduced.1)
  else
    let numLevels := reduced.2
    .ofExcept (faults.mpi .allreduceSum)
    let rows : List ℤ := answer .allreduceSum (rowsOnLevels localRows lastLevel numLevels)
    return { numLevels := castSize numLevels, rowsPerLevel := rows.map castSize }

section
variable [Zero V]

/-- BoomerAMG and PCG with their setters and callbacks. -/
def createSolvers (hypre : Lib V) (faults : Faults) (params : Parameters) (device : Bool) :
    Constructing V Unit := do
  let s ← get
  let amg := s.heap.next
  make hypre faults .amgCreate .boomerAmg fun a s =>
    { s with state := { s.state with amg := some a } }
  .ofExcept (configureAmg hypre params device)
  .ofExcept (callBack params.amgSetup amg)
  let s ← get
  let pcg := s.heap.next
  make hypre faults .pcgCreate .pcg fun a s => { s with state := { s.state with pcg := some a } }
  .ofExcept (configurePcg hypre params)
  .ofExcept (callBack params.krylovSetup pcg)

/-- The arrays of the setup, and the two vectors over them. -/
def createVectors (build : Build) (hypre : Lib V) (faults : Faults) (p : Process)
    (matrix : ParCsr) : Constructing V Unit := do
  let zeros : Buffer V := .reals (List.replicate (max 1 (castSize matrix.numLocalRows)) 0)
  let s ← get
  let setupBValues := s.heap.next
  let setupXValues := s.heap.next + 1
  set { s with
    heap := (s.heap.alloc zeros).alloc zeros
    state := { s.state with
      setupBValues := some setupBValues, setupXValues := some setupXValues } }
  placedVector build hypre faults p .b matrix.rowStart matrix.numLocalRows setupBValues
    matrix.memoryLocation
  modify fun s => { s with vector := .empty, dummyB := some s.vector }
  placedVector build hypre faults p .x matrix.rowStart matrix.numLocalRows setupXValues
    matrix.memoryLocation
  modify fun s => { s with vector := .empty, dummyX := some s.vector }

/-- The constructor from the imported matrix on. -/
def setUp (build : Build) (hypre : Lib V) (faults : Faults)
    (answer : (op : MpiOp) → op.Data → op.Data) (p : Process) (params : Parameters) :
    Constructing V Unit := do
  let s ← get
  let matrix := s.state.matrix
  let device : Bool := matrix.memoryLocation = .device
  set { s with state := { s.state with device } }
  createSolvers hypre faults params device
  createVectors build hypre faults p matrix
  endOfPhase build hypre faults device .imported
  check hypre .pcgSetup
  endOfPhase build hypre faults device .setUp
  modify fun s => { s with
    dummyB := none
    dummyX := none
    state := { s.state with setupB := s.dummyB, setupX := s.dummyX } }
  -- the query is public since release 2.32
  if build.release ≥ 23200 then
    let hierarchy ← gridHierarchy hypre faults answer (castSize matrix.numLocalRows)
    modify fun s => { s with state := { s.state with hierarchyInfo := some hierarchy } }

/-- The constructor of `Pcg`. -/
def generate (build : Build) (hypre : Lib V) (faults : Faults)
    (answer : (op : MpiOp) → op.Data → op.Data) (p : Process) (location : MemoryLocation)
    (params : Parameters) (systemMatrix : SystemMatrix P V) : Constructing V Unit :=
  if !p.libraryInitialized then
    throw (.invalidState ("hypre is not initialized; create a gko::ext::hypre::environment " ++
      "before generating a gko::ext::hypre::solver::Pcg"))
  else if systemMatrix.size.1 ≠ systemMatrix.size.2 then
    throw (.dimensionMismatch "expected square matrix")
  else do
    setProcessPolicy build hypre location
    importMatrix build hypre faults answer location systemMatrix
    setUp build hypre faults answer p params

/-- The state that the constructor leaves, whether it returns or throws. -/
def left (build : Build) (hypre : Lib V) (faults : Faults)
    (answer : (op : MpiOp) → op.Data → op.Data) (p : Process) (location : MemoryLocation)
    (params : Parameters) (systemMatrix : SystemMatrix P V) (policy : PolicyState) :
    Construction V :=
  stateAfter (generate build hypre faults answer p location params systemMatrix)
    (.new systemMatrix.heap policy)

end

/-- All that hypre creates and destroys if the destructors run in `p`. -/
def lifetime (s : Construction V) (p : Process) : List (ResourceEvent Resource) :=
  s.log ++ destroyEvents (s.unwind p)

end Construction

end GinkgoTpl.Hypre
