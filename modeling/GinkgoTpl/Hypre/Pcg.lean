import GinkgoTpl.Hypre.Import
import GinkgoTpl.Hypre.Options
import GinkgoTpl.Hypre.Vectors

/-!
# The generation of a Pcg solver

The constructor of `solver::Pcg` in `hypre/pcg.hpp` as the program of one rank: the import, the
setters of BoomerAMG and PCG, the two vectors of the setup, the setup between two barriers, and
the hierarchy that BoomerAMG has built. Times are left out.
-/

namespace GinkgoTpl.Hypre

open Sparse Memory Ginkgo Spmd

variable {P : ℕ} {A V : Type} [Inhabited V]

/-! ## Parameters -/

/-- The parameters with their defaults. A callback gets the handle of the solver. -/
structure Parameters where
  tolerance : Double := .finite (1 / 10 ^ 8)
  maxIters : ℤ := 100
  twoNorm : Bool := true
  coarsenType : String := ""
  interpType : String := ""
  relaxType : String := ""
  relaxWeight : Double := .finite (-1)
  numSweeps : ℤ := 0
  maxLevels : ℤ := 0
  maxCoarseSize : ℤ := 0
  strongThreshold : Double := .finite (-1)
  printStatistics : Bool := false
  amgSetup : Option (ℕ → Except Error Unit) := none
  krylovSetup : Option (ℕ → Except Error Unit) := none

def relaxTypeError (relaxType : String) : Error :=
  .invalidState ("relax_type '" ++ relaxType ++ "' has no hypre device implementation and would " ++
    "crash inside hypre's solve on a device executor; use relax_type \"l1-Jacobi\" instead")

/-- A call that is made if its parameter is set. -/
def checkIf (hypre : Lib V) (set : Bool) (call : HypreCall) : Except Error Unit :=
  if set then hypre.check call else .ok ()

/-- A call with the number of a named option, made if the name is not empty. -/
def checkNamed (hypre : Lib V) (name : String) (typeId : String → Except Error ℤ)
    (call : ℤ → HypreCall) : Except Error Unit :=
  if name.isEmpty then .ok ()
  else do
    let type ← typeId name
    hypre.check (call type)

/-- The relaxation type: one without a device implementation is rejected on a device. -/
def checkRelaxType (hypre : Lib V) (relaxType : String) (device : Bool) : Except Error Unit :=
  if relaxType.isEmpty then .ok ()
  else do
    let type ← relaxTypeId relaxType
    if device ∧ !relaxTypeRunsOnDevice type then .error (relaxTypeError relaxType)
    else hypre.check (.amgSetRelaxType type)

/-- The typed setters of BoomerAMG. -/
def configureAmg (hypre : Lib V) (params : Parameters) (device : Bool) : Except Error Unit := do
  checkNamed hypre params.coarsenType coarsenTypeId .amgSetCoarsenType
  checkNamed hypre params.interpType interpTypeId .amgSetInterpType
  checkRelaxType hypre params.relaxType device
  checkIf hypre (params.relaxWeight ≥ 0) (.amgSetRelaxWt params.relaxWeight)
  checkIf hypre (params.numSweeps > 0) (.amgSetNumSweeps params.numSweeps)
  checkIf hypre (params.maxLevels > 0) (.amgSetMaxLevels params.maxLevels)
  checkIf hypre (params.maxCoarseSize > 0) (.amgSetMaxCoarseSize params.maxCoarseSize)
  checkIf hypre (params.strongThreshold ≥ 0) (.amgSetStrongThreshold params.strongThreshold)
  hypre.check (.amgSetPrintLevel (if params.printStatistics then 3 else 0))
  -- one cycle with no stopping criterion of its own
  hypre.check (.amgSetTol 0)
  hypre.check (.amgSetMaxIter 1)

/-- The typed setters of PCG, and the preconditioner. -/
def configurePcg (hypre : Lib V) (params : Parameters) : Except Error Unit := do
  hypre.check (.pcgSetTol params.tolerance)
  hypre.check (.pcgSetMaxIter params.maxIters)
  hypre.check (.pcgSetTwoNorm (if params.twoNorm then 1 else 0))
  hypre.check .pcgSetPrecond

/-- Calls back with the handle of a solver. -/
def callBack (callback : Option (ℕ → Except Error Unit)) (handle : ℕ) : Except Error Unit :=
  match callback with
  | some callback => callback handle
  | none => .ok ()

/-! ## The state of a solver -/

structure Hierarchy where
  numLevels : ℕ
  /-- Global rows on each level, finest first. -/
  rowsPerLevel : List ℕ

/-- What all copies of a solver share. -/
structure PcgState where
  matrix : ParCsr
  amg : Option ℕ
  pcg : Option ℕ
  device : Bool
  numIterations : ℕ
  residualNorm : Double
  converged : Bool
  hierarchyInfo : Option Hierarchy
  setupBValues : Option ℕ
  setupXValues : Option ℕ
  setupB : Option PlacedVector
  setupX : Option PlacedVector

/-- The state before the constructor's body. -/
def PcgState.new : PcgState :=
  ⟨.new, none, none, false, 0, 0, false, none, none, none, none, none⟩

/-! ## The phases of the constructor -/

/-- `end_of_phase`: waits for hypre's device work if there is any, then for every rank. -/
def endOfPhase (build : Build) (hypre : Lib V) (comm : Comm) (device : Bool) :
    Program (mpi P) A Error Unit := do
  if build.gpu ∧ device then
    Program.ofExcept
      (hypre.check (if build.release ≥ 23300 then .syncDevice else .syncCudaDevice))
  collective comm .barrier ()

def hierarchyError (describe : ℤ → String) (code : ℤ) : Error :=
  .invalidState ("hypre error code " ++ toString code ++ " (" ++ describe code ++
    ") returned by HYPRE_BoomerAMGGetGridHierarchy on at least one rank")

/-- The rows of this rank on each level: a row is on all levels up to its last one. -/
def rowsOnLevels (localRows : ℕ) (lastLevel : ℕ → ℤ) (numLevels : ℤ) : List ℤ :=
  (List.range localRows).foldl
    (fun rows i => (List.range (castInt 32 (lastLevel i) + 1).toNat).foldl
      (fun rows l => rows.modify l (· + 1)) rows)
    (List.replicate (castSize numLevels) 0)

/-- The hierarchy of BoomerAMG. The error of hypre is folded into the first reduction, so that one
rank alone cannot throw. -/
def gridHierarchy (hypre : Lib V) (comm : Comm) (localRows : ℕ) :
    Program (mpi P) A Error Hierarchy := do
  let (code, lastLevel) := hypre.gridHierarchy
  let localMax := (List.range localRows).foldl (fun localMax i => max localMax (lastLevel i)) 0
  let reduced ← collective comm .allreduceMax (castInt 32 code, castInt 32 localMax + 1)
  if reduced.1 ≠ 0 then
    .raise (hierarchyError hypre.describe reduced.1)
  else do
    let numLevels := reduced.2
    let rows ← collective comm .allreduceSum (rowsOnLevels localRows lastLevel numLevels)
    return { numLevels := castSize numLevels, rowsPerLevel := rows.map castSize }

/-- A system matrix with the memory it is stored in, by its dynamic type. -/
inductive SystemMatrix (P : ℕ) (V : Type) where
  | csr (mtx : Csr V) (mem : SerialMemory mtx)
  | distributed (L : LocalMatrix P V) (mem : RankMemory L)
  | other (typeName : String) (size : ℕ × ℕ)

def SystemMatrix.size : SystemMatrix P V → ℕ × ℕ
  | .csr mtx _ => (mtx.numRows, mtx.numCols)
  | .distributed L _ => L.size
  | .other _ size => size

/-- The import of the system matrix. -/
def importMatrix (build : Build) (hypre : Lib V) (memoryLocation : MemoryLocation)
    (policy : PolicyState) : SystemMatrix P V →
      Program (mpi P) A Error (ParCsr × PolicyState × Heap (Buffer V))
  | .csr mtx mem => Program.ofExcept (buildSerialParCsr build hypre memoryLocation
      ⟨"gko::matrix::Csr<double, LocalIndexType>", true, mtx⟩ mem policy)
  | .distributed L mem => buildDistributedParCsr build hypre memoryLocation L mem policy
  | .other typeName _ => .raise (.notSupported typeName)

section
variable [Zero V]

/-- The constructor from the imported matrix on. -/
def setUp (build : Build) (hypre : Lib V) (params : Parameters) (matrix : ParCsr)
    (policy : PolicyState) (heap : Heap (Buffer V)) :
    Program (mpi P) A Error (PcgState × PolicyState × Heap (Buffer V)) := do
  let device : Bool := matrix.memoryLocation = .device
  Program.ofExcept (hypre.check .amgCreate)
  let amg := heap.next
  let heap := heap.alloc .object
  Program.ofExcept (configureAmg hypre params device)
  Program.ofExcept (callBack params.amgSetup amg)
  Program.ofExcept (hypre.check .pcgCreate)
  let pcg := heap.next
  let heap := heap.alloc .object
  Program.ofExcept (configurePcg hypre params)
  Program.ofExcept (callBack params.krylovSetup pcg)
  -- the vectors of the setup; a rank without rows still needs an array
  let localRows := castSize matrix.numLocalRows
  let zeros : Buffer V := .reals (List.replicate (max 1 localRows) 0)
  let setupBValues := heap.next
  let heap := heap.alloc zeros
  let setupXValues := heap.next
  let heap := heap.alloc zeros
  let (dummyB, policy, heap) ← PlacedVector.new build hypre .b matrix.comm matrix.rowStart
    matrix.numLocalRows setupBValues matrix.memoryLocation policy heap
  let (dummyX, policy, heap) ← PlacedVector.new build hypre .x matrix.comm matrix.rowStart
    matrix.numLocalRows setupXValues matrix.memoryLocation policy heap
  endOfPhase build hypre matrix.comm device
  let _ ← collective matrix.comm (.library .hypreParCsrPcgSetup) ()
  Program.ofExcept (hypre.check .pcgSetup)
  endOfPhase build hypre matrix.comm device
  let state := { PcgState.new with
    matrix
    amg := some amg
    pcg := some pcg
    device
    setupBValues := some setupBValues
    setupXValues := some setupXValues
    setupB := some dummyB
    setupX := some dummyX }
  -- the query is public since release 2.32
  if build.release ≥ 23200 then
    let hierarchy ← gridHierarchy hypre matrix.comm localRows
    return ({ state with hierarchyInfo := some hierarchy }, policy, heap)
  else
    return (state, policy, heap)

/-- The constructor of `Pcg`. The executor decides the memory location. -/
def generate (build : Build) (hypre : Lib V) (process : Process) (memoryLocation : MemoryLocation)
    (params : Parameters) (systemMatrix : SystemMatrix P V) (policy : PolicyState) :
    Program (mpi P) A Error (PcgState × PolicyState × Heap (Buffer V)) :=
  if !process.libraryInitialized then
    .raise (.invalidState ("hypre is not initialized; create a gko::ext::hypre::environment " ++
      "before generating a gko::ext::hypre::solver::Pcg"))
  else if systemMatrix.size.1 ≠ systemMatrix.size.2 then
    .raise (.dimensionMismatch "expected square matrix")
  else do
    let policy ← Program.ofExcept (hypre.setProcessPolicy build memoryLocation policy)
    let (matrix, policy, heap) ← importMatrix build hypre memoryLocation policy systemMatrix
    setUp build hypre params matrix policy heap

end

end GinkgoTpl.Hypre
