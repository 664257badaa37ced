import GinkgoTpl.Double
import GinkgoTpl.Hypre.Kernels
import GinkgoTpl.Hypre.Policy
import GinkgoTpl.Mpi
import GinkgoTpl.Operands

/-!
# hypre as a rank calls it

The widths of the integer types of a build, the checked calls of hypre with the texts that their
errors show, and `Lib`, everything that hypre decides on one rank: the error codes it returns and
what its routines do to a block.
-/

namespace GinkgoTpl.Hypre

open Spmd

/-- A build of the wrapper against a build of hypre. -/
structure Build where
  /-- The widths of Ginkgo's local index type, `HYPRE_Int` and `HYPRE_BigInt`. -/
  localBits : ℕ
  intBits : ℕ
  bigBits : ℕ
  /-- Whether the local index type is `HYPRE_Int`. -/
  sameInt : Bool
  /-- `HYPRE_USING_GPU`. -/
  gpu : Bool
  /-- `HYPRE_RELEASE_NUMBER`. -/
  release : ℕ
  intBits_pos : 0 < intBits
  intBits_le : intBits ≤ 64
  bigBits_pos : 0 < bigBits
  sameInt_bits : sameInt → localBits = intBits

/-- A hypre with 32-bit indices and no GPU, whose release has the calls of the IJ interface. -/
def Build.host : Build where
  localBits := 32
  intBits := 32
  bigBits := 32
  sameInt := true
  gpu := false
  release := 23300
  intBits_pos := by decide
  intBits_le := by decide
  bigBits_pos := by decide
  sameInt_bits _ := rfl

/-- The hypre calls of a generation whose return code is checked, the reorder routines apart. -/
inductive HypreCall where
  | parCsrMatrixInitialize
  | parCsrMatrixSetNumNonzeros
  | matvecCommPkgCreate
  | amgCreate
  | amgSetCoarsenType (type : ℤ)
  | amgSetInterpType (type : ℤ)
  | amgSetRelaxType (type : ℤ)
  | amgSetRelaxWt (weight : Double)
  | amgSetNumSweeps (num : ℤ)
  | amgSetMaxLevels (num : ℤ)
  | amgSetMaxCoarseSize (size : ℤ)
  | amgSetStrongThreshold (threshold : Double)
  | amgSetPrintLevel (level : ℤ)
  | amgSetTol (tol : Double)
  | amgSetMaxIter (num : ℤ)
  | pcgCreate
  | pcgSetTol (tol : Double)
  | pcgSetMaxIter (num : ℤ)
  | pcgSetTwoNorm (flag : ℤ)
  | pcgSetPrecond
  | ijVectorCreate (v : Operand) (lower upper : ℤ)
  | ijVectorSetObjectType (v : Operand)
  | ijVectorInitializeShell (v : Operand)
  | ijVectorSetData (v : Operand) (data : ℕ)
  | ijVectorAssemble (v : Operand)
  | ijVectorGetObject (v : Operand)
  | seqVectorSetDataOwner (v : Operand)
  | parVectorInitialize (v : Operand)
  | syncDevice
  | syncCudaDevice
  | pcgSetup
  deriving DecidableEq

/-- The call as the error message shows it. -/
def HypreCall.text : HypreCall → String
  | parCsrMatrixInitialize =>
    "hypre_ParCSRMatrixInitialize_v2(result.matrix, result.memory_location)"
  | parCsrMatrixSetNumNonzeros => "hypre_ParCSRMatrixSetNumNonzeros(result.matrix)"
  | matvecCommPkgCreate => "hypre_MatvecCommPkgCreate(result.matrix)"
  | amgCreate => "HYPRE_BoomerAMGCreate(&state_->amg)"
  | amgSetCoarsenType _ =>
    "HYPRE_BoomerAMGSetCoarsenType( state_->amg, detail::coarsen_type_id(params.coarsen_type))"
  | amgSetInterpType _ =>
    "HYPRE_BoomerAMGSetInterpType( state_->amg, detail::interp_type_id(params.interp_type))"
  | amgSetRelaxType _ => "HYPRE_BoomerAMGSetRelaxType(state_->amg, relax_type)"
  | amgSetRelaxWt _ => "HYPRE_BoomerAMGSetRelaxWt(state_->amg, params.relax_weight)"
  | amgSetNumSweeps _ => "HYPRE_BoomerAMGSetNumSweeps(state_->amg, params.num_sweeps)"
  | amgSetMaxLevels _ => "HYPRE_BoomerAMGSetMaxLevels(state_->amg, params.max_levels)"
  | amgSetMaxCoarseSize _ =>
    "HYPRE_BoomerAMGSetMaxCoarseSize( state_->amg, params.max_coarse_size)"
  | amgSetStrongThreshold _ =>
    "HYPRE_BoomerAMGSetStrongThreshold( state_->amg, params.strong_threshold)"
  | amgSetPrintLevel _ =>
    "HYPRE_BoomerAMGSetPrintLevel( state_->amg, params.print_statistics ? 3 : 0)"
  | amgSetTol _ => "HYPRE_BoomerAMGSetTol(state_->amg, 0.0)"
  | amgSetMaxIter _ => "HYPRE_BoomerAMGSetMaxIter(state_->amg, 1)"
  | pcgCreate => "HYPRE_ParCSRPCGCreate(state_->matrix.comm, &state_->pcg)"
  | pcgSetTol _ => "HYPRE_ParCSRPCGSetTol(state_->pcg, params.tolerance)"
  | pcgSetMaxIter _ => "HYPRE_ParCSRPCGSetMaxIter(state_->pcg, params.max_iters)"
  | pcgSetTwoNorm _ => "HYPRE_ParCSRPCGSetTwoNorm(state_->pcg, params.two_norm ? 1 : 0)"
  | pcgSetPrecond => "HYPRE_ParCSRPCGSetPrecond( state_->pcg, " ++
    "reinterpret_cast<HYPRE_PtrToParSolverFcn>(HYPRE_BoomerAMGSolve), " ++
    "reinterpret_cast<HYPRE_PtrToParSolverFcn>(HYPRE_BoomerAMGSetup), state_->amg)"
  | ijVectorCreate .. =>
    "HYPRE_IJVectorCreate( comm, row_start, row_start + local_size - 1, &ij_vector_)"
  | ijVectorSetObjectType _ => "HYPRE_IJVectorSetObjectType(ij_vector_, HYPRE_PARCSR)"
  | ijVectorInitializeShell _ => "HYPRE_IJVectorInitializeShell(ij_vector_)"
  | ijVectorSetData .. => "HYPRE_IJVectorSetData(ij_vector_, data)"
  | ijVectorAssemble _ => "HYPRE_IJVectorAssemble(ij_vector_)"
  | ijVectorGetObject _ => "HYPRE_IJVectorGetObject(ij_vector_, &object)"
  | seqVectorSetDataOwner _ => "hypre_SeqVectorSetDataOwner(local_vector, 0)"
  | parVectorInitialize _ => "hypre_ParVectorInitialize_v2(vector_, location)"
  | syncDevice => "hypre_SyncDevice()"
  | syncCudaDevice => "hypre_SyncCudaDevice(hypre_handle())"
  | pcgSetup => "HYPRE_ParCSRPCGSetup( state_->pcg, " ++
    "reinterpret_cast<HYPRE_ParCSRMatrix>(state_->matrix.matrix), " ++
    "reinterpret_cast<HYPRE_ParVector>(dummy_b->get()), " ++
    "reinterpret_cast<HYPRE_ParVector>(dummy_x->get()))"

/-- What hypre decides on one rank. -/
structure Lib (V : Type) [Inhabited V] where
  kernels : Kernels V
  describe : ℤ → String
  code : HypreCall → ℤ
  /-- Whether `hypre_ParVectorCreate` returns null. -/
  parVectorNull : Operand → Bool
  /-- `HYPRE_BoomerAMGGetGridHierarchy`: its code, and the last level of each local row. -/
  gridHierarchy : ℤ × (ℕ → ℤ)
  memory : (location : MemoryLocation) → Reply location
  execution : (location : MemoryLocation) → Reply location.exec

namespace Lib

variable {V : Type} [Inhabited V] (hypre : Lib V)

/-- A checked call. -/
def check (call : HypreCall) : Except Error Unit :=
  assertNoHypreErrors hypre.describe (hypre.code call) call.text

/-- `set_process_policy` on this rank. -/
def setProcessPolicy (build : Build) (location : MemoryLocation) (s : PolicyState) :
    Except Error PolicyState :=
  match Hypre.setProcessPolicy hypre.describe build.gpu location (hypre.memory location)
    (hypre.execution location) s with
  | (.ok (), s') => .ok s'
  | (.error e, _) => .error e

/-- All checked calls succeed; the query of the grid hierarchy may fail. -/
structure Succeeds : Prop where
  code : ∀ call, hypre.code call = 0
  parVector : ∀ v, hypre.parVectorNull v = false
  memory : ∀ location, (hypre.memory location).code = 0
  execution : ∀ location, (hypre.execution location).code = 0

variable {hypre}

@[simp] theorem Succeeds.check (h : hypre.Succeeds) (call : HypreCall) :
    hypre.check call = .ok () := by
  rw [Lib.check, h.code]
  rfl

/-- hypre whose calls succeed, with the documented routines. -/
def documented (V : Type) [Inhabited V] : Lib V where
  kernels := .documented V
  describe _ := ""
  code _ := 0
  parVectorNull _ := false
  gridHierarchy := (0, fun _ => 0)
  memory _ := .ok _
  execution _ := .ok _

theorem documented_succeeds : (documented V).Succeeds :=
  ⟨fun _ => rfl, fun _ => rfl, fun _ => rfl, fun _ => rfl⟩

end Lib

/-- The calling rank's part of a collective call of hypre. -/
def enterLibrary {P : ℕ} {A ε : Type} (c : LibraryCall) : Program (mpi P) A ε Unit :=
  Program.enter (C := mpi P) (.library c) ()

theorem leads_enterLibrary {P : ℕ} {A ε β : Type} {r : Fin P} {c : LibraryCall}
    {f : Unit → Program (mpi P) A ε β} {Rs : List (Round (mpi P))} {as : List A}
    {q : Program (mpi P) A ε β} (h : Leads r (f ()) Rs as q) :
    Leads r (enterLibrary c >>= f) (libraryRound c :: Rs) as q := .call' _ rfl h

end GinkgoTpl.Hypre
