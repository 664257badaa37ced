import GinkgoTpl.Double
import GinkgoTpl.Operands
import GinkgoTpl.Petsc.Error

/-!
# The apply of a Ksp solver

`Ksp::apply_impl` in `petsc/ksp.hpp` as the program of one rank, with `placed_array` and
`solve_with_arrays` of `petsc/detail/vectors.hpp`: the caller's arrays, or host copies of them,
stand in PETSc's vectors during the solve and are taken out again however it ends.
-/

namespace GinkgoTpl.Petsc

open Spmd

variable {P : ℕ}

/-- The checked PETSc calls of an apply. -/
inductive PetscCall where
  | placeArray (v : Operand) (device : Bool)
  | kspSolve
  | kspGetIterationNumber
  | kspGetResidualNorm
  | kspGetConvergedReason
  deriving DecidableEq

/-- The call as the error message shows it. -/
def PetscCall.text : PetscCall → String
  | placeArray _ true => "VecCUDAPlaceArray(vec_, values)"
  | placeArray _ false => "VecPlaceArray(vec_, values)"
  | kspSolve => "KSPSolve(state_->ksp, state_->b, state_->x)"
  | kspGetIterationNumber => "KSPGetIterationNumber(state_->ksp, &num_iterations)"
  | kspGetResidualNorm => "KSPGetResidualNorm(state_->ksp, &residual_norm)"
  | kspGetConvergedReason => "KSPGetConvergedReason(state_->ksp, &reason)"

/-- The error codes of PETSc during an apply on one rank, its answers to the queries, and the host
arrays of a staged solve. -/
structure SolveAnswers where
  code : PetscCall → ℤ
  numIterations : ℤ
  residualNorm : Double
  reason : ℤ
  hostArray : Operand → ℕ

/-- A checked call. -/
def SolveAnswers.check (answers : SolveAnswers) (call : PetscCall) : Except Error Unit :=
  assertNoPetscErrors (answers.code call) call.text

/-- What all copies of a solver share, as far as an apply uses it. -/
structure KspState where
  comm : Comm
  distributed : Bool
  /-- The vectors are device vectors. -/
  deviceVectors : Bool
  numLocalRows : ℤ
  numIterations : ℕ
  residualNorm : Double
  convergedReason : ℤ

/-- `placed_array` around `body`: the array of the operand is placed in its vector, if PETSc takes
it, and the vector is reset after `body`, whatever `body` does. -/
def placedArray {α : Type} (answers : SolveAnswers) (device : Bool) (v : Operand) (values : ℕ)
    (body : Program (mpi P) ApplyAction Error α) : Program (mpi P) ApplyAction Error α := do
  Program.ofExcept (answers.check (.placeArray v device))
  Program.perform (.placeArray v device values)
  body.ensuring [.resetArray v device]

/-- The solve with arrays in the memory space of PETSc's vectors. -/
def solve (answers : SolveAnswers) (state : KspState) (bValues xValues : ℕ) :
    Program (mpi P) ApplyAction Error KspState :=
  placedArray answers state.deviceVectors .b bValues <|
  placedArray answers state.deviceVectors .x xValues <| do
    Program.perform .solve
    let _ ← collective state.comm (.library .kspSolve) ()
    Program.ofExcept (answers.check .kspSolve)
    Program.ofExcept (answers.check .kspGetIterationNumber)
    Program.ofExcept (answers.check .kspGetResidualNorm)
    Program.ofExcept (answers.check .kspGetConvergedReason)
    return { state with
      numIterations := castSize answers.numIterations
      residualNorm := answers.residualNorm
      convergedReason := answers.reason }

/-- `solve_with_arrays`: host vectors on a device executor get host copies of `n` values, and `x`
is copied back. The copies are freed however the solve ends. -/
def solveWithArrays {α : Type} (answers : SolveAnswers) (onHost deviceVectors : Bool)
    (n bValues xValues : ℕ) (solve : ℕ → ℕ → Program (mpi P) ApplyAction Error α) :
    Program (mpi P) ApplyAction Error α :=
  if deviceVectors || onHost then solve bValues xValues
  else do
    let hostB := answers.hostArray .b
    let hostX := answers.hostArray .x
    Program.perform (.copyToHost .b n bValues hostB)
    Program.perform (.copyToHost .x n xValues hostX)
    Program.ensuring [.freeHost .x hostX, .freeHost .b hostB] do
      let result ← solve hostB hostX
      Program.perform (.copyBack n hostX xValues)
      return result

/-- The simple apply of a solver on a host or a device executor. -/
def applyImpl (answers : SolveAnswers) (onHost : Bool) (b x : LinOp) (state : KspState) :
    Program (mpi P) ApplyAction Error KspState := do
  checkOperands "Ksp" state.distributed state.comm state.numLocalRows b x
  let n := if state.distributed then castSize state.numLocalRows else x.size.1
  solveWithArrays answers onHost state.deviceVectors n b.values x.values (solve answers state)

/-- The advanced apply, `x = alpha * solve(b) + beta * x`, on a clone of `x` with the given stride
and array. -/
def applyAdvanced (answers : SolveAnswers) (onHost : Bool) (b x : LinOp)
    (cloneStride cloneValues : ℕ) (state : KspState) :
    Program (mpi P) ApplyAction Error KspState := do
  let state ← applyImpl answers onHost b (x.clone cloneStride cloneValues) state
  addSolution x
  return state

/-! ## The rounds of the solve -/

section
variable {answers : SolveAnswers} {r : Fin P}

/-- A program around which an array can be placed ends after the same rounds. -/
theorem placedArray_endsAfter {α : Type} {device : Bool} {v : Operand} {values : ℕ}
    {body : Program (mpi P) ApplyAction Error α} {Rs : List (Round (mpi P))}
    (hplace : answers.code (.placeArray v device) = 0) (h : EndsAfter r body Rs) :
    EndsAfter r (placedArray answers device v values body) Rs := by
  simp only [placedArray, SolveAnswers.check, hplace, assertNoPetscErrors_zero,
    Program.ofExcept_ok, Program.ret_bind, Program.perform_bind]
  exact .act (h.ensuring _)

/-- A distributed solve enters the collective solve and nothing else. -/
theorem solve_endsAfter {state : KspState} (hcomm : state.comm = .matrix)
    (hplace : ∀ v device, answers.code (.placeArray v device) = 0) (bValues xValues : ℕ) :
    EndsAfter r (solve answers state bValues xValues) [libraryRound .kspSolve] := by
  refine placedArray_endsAfter (hplace ..) (placedArray_endsAfter (hplace ..) ?_)
  rw [hcomm]
  exact .act <| endsAfter_library _ <| (Program.local_ofExcept _).bind fun _ =>
    (Program.local_ofExcept _).bind fun _ => (Program.local_ofExcept _).bind fun _ =>
      (Program.local_ofExcept _).bind fun _ => Program.local_ret _

theorem solveWithArrays_endsAfter {α : Type} {onHost deviceVectors : Bool} {n bValues xValues : ℕ}
    {solve : ℕ → ℕ → Program (mpi P) ApplyAction Error α} {Rs : List (Round (mpi P))}
    (h : ∀ bValues xValues, EndsAfter r (solve bValues xValues) Rs) :
    EndsAfter r (solveWithArrays answers onHost deviceVectors n bValues xValues solve) Rs := by
  unfold solveWithArrays
  split
  · exact h _ _
  · refine .act (.act (EndsAfter.ensuring ((h _ _).bind fun _ => ?_) _))
    trivial

end

/-! ## The decision of all ranks -/

section
variable {answers : Fin P → SolveAnswers} {onHost : Fin P → Bool} {b x : Fin P → LinOp}
  {state : Fin P → KspState}

/-- The ranks share a distributed solver, and PETSc takes the arrays. -/
structure ReadyToApply (answers : Fin P → SolveAnswers) (state : Fin P → KspState) : Prop where
  distributed : ∀ r, (state r).distributed = true
  comm : ∀ r, (state r).comm = .matrix
  place : ∀ r v device, (answers r).code (.placeArray v device) = 0

/-- The rows that a rank owns in the system matrix. -/
def ownedRows (state : Fin P → KspState) (r : Fin P) : ℕ := castSize (state r).numLocalRows

theorem applyImpl_distributed {answers : SolveAnswers} {onHost : Bool} {b x : LinOp}
    {state : KspState} (hdist : state.distributed) (hcomm : state.comm = .matrix)
    (hcols : b.size.2 = 1) : (applyImpl answers onHost b x state :
      Program (mpi P) ApplyAction Error KspState) =
      (checkDistributed .matrix b x (castSize state.numLocalRows)).mapError id >>= fun _ =>
        solveWithArrays answers onHost state.deviceVectors (castSize state.numLocalRows) b.values
          x.values (solve answers state) := by
  simp only [applyImpl, hdist, hcomm, checkOperands_distributed hcols, if_true,
    Program.mapError_id]

theorem applyImpl_decidedAlike (h : ReadyToApply answers state) (hcols : ∀ r, (b r).size.2 = 1) :
    DecidedAlike (fun r => applyImpl (answers r) (onHost r) (b r) (x r) (state r)) id b x
      (ownedRows state) .kspSolve :=
  decidedAlike_of_check _ (fun r => applyImpl_distributed (h.distributed r) (h.comm r) (hcols r))
    (fun _ _ => rfl) fun r _ =>
    solveWithArrays_endsAfter (solve_endsAfter (h.comm r) (h.place r))

/-- The advanced apply decides about the clones of `x`. -/
theorem applyAdvanced_decidedAlike (h : ReadyToApply answers state)
    (hcols : ∀ r, (b r).size.2 = 1) (stride values : Fin P → ℕ) :
    DecidedAlike (fun r => applyAdvanced (answers r) (onHost r) (b r) (x r) (stride r) (values r)
      (state r)) id b (fun r => (x r).clone (stride r) (values r)) (ownedRows state)
      .kspSolve := by
  have herror : ∀ (r : Fin P) e, id (id e) = (e : Error) := fun _ _ => rfl
  refine decidedAlike_of_check (fun r _ => do
    let state ← solveWithArrays (answers r) (onHost r) (state r).deviceVectors
      (castSize (state r).numLocalRows) (b r).values ((x r).clone (stride r) (values r)).values
      (solve (answers r) (state r))
    addSolution (x r)
    return state) (fun r => ?_) herror fun r _ => ?_
  · rw [applyAdvanced, applyImpl_distributed (h.distributed r) (h.comm r) (hcols r),
      Program.bind_assoc]
    rfl
  · exact (solveWithArrays_endsAfter (solve_endsAfter (h.comm r) (h.place r))).bind fun _ =>
      (local_addSolution (x r)).bind fun _ => trivial

end

end GinkgoTpl.Petsc
