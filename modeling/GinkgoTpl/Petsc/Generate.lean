import GinkgoTpl.Petsc.Apply
import GinkgoTpl.Petsc.Ksp
import GinkgoTpl.Petsc.Options
import GinkgoTpl.Spmd.Joint

/-!
# The constructor of Ksp

The whole constructor of `solver::Ksp` in `petsc/ksp.hpp` as the program of one rank, with
`end_of_phase` of `petsc/detail/timing.hpp`, and the destructor of `state`, which runs when the
constructor throws. An exception carries the state as it is when it is thrown, so that the
destructor finds the objects that PETSc has made until then.
-/

namespace GinkgoTpl.Petsc

open Sparse Ginkgo Spmd

variable {P : ℕ} {V : Type} [Inhabited V]

/-! ## The calls -/

/-- The readings of the clock that `get_import_time` and `get_setup_time` are made of. -/
inductive Clock where
  | importStart
  | setupStart
  | setupEnd
  deriving DecidableEq

/-- The objects of PETSc that a solver owns. -/
inductive KspObject where
  | mat
  | ksp
  | b
  | x
  deriving DecidableEq

/-- The checked PETSc calls of a generation. -/
inductive GenerateCall where
  | matCreate
  | matSetSizes
  | matSetType
  | matSetPreallocationCoo
  | matSetValuesCoo
  | kspCreate
  | kspSetOperators
  | optionsInsertString
  | kspSetOptionsPrefix
  | kspSetFromOptions
  | kspGetType
  | kspSetInitialGuessNonzero
  | matCreateVecs
  | deviceContextGetCurrentContext (phaseEnd : Clock)
  | deviceContextSynchronize (phaseEnd : Clock)
  | kspSetUp
  deriving DecidableEq

namespace GenerateCall

/-- The call as the error message shows it. -/
def text : GenerateCall → String
  | matCreate => "MatCreate(coo.comm, &state_->mat)"
  | matSetSizes => "MatSetSizes(state_->mat, coo.num_local_rows, coo.num_local_rows, " ++
    "PETSC_DETERMINE, PETSC_DETERMINE)"
  | matSetType => "MatSetType(state_->mat, mat_type)"
  | matSetPreallocationCoo => "MatSetPreallocationCOO( state_->mat, " ++
    "static_cast<PetscCount>(coo.rows.size()), coo.rows.data(), coo.cols.data())"
  | matSetValuesCoo => "MatSetValuesCOO(state_->mat, coo.values.data(), INSERT_VALUES)"
  | kspCreate => "KSPCreate(coo.comm, &state_->ksp)"
  | kspSetOperators => "KSPSetOperators(state_->ksp, state_->mat, state_->mat)"
  | optionsInsertString => "PetscOptionsInsertString(nullptr, prefixed_options.c_str())"
  | kspSetOptionsPrefix => "KSPSetOptionsPrefix(state_->ksp, prefix.c_str())"
  | kspSetFromOptions => "KSPSetFromOptions(state_->ksp)"
  | kspGetType => "KSPGetType(state_->ksp, &ksp_type)"
  | kspSetInitialGuessNonzero => "KSPSetInitialGuessNonzero(state_->ksp, PETSC_TRUE)"
  | matCreateVecs => "MatCreateVecs(state_->mat, &state_->x, &state_->b)"
  | deviceContextGetCurrentContext _ => "PetscDeviceContextGetCurrentContext(&dctx)"
  | deviceContextSynchronize _ => "PetscDeviceContextSynchronize(dctx)"
  | kspSetUp => "KSPSetUp(state_->ksp)"

/-- The calls that PETSc documents as collective; the others are logically collective or not. -/
def isCollective : GenerateCall → Bool
  | matCreate | matSetSizes | matSetType | matSetPreallocationCoo | matSetValuesCoo | kspCreate
  | kspSetOperators | kspSetFromOptions | matCreateVecs | kspSetUp => true
  | _ => false

end GenerateCall

/-- The collective calls of PETSc: those of a generation, and the release of an object. -/
inductive PetscOp where
  | call (call : GenerateCall)
  | destroy (o : KspObject)
  deriving DecidableEq

/-- The collective calls of PETSc return nothing that a rank goes on with. Who waits for whom in
them is PETSc's decision. -/
abbrev petsc (P : ℕ) (needs : PetscOp → Fin P → Fin P → Prop) : Collectives (Fin P) where
  Op := PetscOp
  In _ := Unit
  Out _ := Unit
  Needs := needs
  combine _ _ _ := ()
  combine_congr _ := rfl

/-- The calls of MPI and those of PETSc. -/
abbrev mpiPetsc (P : ℕ) (needs : PetscOp → Fin P → Fin P → Prop) : Collectives (Fin P) :=
  (mpi P).sum (petsc P needs)

/-- What is handed to PETSc in a call. -/
inductive Handed (V : Type) where
  | nothing
  | sizes (numLocalRows : ℤ)
  | type (device : Bool)
  | indices (rows cols : List ℤ)
  | values (values : List V)
  | text (s : Chars)

/-- What a generation does on a rank: a call that PETSc has carried out, the release of an object,
or a reading of the clock. -/
inductive KspAction (V : Type) where
  | readClock (c : Clock)
  | petsc (call : GenerateCall) (handed : Handed V)
  | destroy (o : KspObject)

/-- What PETSc answers on one rank during a generation: the error codes of the calls, and the type
that `KSPGetType` returns. -/
structure GenerateAnswers where
  code : GenerateCall → ℤ
  kspType : Chars

/-- What `MPI_Finalized` and `PetscInitialized` say. -/
structure PetscProcess where
  mpiFinalized : Bool
  petscInitialized : Bool

/-- The parameters of a factory and its executor. -/
structure KspFactory where
  options : Chars
  cudaExecutor : Bool

/-! ## The state -/

/-- The `state` of a solver: what an apply uses, and which of the PETSc objects are set. -/
structure GenerationState extends KspState where
  mat : Bool
  ksp : Bool
  b : Bool
  x : Bool

/-- The state before the constructor's body. -/
def GenerationState.new : GenerationState :=
  ⟨⟨.null, false, false, 0, 0, 0, 0⟩, false, false, false, false⟩

section
variable {needs : PetscOp → Fin P → Fin P → Prop}

/-- The calling rank's part of a collective call of PETSc. -/
def petscCollective {A ε : Type} (comm : Comm) (op : PetscOp) :
    Program (mpiPetsc P needs) A ε Unit :=
  match comm with
  | .matrix => Program.enter (C := mpiPetsc P needs) (.inr op) ()
  | _ => .ret ()

/-- Releases an object on its communicator; PETSc accepts one that is not set. -/
def destroyObject {ε : Type} (comm : Comm) (isSet : Bool) (o : KspObject) :
    Program (mpiPetsc P needs) (KspAction V) ε Unit :=
  if isSet then do
    petscCollective comm (.destroy o)
    Program.perform (.destroy o)
  else .ret ()

/-- `~state()`: nothing is released once MPI or PETSc is finalized. -/
def destroyState {ε : Type} (process : PetscProcess) (state : GenerationState) :
    Program (mpiPetsc P needs) (KspAction V) ε Unit :=
  if process.mpiFinalized ∨ !process.petscInitialized then .ret ()
  else do
    destroyObject state.comm state.x .x
    destroyObject state.comm state.b .b
    destroyObject state.comm state.ksp .ksp
    destroyObject state.comm state.mat .mat

/-! ## The constructor -/

/-- A part of the constructor that may throw while the state is `state`. -/
def throwing {A α : Type} (state : GenerationState)
    (p : Program (mpiPetsc P needs) A Error α) :
    Program (mpiPetsc P needs) A (Error × GenerationState) α := p.mapError (·, state)

/-- The ranks meet in a call if it is collective. -/
def enterCall {A ε : Type} (comm : Comm) (call : GenerateCall) :
    Program (mpiPetsc P needs) A ε Unit :=
  if call.isCollective then petscCollective comm (.call call) else .ret ()

/-- A checked call. -/
def checkedCall (answers : GenerateAnswers) (state : GenerationState) (call : GenerateCall)
    (handed : Handed V) :
    Program (mpiPetsc P needs) (KspAction V) (Error × GenerationState) Unit := do
  enterCall state.comm call
  throwing state (.ofExcept (assertNoPetscErrors (answers.code call) call.text))
  Program.perform (.petsc call handed)

/-- The checks of the constructor. -/
def checkSystemMatrix (bits : ℕ) (petscInitialized : Bool) (systemMatrix : SystemMatrix P V) :
    Except Error Unit :=
  if !petscInitialized then
    .error (.invalidState ("PETSc is not initialized; create a gko::ext::petsc::environment " ++
      "before generating a gko::ext::petsc::solver::Ksp"))
  else if systemMatrix.size.1 ≠ systemMatrix.size.2 then
    .error (.dimensionMismatch "expected square matrix")
  else do
    let _ ← toPetscInt bits (castInt 64 systemMatrix.size.1)
    return ()

/-- The triplets of the system matrix, by its dynamic type. -/
def importCoo {A : Type} (bits : ℕ) : SystemMatrix P V → Program (mpi P) A Error (CooData V)
  | .csr hostCsr => Program.ofExcept (buildSerialCoo bits hostCsr)
  | .distributed L => buildDistributedCoo bits L
  | .other typeName _ => .raise (.notSupported typeName)

/-- Waits for the work that PETSc has queued, if its objects are on a device. -/
def waitForDevice (answers : GenerateAnswers) (state : GenerationState) (phaseEnd : Clock) :
    Program (mpiPetsc P needs) (KspAction V) (Error × GenerationState) Unit :=
  if state.deviceVectors then do
    checkedCall answers state (.deviceContextGetCurrentContext phaseEnd) .nothing
    checkedCall answers state (.deviceContextSynchronize phaseEnd) .nothing
  else .ret ()

/-- `end_of_phase`: waits for the device, then for every rank, and reads the clock. -/
def endOfPhase (answers : GenerateAnswers) (state : GenerationState) (clock : Clock) :
    Program (mpiPetsc P needs) (KspAction V) (Error × GenerationState) Unit := do
  waitForDevice answers state clock
  (collective state.comm .barrier ()).inl
  Program.perform (.readClock clock)

/-- The matrix from its triplets. On a CUDA executor, a PETSc with CUDA gets a device matrix. -/
def createMat (answers : GenerateAnswers) (device : Bool) (coo : CooData V)
    (state : GenerationState) :
    Program (mpiPetsc P needs) (KspAction V) (Error × GenerationState) GenerationState := do
  checkedCall answers state .matCreate .nothing
  let state := { state with mat := true }
  checkedCall answers state .matSetSizes (.sizes coo.numLocalRows)
  let state := { state with deviceVectors := device }
  checkedCall answers state .matSetType (.type device)
  checkedCall answers state .matSetPreallocationCoo (.indices coo.rows coo.cols)
  checkedCall answers state .matSetValuesCoo (.values coo.values)
  return state

/-- Iterative solvers start from the input `x`; PETSc rejects a nonzero initial guess for
`preonly`. -/
def setInitialGuess (answers : GenerateAnswers) (state : GenerationState) :
    Program (mpiPetsc P needs) (KspAction V) (Error × GenerationState) Unit :=
  if answers.kspType ≠ "preonly".toList then
    checkedCall answers state .kspSetInitialGuessNonzero .nothing
  else .ret ()

/-- The solver with its options, under the prefix of the instance with number `id`, and the two
vectors. -/
def createKsp (answers : GenerateAnswers) (options : Chars) (id : ℕ) (state : GenerationState) :
    Program (mpiPetsc P needs) (KspAction V) (Error × GenerationState) GenerationState := do
  checkedCall answers state .kspCreate .nothing
  let state := { state with ksp := true }
  checkedCall answers state .kspSetOperators .nothing
  checkedCall answers state .optionsInsertString
    (.text (cStr (prefixOptions options (instancePrefix id))))
  checkedCall answers state .kspSetOptionsPrefix (.text (instancePrefix id))
  checkedCall answers state .kspSetFromOptions .nothing
  checkedCall answers state .kspGetType .nothing
  setInitialGuess answers state
  checkedCall answers state .matCreateVecs .nothing
  return { state with x := true, b := true }

/-- The constructor's body. `id` is the value of `next_instance_id` that it takes. -/
def generateBody (bits : ℕ) (cudaBuild : Bool) (answers : GenerateAnswers)
    (process : PetscProcess) (factory : KspFactory) (id : ℕ) (systemMatrix : SystemMatrix P V) :
    Program (mpiPetsc P needs) (KspAction V) (Error × GenerationState) GenerationState := do
  let state := GenerationState.new
  throwing state (.ofExcept (checkSystemMatrix bits process.petscInitialized systemMatrix))
  Program.perform (.readClock .importStart)
  let coo ← throwing state (importCoo bits systemMatrix).inl
  let state := { state with
    distributed := coo.distributed
    numLocalRows := coo.numLocalRows
    comm := coo.comm }
  let state ← createMat answers (cudaBuild && factory.cudaExecutor) coo state
  let state ← createKsp answers factory.options id state
  endOfPhase answers state .setupStart
  checkedCall answers state .kspSetUp .nothing
  endOfPhase answers state .setupEnd
  return state

/-- A body whose state is destroyed when it throws. -/
def destroying (process : PetscProcess)
    (body : Program (mpiPetsc P needs) (KspAction V) (Error × GenerationState) GenerationState) :
    Program (mpiPetsc P needs) (KspAction V) Error GenerationState := do
  let outcome ← body.attempt
  match outcome with
  | .ok state => return state
  | .error (e, state) =>
    destroyState process state
    .raise e

/-- The constructor of `Ksp`. -/
def generate (bits : ℕ) (cudaBuild : Bool) (answers : GenerateAnswers) (process : PetscProcess)
    (factory : KspFactory) (id : ℕ) (systemMatrix : SystemMatrix P V) :
    Program (mpiPetsc P needs) (KspAction V) Error GenerationState :=
  destroying process (generateBody bits cudaBuild answers process factory id systemMatrix)

end

end GinkgoTpl.Petsc
