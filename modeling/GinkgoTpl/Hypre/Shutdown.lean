import GinkgoTpl.Hypre.Pcg
import GinkgoTpl.Hypre.Process

/-!
# Destroying a Pcg solver

What the destruction of the last object that shares a state calls, in the order of the destructors:
the body of `~state`, then the members from the last to the first. `~state` asks whether MPI or
hypre is finalized, the destructors of the vectors and of the matrix ask for hypre only;
`destroyed_legal_iff` says in which runs this makes a difference.
-/

namespace GinkgoTpl.Hypre

open Sparse Spmd Transition

/-- The hypre calls of the destructors. -/
inductive DestroyCall where
  | pcgDestroy (solver : ℕ)
  | boomerAmgDestroy (solver : ℕ)
  | ijVectorDestroy (vector : ℕ)
  | parVectorDestroy (vector : ℕ)
  | parCsrMatrixDestroy (matrix : ParCsrMatrix)

/-- `PlacedVector::destroy`: an IJ vector takes the vector it owns with it. -/
def PlacedVector.destroy (v : PlacedVector) (p : Process) : List DestroyCall :=
  if !p.libraryInitialized || p.libraryFinalized then []
  else
    match v.ijVector, v.vector with
    | some ijVector, _ => [.ijVectorDestroy ijVector]
    | none, some vector => if v.ownsParVector then [.parVectorDestroy vector] else []
    | none, none => []

namespace PcgState

/-- The body of the destructor. -/
def destroyBody (s : PcgState) (p : Process) : List DestroyCall :=
  if p.mpiFinalized || !p.libraryInitialized || p.libraryFinalized then []
  else (s.pcg.map .pcgDestroy).toList ++ (s.amg.map .boomerAmgDestroy).toList

/-- The destructor with those of the members. -/
def destroy (s : PcgState) (p : Process) : List DestroyCall :=
  s.destroyBody p ++
    s.setupX.elim [] (·.destroy p) ++
    s.setupB.elim [] (·.destroy p) ++
    ((s.matrix.destroy p).map .parCsrMatrixDestroy).toList

end PcgState

/-! ## Runs -/

/-- A process, and the calls of destructors in it so far, each with the process at the call. -/
structure Shutdown where
  process : Process
  destroyed : List (DestroyCall × Process)

inductive ShutdownEvent where
  | process (e : ProcessEvent)
  /-- The last object that shares the state is destroyed. -/
  | destroyState (state : PcgState)

inductive ShutdownStep (describe : ℤ → String) : Shutdown → ShutdownEvent → Shutdown → Prop
  | process {p e p' calls} : ProcessStep describe p e p' →
    ShutdownStep describe ⟨p, calls⟩ (.process e) ⟨p', calls⟩
  | destroyState {p calls} {state : PcgState} :
    ShutdownStep describe ⟨p, calls⟩ (.destroyState state)
      ⟨p, calls ++ (state.destroy p).map fun call => (call, p)⟩

/-- Destructors may call into hypre: neither MPI nor hypre is finalized. -/
def MayCallHypre (p : Process) : Prop := p.mpi ≠ .finalized ∧ p.library = .initialized

/-- The vector is one that its destructor frees. -/
def PlacedVector.Held (v : PlacedVector) : Prop :=
  v.ijVector.isSome ∨ v.ownsParVector ∧ v.vector.isSome

/-- A vector of the setup or the matrix is left to its own destructor. -/
def PcgState.HoldsMembers (s : PcgState) : Prop :=
  (∃ v, s.setupX = some v ∧ v.Held) ∨ (∃ v, s.setupB = some v ∧ v.Held) ∨ s.matrix.matrix.isSome

/-- The step does not destroy a state with vectors or a matrix after MPI has been finalized and
while hypre has not. -/
def InOrder : Shutdown × ShutdownEvent × Shutdown → Prop
  | (a, .destroyState s, _) => ¬ (a.process.mpi = .finalized ∧ a.process.library = .initialized ∧
      s.HoldsMembers)
  | _ => True

section
variable {p : Process}

theorem PlacedVector.destroy_eq_nil_iff {v : PlacedVector} (h : p.library = .initialized) :
    v.destroy p = [] ↔ ¬ v.Held := by
  obtain ⟨ijVector, vector, owns⟩ := v
  simp only [PlacedVector.destroy, PlacedVector.Held, Process.libraryInitialized,
    Process.libraryFinalized, h]
  cases ijVector <;> cases vector <;> cases owns <;> simp

theorem PlacedVector.destroy_of_not_initialized {v : PlacedVector}
    (h : p.library ≠ .initialized) : v.destroy p = [] := by
  simp [PlacedVector.destroy, Process.libraryInitialized, h]

theorem ParCsr.destroy_eq_none_iff {result : ParCsr} (h : p.library = .initialized) :
    result.destroy p = none ↔ ¬ result.matrix.isSome := by
  simp only [ParCsr.destroy, Process.libraryInitialized, Process.libraryFinalized, h]
  cases result.matrix <;> simp

theorem ParCsr.destroy_of_not_initialized {result : ParCsr}
    (h : p.library ≠ .initialized) : result.destroy p = none := by
  simp only [ParCsr.destroy, Process.libraryInitialized, h]
  cases result.matrix <;> simp

/-- Outside the lifetime of hypre nothing is called. -/
theorem PcgState.destroy_of_not_initialized {s : PcgState} (h : p.library ≠ .initialized) :
    s.destroy p = [] := by
  have hbody : s.destroyBody p = [] := by
    simp [PcgState.destroyBody, Process.libraryInitialized, h]
  simp only [PcgState.destroy, hbody, ParCsr.destroy_of_not_initialized h,
    PlacedVector.destroy_of_not_initialized h]
  cases s.setupX <;> cases s.setupB <;> rfl

/-- Once MPI is finalized, the members are the only ones that call hypre. -/
theorem PcgState.destroy_eq_nil_iff {s : PcgState} (hmpi : p.mpi = .finalized)
    (h : p.library = .initialized) : s.destroy p = [] ↔ ¬ s.HoldsMembers := by
  have hbody : s.destroyBody p = [] := by
    simp [PcgState.destroyBody, Process.mpiFinalized, hmpi]
  have hvector : ∀ v : Option PlacedVector,
      v.elim [] (·.destroy p) = [] ↔ ¬ ∃ w, v = some w ∧ w.Held := by
    intro v
    cases v with
    | none => simp
    | some w => simpa using PlacedVector.destroy_eq_nil_iff h
  simp only [PcgState.destroy, hbody, PcgState.HoldsMembers, List.append_eq_nil_iff, hvector,
    true_and, Option.toList_eq_nil_iff, Option.map_eq_none_iff, ParCsr.destroy_eq_none_iff h,
    not_or, and_assoc]

/-- The destruction of a state makes a call that it must not make exactly in that case. -/
theorem destroy_legal_iff {s : PcgState} (b : Shutdown) (calls : List (DestroyCall × Process)) :
    (∀ call ∈ s.destroy p, MayCallHypre p) ↔ InOrder (⟨p, calls⟩, .destroyState s, b) := by
  simp only [InOrder, MayCallHypre]
  by_cases h : p.library = .initialized
  · by_cases hmpi : p.mpi = .finalized
    · have hiff := PcgState.destroy_eq_nil_iff (s := s) hmpi h
      simp only [h, hmpi, ne_eq, not_true_eq_false, false_and, imp_false, true_and, ← hiff,
        List.eq_nil_iff_forall_not_mem]
    · simp [h, hmpi]
  · simp [h, PcgState.destroy_of_not_initialized h]

variable {describe : ℤ → String} {j j' : Shutdown}
  {tr : List (Shutdown × ShutdownEvent × Shutdown)} {e : ShutdownEvent}

/-- One step adds only calls that may be made exactly if it is in order. -/
theorem ShutdownStep.legal_iff (hstep : ShutdownStep describe j e j') :
    (∀ c ∈ j'.destroyed, MayCallHypre c.2) ↔
      (∀ c ∈ j.destroyed, MayCallHypre c.2) ∧ InOrder (j, e, j') := by
  cases hstep with
  | process => simp [InOrder]
  | @destroyState p calls state =>
    simp only [List.forall_mem_append, List.forall_mem_map]
    exact and_congr .rfl (destroy_legal_iff _ _)

/-- In every run of initializations and finalizations of MPI and hypre and of destructions of
solvers, all calls of the destructors are made while both are in their lifetime if and only if
every destruction is in order. -/
theorem destroyed_legal_iff (h : Run (ShutdownStep describe) j tr j') (hj : j.destroyed = []) :
    (∀ c ∈ j'.destroyed, MayCallHypre c.2) ↔ ∀ t ∈ tr, InOrder t := by
  induction h with
  | nil => simp [hj]
  | snoc _ hstep ih => rw [hstep.legal_iff, ih, List.forall_mem_append, List.forall_mem_singleton]

end

/-! ## A solver that outlives MPI -/

/-- The matrix with the one entry 2. -/
def oneRow : Csr ℤ := ⟨1, 1, [0, 1], [0], [2]⟩

/-- The process after an environment has initialized hypre. -/
def withHypre : Process := ⟨.running, .initialized, [.initializes]⟩

/-- The generation of a solver for this matrix on the host. -/
def generateOneRow : Except Error (PcgState × PolicyState × Memory.Heap (Buffer ℤ)) :=
  (generate .host (.documented ℤ) withHypre .host {} (.csr oneRow (.new oneRow))
    ⟨none, .device, .device⟩ : Program (mpi 1) Unit _ _).outcome fun _ v => v

theorem generateOneRow_ok : ∃ s policy heap, generateOneRow = .ok (s, policy, heap) ∧
    s.matrix.matrix.isSome := ⟨_, _, _, rfl, rfl⟩

/-- A process before hypre and MPI end, and no destructor has called hypre. -/
def beforeShutdown (p : Process) : Shutdown := ⟨p, []⟩

/-- The environment that initializes hypre. -/
theorem run_constructEnvironment (describe : ℤ → String) : Run (ShutdownStep describe)
    (beforeShutdown ⟨.running, .never, []⟩) [(beforeShutdown ⟨.running, .never, []⟩,
      .process (.constructEnvironment 0), beforeShutdown withHypre)] (beforeShutdown withHypre) :=
  Run.nil.snoc (.process (.constructEnvironment rfl))

/-- The solver is destroyed before MPI is finalized: every call may be made. -/
theorem destroyed_legal_iff_inOrder : ∃ s policy heap tr j,
    generateOneRow = .ok (s, policy, heap) ∧
    Run (ShutdownStep fun _ => "") (beforeShutdown ⟨.running, .never, []⟩) tr j ∧
    j.process.mpi = .finalized ∧ ∀ c ∈ j.destroyed, MayCallHypre c.2 := by
  obtain ⟨s, policy, heap, hs, -⟩ := generateOneRow_ok
  have hdestroy : ShutdownStep (fun _ => "") (beforeShutdown withHypre) (.destroyState s) _ :=
    .destroyState
  have h := ((run_constructEnvironment fun _ => "").snoc hdestroy).snoc
    (.process (.mpiFinalize rfl))
  refine ⟨s, policy, heap, _, _, hs, h, rfl, (destroyed_legal_iff h rfl).mpr ?_⟩
  simp [InOrder, beforeShutdown, withHypre]

/-- The solver outlives MPI and the environment, which leaves hypre alone then: the destructors of
the vectors and the matrix call into hypre. -/
theorem destroyed_after_mpi : ∃ s policy heap tr j,
    generateOneRow = .ok (s, policy, heap) ∧
    Run (ShutdownStep fun _ => "") (beforeShutdown ⟨.running, .never, []⟩) tr j ∧
    ∃ c ∈ j.destroyed, ¬ MayCallHypre c.2 := by
  obtain ⟨s, policy, heap, hs, hmatrix⟩ := generateOneRow_ok
  let p : Process := { withHypre with mpi := .finalized }
  have hmpi : ShutdownStep (fun _ => "") (beforeShutdown withHypre) (.process .mpiFinalize)
    (beforeShutdown p) := .process (.mpiFinalize rfl)
  have henv : ShutdownStep (fun _ => "") (beforeShutdown p)
    (.process (.destroyEnvironment ⟨true⟩)) (beforeShutdown p) := .process .destroyEnvironment
  have hdestroy : ShutdownStep (fun _ => "") (beforeShutdown p) (.destroyState s) _ :=
    .destroyState
  refine ⟨s, policy, heap, _, _, hs,
    (((run_constructEnvironment fun _ => "").snoc hmpi).snoc henv).snoc hdestroy, ?_⟩
  by_contra hall
  have hlegal : ∀ call ∈ s.destroy p, MayCallHypre p := by
    intro call hcall
    by_contra hp
    exact hall ⟨(call, p), List.mem_append_right _ (List.mem_map_of_mem hcall), hp⟩
  have hinOrder := (destroy_legal_iff (beforeShutdown p) []).mp hlegal
  exact hinOrder ⟨rfl, rfl, .inr (.inr hmatrix)⟩

end GinkgoTpl.Hypre
