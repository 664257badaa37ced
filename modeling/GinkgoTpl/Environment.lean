import GinkgoTpl.Hypre.Error
import GinkgoTpl.Lifetime
import GinkgoTpl.Petsc.Error

/-!
# The environments of hypre and PETSc

`hypre/environment.hpp` and `petsc/environment.hpp`. The two classes differ in the calls they
check and in how the destructor asks whether the library is still initialized;
`environmentClass_scoped` says that both behave as scoped environments, and
`environments_balanced` what follows for every run.
-/

namespace GinkgoTpl

open Transition

namespace Hypre

/-- The constructor; `code` is what `HYPRE_Initialize` returns. -/
def environment (describe : ℤ → String) (code : ℤ) (p : Process) :
    Except Error Environment × Process :=
  if !p.mpiInitialized then
    (.error (.invalidState ("MPI must be initialized before creating a " ++
      "gko::ext::hypre::environment, e.g. by a gko::experimental::mpi::environment")), p)
  else if !p.libraryInitialized then
    match assertNoHypreErrors describe code "HYPRE_Initialize()" with
    | .error e => (.error e, p)
    | .ok () => (.ok ⟨true⟩, p.initializeLibrary)
  else (.ok ⟨false⟩, p)

/-- `HYPRE_Finalize` calls into MPI, so it is skipped once MPI is finalized. -/
def environment.destroy (env : Environment) (p : Process) : Process :=
  if !env.owns then p
  else if !p.mpiFinalized && p.libraryInitialized && !p.libraryFinalized then p.finalizeLibrary
  else p

def environmentClass (describe : ℤ → String) : EnvironmentClass ℤ :=
  ⟨environment describe, environment.destroy⟩

theorem environmentClass_scoped (describe : ℤ → String) : (environmentClass describe).Scoped where
  construct code p := by
    simp only [environmentClass, environment]
    by_cases hmpi : p.mpiInitialized
    · by_cases hinit : p.library = .initialized
      · simp [hmpi, hinit, Process.libraryInitialized]
      · by_cases hcode : code = 0
        · simp [hmpi, hinit, hcode, Process.libraryInitialized]
        · simp [hmpi, hinit, hcode, Process.libraryInitialized, assertNoHypreErrors]
    · simp [hmpi]
  destroy env p hinit := by
    simp only [environmentClass, environment.destroy, Process.mpiFinalized,
      Process.libraryInitialized, Process.libraryFinalized, hinit]
    cases env.owns <;> simp

end Hypre

namespace Petsc

/-- The constructor; `codes` are what `PetscInitialized` and `PetscInitializeNoArguments`
return. -/
def environment (codes : ℤ × ℤ) (p : Process) : Except Error Environment × Process :=
  if !p.mpiInitialized then
    (.error (.invalidState ("MPI must be initialized before creating a " ++
      "gko::ext::petsc::environment, e.g. by a gko::experimental::mpi::environment")), p)
  else
    match assertNoPetscErrors codes.1 "PetscInitialized(&petsc_initialized)" with
    | .error e => (.error e, p)
    | .ok () =>
      if !p.libraryInitialized then
        match assertNoPetscErrors codes.2 "PetscInitializeNoArguments()" with
        | .error e => (.error e, p)
        | .ok () => (.ok ⟨true⟩, p.initializeLibrary)
      else (.ok ⟨false⟩, p)

/-- `PetscFinalize` calls into MPI, so it is skipped once MPI is finalized. -/
def environment.destroy (env : Environment) (p : Process) : Process :=
  if !env.owns then p
  else if !p.mpiFinalized && !p.libraryFinalized then p.finalizeLibrary
  else p

def environmentClass : EnvironmentClass (ℤ × ℤ) := ⟨environment, environment.destroy⟩

theorem environmentClass_scoped : environmentClass.Scoped where
  construct codes p := by
    simp only [environmentClass, environment]
    by_cases hmpi : p.mpiInitialized
    · by_cases hquery : codes.1 = 0
      · by_cases hinit : p.library = .initialized
        · simp [hmpi, hquery, hinit, Process.libraryInitialized, assertNoPetscErrors]
        · by_cases hcode : codes.2 = 0
          · simp [hmpi, hquery, hinit, hcode, Process.libraryInitialized, assertNoPetscErrors]
          · simp [hmpi, hquery, hinit, hcode, Process.libraryInitialized, assertNoPetscErrors]
      · simp [hmpi, hquery, assertNoPetscErrors]
    · simp [hmpi]
  destroy env p hinit := by
    simp only [environmentClass, environment.destroy, Process.mpiFinalized,
      Process.libraryFinalized, hinit]
    cases env.owns <;> simp

end Petsc

/-- Whatever the status of MPI and of the library at the start, every well-nested run of
constructions and destructions leaves the lifetime of the library balanced, for both classes. -/
theorem environments_balanced (describe : ℤ → String) (mpi : MpiStatus) (status : LibraryStatus) :
    (∀ tr j, Run (LifetimeStep (Hypre.environmentClass describe)) ⟨⟨mpi, status, []⟩, []⟩ tr j →
      Balanced status tr j) ∧
    (∀ tr j, Run (LifetimeStep Petsc.environmentClass) ⟨⟨mpi, status, []⟩, []⟩ tr j →
      Balanced status tr j) :=
  ⟨fun _ _ h => (Hypre.environmentClass_scoped describe).balanced h,
    fun _ _ h => Petsc.environmentClass_scoped.balanced h⟩

/-- Two nested environments of hypre, destroyed again, and two of PETSc, after MPI has been
finalized inside them. -/
theorem environments_balanced_nested :
    (∃ tr j, Run (LifetimeStep (Hypre.environmentClass fun _ => ""))
        ⟨⟨.running, .never, []⟩, []⟩ tr j ∧
      tr.length = 4 ∧ j = ⟨⟨.running, .finalized, [.initializes, .finalizes .running]⟩, []⟩ ∧
      Balanced .never tr j) ∧
    ∃ tr j, Run (LifetimeStep Petsc.environmentClass) ⟨⟨.running, .finalized, []⟩, []⟩ tr j ∧
      tr.length = 3 ∧ j.process.mpi = .finalized ∧ j.live.length = 2 ∧
      Balanced .finalized tr j := by
  let p : Process := ⟨.running, .initialized, [.initializes]⟩
  constructor
  · have h1 : LifetimeStep (Hypre.environmentClass fun _ => "") ⟨⟨.running, .never, []⟩, []⟩
        (.construct 0) ⟨p, [⟨⟨true⟩, .never⟩]⟩ := .construct rfl
    have h2 : LifetimeStep (Hypre.environmentClass fun _ => "") ⟨p, [⟨⟨true⟩, .never⟩]⟩
        (.construct 0) ⟨p, [⟨⟨false⟩, .initialized⟩, ⟨⟨true⟩, .never⟩]⟩ := .construct rfl
    have hrun := (((Run.nil.snoc h1).snoc h2).snoc .destroy).snoc .destroy
    exact ⟨_, _, hrun, rfl, rfl, (environments_balanced (fun _ => "") _ _).1 _ _ hrun⟩
  · have h1 : LifetimeStep Petsc.environmentClass ⟨⟨.running, .finalized, []⟩, []⟩
        (.construct (0, 0)) ⟨p, [⟨⟨true⟩, .finalized⟩]⟩ := .construct rfl
    have h2 : LifetimeStep Petsc.environmentClass ⟨p, [⟨⟨true⟩, .finalized⟩]⟩
        (.construct (0, 0)) ⟨p, [⟨⟨false⟩, .initialized⟩, ⟨⟨true⟩, .finalized⟩]⟩ := .construct rfl
    have hrun := ((Run.nil.snoc h1).snoc h2).snoc (.mpiFinalize rfl)
    exact ⟨_, _, hrun, rfl, rfl, rfl, (environments_balanced (fun _ => "") _ _).2 _ _ hrun⟩

end GinkgoTpl
