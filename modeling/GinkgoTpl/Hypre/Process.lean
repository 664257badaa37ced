import GinkgoTpl.Environment

/-!
# Processes that use hypre

The steps that change the lifetime of hypre and MPI in a process, in any order: environments come
and go, the application may initialize and finalize hypre itself, and MPI ends once. A step does
not ask which of the environments are alive, so every order of their destructions is covered.
-/

namespace GinkgoTpl.Hypre

inductive ProcessEvent where
  | constructEnvironment (code : ℤ)
  | destroyEnvironment (env : Environment)
  | initializeByApplication
  | finalizeByApplication
  | mpiInit
  | mpiFinalize

inductive ProcessStep (describe : ℤ → String) : Process → ProcessEvent → Process → Prop
  | constructEnvironment {p code result p'} : environment describe code p = (result, p') →
    ProcessStep describe p (.constructEnvironment code) p'
  | destroyEnvironment {p env} :
    ProcessStep describe p (.destroyEnvironment env) (environment.destroy env p)
  | initializeByApplication {p} : p.library ≠ .initialized →
    ProcessStep describe p .initializeByApplication p.initializeLibrary
  | finalizeByApplication {p} : p.library = .initialized →
    ProcessStep describe p .finalizeByApplication p.finalizeLibrary
  | mpiInit {p} : p.mpi = .notInitialized →
    ProcessStep describe p .mpiInit { p with mpi := .running }
  | mpiFinalize {p} : p.mpi = .running →
    ProcessStep describe p .mpiFinalize { p with mpi := .finalized }

end GinkgoTpl.Hypre
