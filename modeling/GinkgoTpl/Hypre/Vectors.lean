import GinkgoTpl.Hypre.ParCsr
import GinkgoTpl.Hypre.Lib

/-!
# hypre vectors over the caller's memory

`hypre/detail/vectors.hpp`: a `PlacedVector` points hypre at an array that hypre neither allocates
nor frees. From release 2.33 on it goes through the IJ interface, whose assembly is collective,
before that through hypre's internals.
-/

namespace GinkgoTpl.Hypre

open Memory Spmd

variable {P : ℕ} {A V : Type} [Inhabited V]

/-- A hypre vector: the handles of the IJ vector, if there is one, and of the vector itself. -/
structure PlacedVector where
  ijVector : Option ℕ
  vector : Option ℕ
  ownsParVector : Bool

namespace PlacedVector

/-- The constructor of the vector `v` over the array at `values`. -/
def new (build : Build) (hypre : Lib V) (v : Operand) (comm : Comm) (rowStart localSize : ℤ)
    (values : ℕ) (location : MemoryLocation) (policy : PolicyState) (heap : Heap (Buffer V)) :
    Program (mpi P) A Error (PlacedVector × PolicyState × Heap (Buffer V)) := do
  let policy ← Program.ofExcept (hypre.setProcessPolicy build location policy)
  if build.release ≥ 23300 then
    Program.ofExcept (hypre.check (.ijVectorCreate v rowStart (rowStart + localSize - 1)))
    let ijVector := heap.next
    let heap := heap.alloc .object
    Program.ofExcept (hypre.check (.ijVectorSetObjectType v))
    Program.ofExcept (hypre.check (.ijVectorInitializeShell v))
    Program.ofExcept (hypre.check (.ijVectorSetData v values))
    let _ ← collective comm (.library .hypreIJVectorAssemble) ()
    Program.ofExcept (hypre.check (.ijVectorAssemble v))
    Program.ofExcept (hypre.check (.ijVectorGetObject v))
    return (⟨some ijVector, some heap.next, false⟩, policy, heap.alloc .object)
  else
    if hypre.parVectorNull v then
      .raise (.invalidState "hypre_ParVectorCreate returned null")
    else do
      Program.ofExcept (hypre.check (.seqVectorSetDataOwner v))
      Program.ofExcept (hypre.check (.parVectorInitialize v))
      return (⟨none, some heap.next, true⟩, policy, heap.alloc .object)

end PlacedVector

end GinkgoTpl.Hypre
