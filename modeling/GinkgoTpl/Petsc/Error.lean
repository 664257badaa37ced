import Mathlib.Algebra.Order.Ring.Int
import GinkgoTpl.Error

/-! # Errors of PETSc calls -/

namespace GinkgoTpl.Petsc

/-- `GKO_TPL_ASSERT_NO_PETSC_ERRORS`: a call that did not return `PETSC_SUCCESS` throws; the code
is shown as an `int`. -/
def assertNoPetscErrors (code : ℤ) (call : String) : Except Error Unit :=
  if code ≠ 0 then
    .error (.invalidState ("PETSc error code " ++ toString (code.bmod (2 ^ 32)) ++
      " returned by " ++ call))
  else .ok ()

@[simp] theorem assertNoPetscErrors_zero (call : String) :
    assertNoPetscErrors 0 call = .ok () := rfl

end GinkgoTpl.Petsc
