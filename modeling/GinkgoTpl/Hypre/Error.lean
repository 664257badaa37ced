import Mathlib.Algebra.Order.Ring.Int
import GinkgoTpl.Error

/-! # Errors of hypre calls -/

namespace GinkgoTpl.Hypre

/-- The exception for a hypre call that did not return 0: `describe` is hypre's description of an
error code, and the code is shown as an `int`. -/
def hypreError (describe : ℤ → String) (code : ℤ) (call : String) : Error :=
  .invalidState ("hypre error code " ++ toString (code.bmod (2 ^ 32)) ++ " (" ++ describe code ++
    ") returned by " ++ call)

/-- `GKO_TPL_ASSERT_NO_HYPRE_ERRORS`, except for the error flag of hypre that it clears. -/
def assertNoHypreErrors (describe : ℤ → String) (code : ℤ) (call : String) : Except Error Unit :=
  if code ≠ 0 then .error (hypreError describe code call) else .ok ()

@[simp] theorem assertNoHypreErrors_zero (describe : ℤ → String) (call : String) :
    assertNoHypreErrors describe 0 call = .ok () := rfl

theorem assertNoHypreErrors_of_ne {describe : ℤ → String} {code : ℤ} {call : String}
    (h : code ≠ 0) :
    assertNoHypreErrors describe code call = .error (hypreError describe code call) :=
  if_pos h

end GinkgoTpl.Hypre
