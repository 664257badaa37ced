import Mathlib.Init

/-! # Exceptions of the wrappers -/

namespace GinkgoTpl

/-- The classes of exceptions that the wrappers throw, or Ginkgo's arrays below them. -/
inductive ErrorKind where
  | notSupported
  | invalidState
  | dimensionMismatch
  | allocationError
  deriving DecidableEq, Repr

structure Error where
  kind : ErrorKind
  what : String
  deriving DecidableEq, Repr

namespace Error

def notSupported (what : String) : Error := ⟨.notSupported, what⟩
def invalidState (what : String) : Error := ⟨.invalidState, what⟩
def dimensionMismatch (what : String) : Error := ⟨.dimensionMismatch, what⟩
def allocationError (what : String) : Error := ⟨.allocationError, what⟩

end Error

section
variable {ε α β : Type}

@[simp] theorem ok_bind (a : α) (f : α → Except ε β) : (Except.ok a >>= f) = f a := rfl

@[simp] theorem error_bind (e : ε) (f : α → Except ε β) :
    (Except.error e >>= f) = Except.error e := rfl

@[simp] theorem mapError_ok {ε' : Type} (g : ε → ε') (a : α) :
    (Except.ok a : Except ε α).mapError g = .ok a := rfl

/-- A computation that may throw returns if both of its parts do. -/
theorem bind_eq_ok {x : Except ε α} {f : α → Except ε β} {b : β} :
    (x >>= f) = .ok b ↔ ∃ a, x = .ok a ∧ f a = .ok b := by
  cases x <;> simp

end

end GinkgoTpl
