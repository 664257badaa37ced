import Mathlib.Algebra.Order.Ring.Rat

/-!
# Double precision numbers

The values of a `double` as the wrappers compare and hand them on: the rational numbers, the
negative zero, the two infinities, and NaN, which fails every comparison. The wrappers do not
calculate with them, so there is no arithmetic and no rounding.
-/

namespace GinkgoTpl

inductive Double where
  | nan
  | infinite (negative : Bool)
  | finite (value : ℚ)
  | negativeZero
  deriving DecidableEq

namespace Double

instance : Zero Double := ⟨.finite 0⟩

/-- Below, among or above the finite numbers. -/
def side : Double → ℤ
  | infinite negative => if negative then -1 else 1
  | _ => 0

/-- The value of a finite number; both zeros have the same. -/
def rational : Double → ℚ
  | finite value => value
  | _ => 0

instance : LE Double where
  le x y := x ≠ nan ∧ y ≠ nan ∧ (x.side < y.side ∨ x.side = y.side ∧ x.rational ≤ y.rational)

instance : LT Double where
  lt x y := x ≤ y ∧ ¬ y ≤ x

instance (x y : Double) : Decidable (x ≤ y) := inferInstanceAs (Decidable (_ ∧ _ ∧ _))
instance (x y : Double) : Decidable (x < y) := inferInstanceAs (Decidable (_ ∧ _))

variable {x y : Double}

theorem le_or_le (hx : x ≠ nan) (hy : y ≠ nan) : x ≤ y ∨ y ≤ x := by
  rcases lt_trichotomy x.side y.side with hlt | heq | hgt
  · exact .inl ⟨hx, hy, .inl hlt⟩
  · rcases le_total x.rational y.rational with hle | hle
    · exact .inl ⟨hx, hy, .inr ⟨heq, hle⟩⟩
    · exact .inr ⟨hy, hx, .inr ⟨heq.symm, hle⟩⟩
  · exact .inr ⟨hy, hx, .inl hgt⟩

/-- A comparison fails if the opposite strict one holds, or on a NaN. -/
theorem not_le_iff : ¬ x ≤ y ↔ y < x ∨ x = nan ∨ y = nan := by
  constructor
  · intro h
    by_cases hx : x = nan
    · exact .inr (.inl hx)
    by_cases hy : y = nan
    · exact .inr (.inr hy)
    exact .inl ⟨(le_or_le hx hy).resolve_left h, h⟩
  · rintro (hlt | hx | hy) hle
    · exact hlt.2 hle
    · exact hle.1 hx
    · exact hle.2.1 hy

end Double

end GinkgoTpl
