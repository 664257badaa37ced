import Mathlib.Algebra.Order.Ring.Int
import Mathlib.Data.Int.Basic
import Mathlib.Tactic.Ring

/-!
# Machine integers

Signed integers of a given width as mathematical integers: the values that fit, and the
conversion to the width, which keeps exactly those.
-/

namespace GinkgoTpl

/-- The value is one of a signed integer type of `bits` bits. -/
def IntFits (bits : ℕ) (value : ℤ) : Prop :=
  -2 ^ (bits - 1) ≤ value ∧ value ≤ 2 ^ (bits - 1) - 1

instance (bits : ℕ) (value : ℤ) : Decidable (IntFits bits value) :=
  inferInstanceAs (Decidable (_ ∧ _))

/-- `static_cast` to a signed integer type of `bits` bits. -/
def castInt (bits : ℕ) (value : ℤ) : ℤ := value.bmod (2 ^ bits)

/-- `static_cast` to `size_type`. -/
def castSize (value : ℤ) : ℕ := (value % 2 ^ 64).toNat

theorem IntFits.castInt {bits : ℕ} {value : ℤ} (hbits : 0 < bits) (h : IntFits bits value) :
    castInt bits value = value := by
  obtain ⟨b, rfl⟩ : ∃ b, bits = b + 1 := ⟨bits - 1, by omega⟩
  obtain ⟨h1, h2⟩ := h
  simp only [Nat.add_sub_cancel] at h1 h2
  refine Int.bmod_eq_of_le ?_ ?_ <;> push_cast <;> rw [pow_succ] <;> omega

theorem intFits_castInt {bits : ℕ} (hbits : 0 < bits) (value : ℤ) :
    IntFits bits (castInt bits value) := by
  obtain ⟨b, rfl⟩ : ∃ b, bits = b + 1 := ⟨bits - 1, by omega⟩
  have hpos : 0 < 2 ^ (b + 1) := Nat.pow_pos (by decide)
  have hle := Int.le_bmod (x := value) hpos
  have hlt := Int.bmod_lt (x := value) hpos
  rw [IntFits, GinkgoTpl.castInt, Nat.add_sub_cancel]
  push_cast [pow_succ] at *
  omega

/-- The conversion keeps exactly the values that fit. -/
theorem castInt_eq_iff {bits : ℕ} {value : ℤ} (hbits : 0 < bits) :
    castInt bits value = value ↔ IntFits bits value :=
  ⟨fun h => h ▸ intFits_castInt hbits value, IntFits.castInt hbits⟩

/-- The conversion brings no two values further apart. -/
theorem castInt_sub_le {bits : ℕ} {a b : ℤ} (hab : a ≤ b) :
    castInt bits b - castInt bits a ≤ b - a := by
  have hpos : 0 < 2 ^ bits := Nat.pow_pos (by decide)
  obtain ⟨k, hk⟩ : ((2 ^ bits : ℕ) : ℤ) ∣ (b - a) - (castInt bits b - castInt bits a) := by
    have ha : ((2 ^ bits : ℕ) : ℤ) ∣ a.bmod (2 ^ bits) - a := Int.dvd_bmod_sub_self
    have hb : ((2 ^ bits : ℕ) : ℤ) ∣ b.bmod (2 ^ bits) - b := Int.dvd_bmod_sub_self
    have := Int.dvd_sub ha hb
    rwa [show a.bmod (2 ^ bits) - a - (b.bmod (2 ^ bits) - b) =
      b - a - (castInt bits b - castInt bits a) by unfold castInt; ring] at this
  have ha := Int.le_bmod (x := a) hpos
  have hb := Int.bmod_lt (x := b) hpos
  -- the difference is a multiple of the modulus, and more than its negative
  have hgt : -((2 ^ bits : ℕ) : ℤ) < b - a - (castInt bits b - castInt bits a) := by
    unfold castInt
    omega
  have hk0 : 0 ≤ k := by
    by_contra hneg
    have : ((2 ^ bits : ℕ) : ℤ) * k ≤ ((2 ^ bits : ℕ) : ℤ) * (-1) :=
      mul_le_mul_of_nonneg_left (by omega) (Int.natCast_nonneg _)
    omega
  have := mul_nonneg (Int.natCast_nonneg (2 ^ bits)) hk0
  omega

theorem castSize_of_lt {value : ℤ} (h0 : 0 ≤ value) (h : value < 2 ^ 64) :
    castSize value = value.toNat := by
  rw [castSize, Int.emod_eq_of_lt h0 h]

/-- Whatever lies between 0 and a value that fits, fits. -/
theorem IntFits.of_le {bits : ℕ} {a b : ℤ} (h : IntFits bits b) (h0 : 0 ≤ a) (hab : a ≤ b) :
    IntFits bits a := by
  unfold IntFits at h ⊢
  have : (0 : ℤ) < 2 ^ (bits - 1) := Int.pow_pos (by decide)
  omega

/-- Only a type of two bits or more has a positive value. -/
theorem IntFits.pos_bits {bits : ℕ} {value : ℤ} (h : IntFits bits value) (h0 : 0 < value) :
    0 < bits := by
  refine Nat.pos_of_ne_zero fun hbits => ?_
  subst hbits
  have := h.2
  norm_num at this
  omega

/-- A size that fits survives the conversion to the type and back. -/
theorem IntFits.castSize {bits n : ℕ} (hbits : 0 < bits) (hle : bits ≤ 64) (h : IntFits bits n) :
    castSize (GinkgoTpl.castInt bits n) = n := by
  rw [h.castInt hbits, castSize_of_lt (Int.natCast_nonneg n), Int.toNat_natCast]
  have hpow : (2 : ℤ) ^ (bits - 1) ≤ 2 ^ 64 := pow_le_pow_right₀ (by decide) (by omega)
  have := h.2
  omega

end GinkgoTpl
