import Mathlib.Data.List.TakeWhile
import GinkgoTpl.MachineInt

/-!
# Numbers in text

`readInt` reads a number as the C function `strtoll` does with base 10: after white space and a
sign, the longest run of digits, whatever follows it. It reads back what `showInt` writes.
-/

namespace GinkgoTpl.Text

/-- The number that the leading digits write, if there are any. -/
def readNat (s : List Char) : Option ℕ :=
  let digits := s.takeWhile Char.isDigit
  if digits = [] then none else some (Nat.ofDigitChars 10 digits 0)

/-- The number at the beginning, after white space and a sign. -/
def readInt (isSpace : Char → Bool) (s : List Char) : Option ℤ :=
  match s.dropWhile isSpace with
  | '-' :: s => (readNat s).map fun n => -n
  | '+' :: s => (readNat s).map (↑)
  | s => (readNat s).map (↑)

/-- A number in decimal notation. -/
def showInt (v : ℤ) : List Char :=
  if v < 0 then '-' :: Nat.toDigits 10 v.natAbs else Nat.toDigits 10 v.natAbs

variable {s rest : List Char} {n : ℕ}

/-- What follows the digits is left alone. -/
theorem readNat_toDigits (hrest : ∀ c ∈ rest.head?, c.isDigit = false) :
    readNat (Nat.toDigits 10 n ++ rest) = some n := by
  have hdigits : ∀ c ∈ Nat.toDigits 10 n, c.isDigit := fun c hc =>
    Nat.isDigit_of_mem_toDigits (by decide) (by decide) hc
  have htake : (Nat.toDigits 10 n ++ rest).takeWhile Char.isDigit = Nat.toDigits 10 n := by
    rw [List.takeWhile_append_of_pos hdigits]
    cases rest with
    | nil => simp
    | cons c rest => simp [hrest c rfl]
  rw [readNat, htake, if_neg Nat.toDigits_ne_nil, Nat.ofDigitChars_ten_toDigits]

theorem readInt_cons {isSpace : Char → Bool} {c : Char} (hspace : isSpace c = false)
    (hminus : c ≠ '-') (hplus : c ≠ '+') :
    readInt isSpace (c :: s) = (readNat (c :: s)).map (↑) := by
  have hdrop : (c :: s).dropWhile isSpace = c :: s := by simp [hspace]
  unfold readInt
  rw [hdrop]
  split
  · rename_i heq
    cases heq
    exact absurd rfl hminus
  · rename_i heq
    cases heq
    exact absurd rfl hplus
  · rfl

theorem readInt_showInt {isSpace : Char → Bool} (hminus : isSpace '-' = false)
    (hspace : ∀ c, c.isDigit → isSpace c = false) (v : ℤ)
    (hrest : ∀ c ∈ rest.head?, c.isDigit = false) :
    readInt isSpace (showInt v ++ rest) = some v := by
  have hread := readNat_toDigits (n := v.natAbs) hrest
  unfold showInt
  split
  · have hneg : -(v.natAbs : ℤ) = v := by omega
    simpa [readInt, hminus, hread] using hneg
  · have hnonneg : (v.natAbs : ℤ) = v := by omega
    obtain ⟨c, cs, hcs⟩ := List.exists_cons_of_ne_nil
      (Nat.toDigits_ne_nil (n := v.natAbs) (b := 10))
    have hc : c.isDigit := Nat.isDigit_of_mem_toDigits (b := 10) (n := v.natAbs) (by decide)
      (by decide) (hcs ▸ List.mem_cons_self)
    rw [hcs, List.cons_append] at hread ⊢
    rw [readInt_cons (hspace c hc) ?_ ?_, hread, Option.map_some, hnonneg]
    · rintro rfl
      exact absurd hc (by decide)
    · rintro rfl
      exact absurd hc (by decide)

end GinkgoTpl.Text
