import Mathlib.Data.Nat.Notation
import GinkgoTpl.Transition.Throwing

/-!
# Memory spaces

Memory of several spaces, with pointers into them, copies between them, and arrays that are freed
however the code that uses them ends. A computation on two arrays is `Confined` to their first `n`
values if it reads and writes no others and never writes the first array; it then does the same to
the values of any other two arrays.
-/

namespace GinkgoTpl.Memory

open Transition

variable {S V : Type}

structure Pointer (S : Type) where
  space : S
  address : ℕ
  deriving DecidableEq

namespace Pointer

def offset (p : Pointer S) (i : ℕ) : Pointer S := ⟨p.space, p.address + i⟩

/-- `q` points to one of the `n` values behind `p`. -/
def Among (q p : Pointer S) (n : ℕ) : Prop :=
  q.space = p.space ∧ p.address ≤ q.address ∧ q.address < p.address + n

instance [DecidableEq S] (q p : Pointer S) (n : ℕ) : Decidable (q.Among p n) :=
  inferInstanceAs (Decidable (_ ∧ _))

theorem among_offset {p : Pointer S} {i n : ℕ} (hi : i < n) : (p.offset i).Among p n :=
  ⟨rfl, Nat.le_add_right _ _, Nat.add_lt_add_left hi _⟩

theorem Among.exists_offset {q p : Pointer S} {n : ℕ} (h : q.Among p n) :
    ∃ i < n, q = p.offset i := by
  cases q with
  | mk space address =>
    obtain ⟨rfl, hle, hlt⟩ := h
    have hsum : p.address + (address - p.address) = address := Nat.add_sub_cancel' hle
    refine ⟨address - p.address, ?_, ?_⟩
    · exact Nat.lt_of_add_lt_add_left (hsum ▸ hlt)
    · rw [offset, hsum]

end Pointer

/-- The values of all spaces, where memory is allocated. -/
abbrev Cells (S V : Type) := Pointer S → Option V

section
variable [DecidableEq S]

/-- Copies `n` values. -/
def copy (n : ℕ) (src dst : Pointer S) (m : Cells S V) : Cells S V := fun q =>
  if q.Among dst n then m (src.offset (q.address - dst.address)) else m q

/-- Puts new memory for `n` values behind a pointer. -/
def allocate (n : ℕ) (p : Pointer S) (contents : Pointer S → V) (m : Cells S V) : Cells S V :=
  fun q => if q.Among p n then some (contents q) else m q

def release (n : ℕ) (p : Pointer S) (m : Cells S V) : Cells S V := fun q =>
  if q.Among p n then none else m q

/-- Chooses an address for `n` new values in a space, where nothing is allocated. What the memory
then holds is anything. -/
structure Allocator (V : Type) (s : S) where
  address : Cells S V → ℕ → Option ℕ
  contents : Pointer S → V
  fresh : ∀ {m n a}, address m n = some a → ∀ q : Pointer S, q.Among ⟨s, a⟩ n → m q = none

/-- Runs `body` on a new array, which is freed however `body` ends. -/
def withArray {ε α : Type} {s : S} (alloc : Allocator V s) (badAlloc : ε) (n : ℕ)
    (body : Pointer S → EStateM ε (Cells S V) α) : EStateM ε (Cells S V) α := fun m =>
  match alloc.address m n with
  | none => .error badAlloc m
  | some a =>
    match body ⟨s, a⟩ (allocate n ⟨s, a⟩ alloc.contents m) with
    | .ok r m => .ok r (release n ⟨s, a⟩ m)
    | .error e m => .error e (release n ⟨s, a⟩ m)

/-- Takes the first address below a bound with room for the values. -/
def Allocator.firstFit (s : S) (bound : ℕ) (contents : V) : Allocator V s where
  address m n :=
    (List.range bound).find? fun a => (List.range n).all fun i => (m ⟨s, a + i⟩).isNone
  contents _ := contents
  fresh := by
    intro m n a h q hq
    obtain ⟨i, hi, rfl⟩ := hq.exists_offset
    have hfree := List.find?_some h
    simp only [List.all_eq_true, List.mem_range, Option.isNone_iff_eq_none] at hfree
    exact hfree i hi

end

/-! ## Copies, allocations and releases -/

section
variable [DecidableEq S] {m : Cells S V} {n i : ℕ} {p q src dst : Pointer S}
  {contents : Pointer S → V}

theorem copy_offset (hi : i < n) : copy n src dst m (dst.offset i) = m (src.offset i) := by
  have hsub : (dst.offset i).address - dst.address = i := Nat.add_sub_cancel_left ..
  rw [copy, if_pos (Pointer.among_offset hi), hsub]

theorem copy_of_not_among (hq : ¬ q.Among dst n) : copy n src dst m q = m q := if_neg hq

theorem allocate_of_not_among (hq : ¬ q.Among p n) : allocate n p contents m q = m q := if_neg hq

theorem release_of_not_among (hq : ¬ q.Among p n) : release n p m q = m q := if_neg hq

/-- Memory that is released again leaves no trace. -/
theorem release_allocate (hfresh : ∀ q : Pointer S, q.Among p n → m q = none) :
    release n p (allocate n p contents m) = m := by
  funext q
  by_cases hq : q.Among p n
  · rw [release, if_pos hq, hfresh q hq]
  · rw [release_of_not_among hq, allocate_of_not_among hq]

/-- New memory is apart from what was allocated just before. -/
theorem not_among_of_fresh
    (hfresh : ∀ q : Pointer S, q.Among p n → allocate n dst contents m q = none)
    (hq : q.Among dst n) : ¬ q.Among p n := fun hp => by
  have hnone := hfresh q hp
  rw [allocate, if_pos hq] at hnone
  cases hnone

end

/-- What the body does with other pointers than those of its space does not matter. -/
theorem withArray_congr [DecidableEq S] {ε α : Type} {s : S} {alloc : Allocator V s} {badAlloc : ε}
    {n : ℕ} {body body' : Pointer S → EStateM ε (Cells S V) α}
    (h : ∀ p : Pointer S, p.space = s → body p = body' p) :
    withArray alloc badAlloc n body = withArray alloc badAlloc n body' := by
  have hbody : ∀ a, body ⟨s, a⟩ = body' ⟨s, a⟩ := fun a => h _ rfl
  funext m
  simp only [withArray, hbody]

/-! ## Computations on two arrays -/

/-- Two arrays of at least `n` values whose first `n` values are apart. -/
structure Operands (n : ℕ) (b x : Pointer S) (m : Cells S V) : Prop where
  b_allocated : ∀ i < n, (m (b.offset i)).isSome
  x_allocated : ∀ i < n, (m (x.offset i)).isSome
  apart : ∀ i < n, ¬ (b.offset i).Among x n

/-- A computation that reads at most the first `n` values behind `b` and `x` and writes at most the
first `n` behind `x`: what it returns and what it writes depends on the values it reads. -/
structure Confined {ε ρ : Type} (n : ℕ)
    (solve : Pointer S → Pointer S → EStateM ε (Cells S V) ρ) : Prop where
  frame : ∀ {b x m}, Operands n b x m → ∀ q, ¬ q.Among x n → stateAfter (solve b x) m q = m q
  outcome : ∀ {b x m b' x' m'}, Operands n b x m → Operands n b' x' m' →
    (∀ i < n, m (b.offset i) = m' (b'.offset i)) → (∀ i < n, m (x.offset i) = m' (x'.offset i)) →
    outcome (solve b x) m = outcome (solve b' x') m'
  written : ∀ {b x m b' x' m'}, Operands n b x m → Operands n b' x' m' →
    (∀ i < n, m (b.offset i) = m' (b'.offset i)) → (∀ i < n, m (x.offset i) = m' (x'.offset i)) →
    ∀ i < n, stateAfter (solve b x) m (x.offset i) = stateAfter (solve b' x') m' (x'.offset i)

end GinkgoTpl.Memory
