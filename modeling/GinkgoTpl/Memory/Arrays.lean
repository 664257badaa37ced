import Mathlib.Data.List.Basic
import Mathlib.Logic.Function.Basic

/-!
# Arrays that a solver works on

Arrays in memory by their addresses. A solve reads the first values of two arrays and overwrites
those of one: `outcomes` is what any number of solves leave in memory, and `givens` is what each of
them has found (`givens_getElem?`).
-/

namespace GinkgoTpl.Memory

variable {ι V : Type}

/-- The arrays in memory by their addresses. -/
abbrev Arrays (ι V : Type) := ι → Option (List V)

namespace Arrays

/-- An array with at least `n` values. -/
def Holds (m : Arrays ι V) (p : ι) (n : ℕ) : Prop := ∃ values, m p = some values ∧ n ≤ values.length

/-- The first `n` values of an array. -/
def first (m : Arrays ι V) (p : ι) (n : ℕ) : List V := ((m p).getD []).take n

section
variable {m : Arrays ι V} {p : ι} {n : ℕ}

theorem length_first_le : (m.first p n).length ≤ n := List.length_take_le ..

theorem Holds.length_first (h : m.Holds p n) : (m.first p n).length = n := by
  obtain ⟨values, hvalues, hn⟩ := h
  rw [first, hvalues, Option.getD_some, List.length_take_of_le hn]

end

variable [DecidableEq ι] (m : Arrays ι V) (p : ι) (n : ℕ)

/-- The first `n` values of an array are overwritten. -/
def write (values : List V) : Arrays ι V :=
  Function.update m p ((m p).map fun old => values.take n ++ old.drop n)

def allocate (values : List V) : Arrays ι V := Function.update m p (some values)

def free : Arrays ι V := Function.update m p none

variable {m p n} {q : ι} {values : List V}

theorem write_of_ne (h : q ≠ p) : m.write p n values q = m q := Function.update_of_ne h ..

theorem write_eq_none (h : m q = none) : m.write p n values q = none := by
  by_cases hq : q = p
  · subst hq
    rw [write, Function.update_self, h, Option.map_none]
  · rw [write_of_ne hq, h]

/-- Arrays keep their lengths. -/
theorem Holds.write (h : m.Holds q n) (hvalues : values.length = n) :
    (m.write p n values).Holds q n := by
  obtain ⟨old, hold, hn⟩ := h
  by_cases hq : q = p
  · subst hq
    refine ⟨values.take n ++ old.drop n, ?_, ?_⟩
    · rw [Arrays.write, Function.update_self, hold, Option.map_some]
    · simp [hvalues]
  · exact ⟨old, by rw [write_of_ne hq, hold], hn⟩

theorem Holds.first_write (h : m.Holds p n) (hvalues : values.length = n) :
    (m.write p n values).first p n = values := by
  obtain ⟨old, hold, -⟩ := h
  rw [first, Arrays.write, Function.update_self, hold, Option.map_some, Option.getD_some,
    List.take_of_length_le (Nat.le_of_eq hvalues), ← hvalues, List.take_left]

theorem first_allocate (hvalues : values.length ≤ n) :
    (m.allocate p values).first p n = values := by
  rw [first, allocate, Function.update_self, Option.getD_some, List.take_of_length_le hvalues]

theorem first_allocate_of_ne (h : q ≠ p) : (m.allocate p values).first q n = m.first q n := by
  rw [first, allocate, Function.update_of_ne h, first]

end Arrays

/-! ## Solves -/

/-- A solve with the arrays at `b` and `x`, and the solution that it leaves in `x`. -/
structure Solve (ι V : Type) where
  b : ι
  x : ι
  solution : List V

/-- The arrays and the solution are long enough for `n` rows. -/
structure Solve.Fits (s : Solve ι V) (n : ℕ) (m : Arrays ι V) : Prop where
  solution : s.solution.length = n
  b : m.Holds s.b n
  x : m.Holds s.x n

/-- What the solve finds in `b` and in `x`. -/
def Solve.given (n : ℕ) (m : Arrays ι V) (s : Solve ι V) : List V × List V :=
  (m.first s.b n, m.first s.x n)

variable [DecidableEq ι] (n : ℕ) (m : Arrays ι V)

/-- The memory after the solve. -/
def Solve.outcome (s : Solve ι V) : Arrays ι V := m.write s.x n s.solution

/-- The memory after solves. -/
def outcomes (ss : List (Solve ι V)) : Arrays ι V := ss.foldl (Solve.outcome n) m

/-- What solves find in `b` and `x`. -/
def givens (m : Arrays ι V) : List (Solve ι V) → List (List V × List V)
  | [] => []
  | s :: ss => s.given n m :: givens (s.outcome n m) ss

variable {n m} {s s' : Solve ι V} {ss : List (Solve ι V)}

theorem Solve.Fits.outcome (h : s.Fits n m) (hsolution : s'.solution.length = n) :
    s.Fits n (s'.outcome n m) :=
  ⟨h.solution, h.b.write hsolution, h.x.write hsolution⟩

theorem Solve.Fits.outcomes (h : s.Fits n m) (hss : ∀ s' ∈ ss, s'.Fits n m) :
    s.Fits n (outcomes n m ss) := by
  induction ss generalizing m with
  | nil => exact h
  | cons s' ss ih =>
    obtain ⟨hs', hss⟩ := List.forall_mem_cons.mp hss
    exact ih (h.outcome hs'.solution) fun t ht => (hss t ht).outcome hs'.solution

theorem outcomes_append (m : Arrays ι V) (ss ss' : List (Solve ι V)) :
    outcomes n m (ss ++ ss') = outcomes n (outcomes n m ss) ss' := List.foldl_append

theorem givens_append (m : Arrays ι V) (ss ss' : List (Solve ι V)) :
    givens n m (ss ++ ss') = givens n m ss ++ givens n (outcomes n m ss) ss' := by
  induction ss generalizing m with
  | nil => rfl
  | cons s ss ih => exact congrArg (s.given n m :: ·) (ih _)

/-- A solve finds what the solves before it have left. -/
theorem givens_getElem? (m : Arrays ι V) (ss : List (Solve ι V)) (k : ℕ) :
    (givens n m ss)[k]? = ss[k]?.map (Solve.given n (outcomes n m (ss.take k))) := by
  induction ss generalizing m k with
  | nil => rfl
  | cons s ss ih =>
    cases k with
    | zero => rfl
    | succ k =>
      rw [givens, List.getElem?_cons_succ, List.getElem?_cons_succ, ih, List.take_succ_cons]
      rfl

/-- After a solve, its solution stands in `x`. -/
theorem first_outcomes_succ (hss : ∀ s ∈ ss, s.Fits n m) {k : ℕ} (hk : ss[k]? = some s) :
    (outcomes n m (ss.take (k + 1))).first s.x n = s.solution := by
  have hs := hss s (List.mem_of_getElem? hk)
  have hfits : s.Fits n (outcomes n m (ss.take k)) :=
    hs.outcomes fun s' hs' => hss s' (List.mem_of_mem_take hs')
  rw [List.take_add_one, hk, Option.toList_some, outcomes_append]
  exact hfits.x.first_write hs.solution

end GinkgoTpl.Memory
