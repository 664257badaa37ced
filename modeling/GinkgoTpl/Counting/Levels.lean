import Mathlib.Algebra.BigOperators.Group.List.Basic
import Mathlib.Algebra.Order.Ring.Int
import Mathlib.Data.List.Basic
import Mathlib.Data.List.Nodup

/-!
# Counting how far values reach

Each value of a list reaches all levels from 0 up to itself. `profile` lists, for every level that
some value reaches, how many values reach it, and `profile_sum` counts it the other way round.
Counters that are incremented one after the other hold the multiplicities of the increments:
`getElem?_increments`.
-/

namespace GinkgoTpl.Counting

/-! ## The highest level -/

/-- The largest value of a list, or 0. -/
def top (l : List ℕ) : ℕ := l.foldr max 0

theorem top_le_iff {l : List ℕ} {m : ℕ} : top l ≤ m ↔ ∀ x ∈ l, x ≤ m := by
  unfold top
  induction l with
  | nil => simp
  | cons x l ih => simp only [List.foldr_cons, max_le_iff, ih, List.forall_mem_cons]

theorem le_top {l : List ℕ} {x : ℕ} (h : x ∈ l) : x ≤ top l := top_le_iff.mp le_rfl x h

theorem top_append (l l' : List ℕ) : top (l ++ l') = max (top l) (top l') := by
  refine eq_of_forall_ge_iff fun m => ?_
  simp only [max_le_iff, top_le_iff, List.mem_append, or_imp, forall_and]

theorem top_mem {l : List ℕ} (h : l ≠ []) : top l ∈ l := by
  induction l with
  | nil => exact absurd rfl h
  | cons x l ih =>
    have hcons : top (x :: l) = max x (top l) := rfl
    rcases Nat.le_total (top l) x with hle | hle
    · rw [hcons, Nat.max_eq_left hle]
      exact List.mem_cons_self ..
    · rw [hcons, Nat.max_eq_right hle]
      by_cases hl : l = []
      · subst hl
        exact Nat.le_zero.mp hle ▸ List.mem_cons_self ..
      · exact List.mem_cons_of_mem x (ih hl)

/-! ## How many values reach a level -/

/-- The number of values that reach level `k`. -/
def reaching (l : List ℕ) (k : ℕ) : ℕ := l.countP (k ≤ ·)

theorem reaching_zero (l : List ℕ) : reaching l 0 = l.length := by
  simp [reaching]

theorem reaching_antitone (l : List ℕ) {j k : ℕ} (h : j ≤ k) : reaching l k ≤ reaching l j := by
  refine List.countP_mono_left fun x _ hx => ?_
  simp only [decide_eq_true_eq] at hx ⊢
  exact h.trans hx

theorem reaching_append (l l' : List ℕ) (k : ℕ) :
    reaching (l ++ l') k = reaching l k + reaching l' k := List.countP_append ..

theorem reaching_flatMap {α : Type} (l : List α) (f : α → List ℕ) (k : ℕ) :
    reaching (l.flatMap f) k = (l.map fun a => reaching (f a) k).sum := List.countP_flatMap

theorem reaching_le_length (l : List ℕ) (k : ℕ) : reaching l k ≤ l.length := List.countP_le_length

theorem reaching_pos {l : List ℕ} {k : ℕ} : 0 < reaching l k ↔ ∃ x ∈ l, k ≤ x := by
  simp [reaching, List.countP_pos_iff]

/-- The numbers of values on the levels below `m` add up to the number of levels that the values
reach. -/
theorem sum_reaching {l : List ℕ} {m : ℕ} (h : ∀ x ∈ l, x < m) :
    ((List.range m).map (reaching l)).sum = (l.map (· + 1)).sum := by
  induction l with
  | nil =>
    have hnone : (List.range m).map (reaching []) = List.replicate m 0 :=
      List.eq_replicate_iff.mpr ⟨by simp, fun k hk => by simp_all [reaching]⟩
    rw [hnone]
    simp
  | cons x l ih =>
    have hone : ((List.range m).map (reaching [x])).sum = x + 1 := by
      have hx : x < m := h x (List.mem_cons_self ..)
      obtain ⟨d, rfl⟩ : ∃ d, m = (x + 1) + d := ⟨m - (x + 1), by omega⟩
      have hlow : (List.range (x + 1)).map (reaching [x]) = List.replicate (x + 1) 1 := by
        refine List.eq_replicate_iff.mpr ⟨by simp, fun k hk => ?_⟩
        obtain ⟨j, hj, rfl⟩ := List.mem_map.mp hk
        have hj : j ≤ x := Nat.lt_succ_iff.mp (List.mem_range.mp hj)
        simp [reaching, hj]
      have hhigh : ((List.range d).map (x + 1 + ·)).map (reaching [x]) = List.replicate d 0 := by
        refine List.eq_replicate_iff.mpr ⟨by simp, fun k hk => ?_⟩
        simp only [List.map_map, List.mem_map, Function.comp_apply] at hk
        obtain ⟨j, -, rfl⟩ := hk
        have hj : ¬ x + 1 + j ≤ x := by omega
        simp [reaching, hj]
      rw [List.range_add, List.map_append, hlow, hhigh]
      simp
    have hsplit : (List.range m).map (reaching (x :: l)) =
        (List.range m).map fun k => reaching [x] k + reaching l k :=
      List.map_congr_left fun k _ => reaching_append [x] l k
    rw [hsplit, List.sum_map_add, hone, ih fun y hy => h y (List.mem_cons_of_mem _ hy)]
    simp

/-! ## The profile of a list -/

/-- How many values reach each of the levels that some value reaches; level 0 is always there. -/
def profile (l : List ℕ) : List ℕ := (List.range (top l + 1)).map (reaching l)

variable (l : List ℕ)

@[simp] theorem length_profile : (profile l).length = top l + 1 := by simp [profile]

theorem getElem?_profile {k : ℕ} (h : k < top l + 1) : (profile l)[k]? = some (reaching l k) := by
  simp [profile, h]

theorem profile_head : (profile l).head? = some l.length := by
  rw [List.head?_eq_getElem?, getElem?_profile l (Nat.succ_pos _), reaching_zero]

theorem profile_antitone : (profile l).Pairwise (· ≥ ·) :=
  List.pairwise_map.mpr (List.pairwise_lt_range.imp fun h => reaching_antitone l h.le)

theorem profile_last (h : l ≠ []) : ∃ n, (profile l).getLast? = some n ∧ 0 < n := by
  refine ⟨reaching l (top l), ?_, reaching_pos.mpr ⟨top l, top_mem h, le_rfl⟩⟩
  rw [List.getLast?_eq_getElem?, length_profile, Nat.add_sub_cancel]
  exact getElem?_profile l (Nat.lt_succ_self _)

theorem profile_sum : (profile l).sum = (l.map (· + 1)).sum :=
  sum_reaching fun _ hx => Nat.lt_succ_of_le (le_top hx)

/-! ## Counters -/

/-- Increments the counters at the given places one after the other. -/
def increments (counters : List ℤ) (places : List ℕ) : List ℤ :=
  places.foldl (fun counters k => counters.modify k (· + 1)) counters

@[simp] theorem length_increments (counters : List ℤ) (places : List ℕ) :
    (increments counters places).length = counters.length := by
  unfold increments
  induction places generalizing counters with
  | nil => rfl
  | cons k places ih => rw [List.foldl_cons, ih, List.length_modify]

theorem getElem?_increments (counters : List ℤ) (places : List ℕ) (k : ℕ) :
    (increments counters places)[k]? = counters[k]?.map (· + (places.count k : ℤ)) := by
  unfold increments
  induction places generalizing counters with
  | nil => simp
  | cons j places ih =>
    rw [List.foldl_cons, ih, List.getElem?_modify, List.count_cons]
    by_cases hjk : j = k
    · subst hjk
      cases counters[j]? <;> simp
      omega
    · simp [hjk]

/-- Incrementing the counters of all levels that a value reaches, for every value, counts how many
values reach each level. -/
theorem count_reached (l : List ℕ) (k : ℕ) :
    (l.flatMap fun x => List.range (x + 1)).count k = reaching l k := by
  induction l with
  | nil => rfl
  | cons x l ih =>
    rw [List.flatMap_cons, List.count_append, ih, reaching, reaching, List.countP_cons,
      Nat.add_comm]
    congr 1
    by_cases hk : k ≤ x
    · rw [List.count_eq_one_of_mem List.nodup_range (List.mem_range.mpr (Nat.lt_succ_of_le hk))]
      simp [hk]
    · rw [List.count_eq_zero.mpr (by simp; omega)]
      simp [hk]

end GinkgoTpl.Counting
