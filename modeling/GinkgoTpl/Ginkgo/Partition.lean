import Mathlib.Algebra.BigOperators.Group.List.Basic
import Mathlib.Algebra.Order.Ring.Int
import Mathlib.Data.List.Basic
import Mathlib.Data.List.Range
import Mathlib.Tactic.Ring

/-!
# Partitions of an index range over ranks

A partition gives every global index below `size` to one of `P` parts. A part numbers its
indices locally in ascending global order. `hasOrderedParts` is the check that both importers
make: it accepts exactly the partitions whose parts are contiguous ranges ordered by rank, where
parts may be empty, and for those part `r` is the range of `partSize r` indices from `start r`.
-/

namespace GinkgoTpl.Ginkgo

structure Partition (P : ℕ) where
  size : ℕ
  owner : ℕ → ℕ
  owner_lt : ∀ g < size, owner g < P

namespace Partition

variable {P : ℕ} (p : Partition P)

/-- The global indices of part `r`, in local order. -/
def part (r : ℕ) : List ℕ := (List.range p.size).filter (p.owner · = r)

def partSize (r : ℕ) : ℕ := (p.part r).length

/-- The position of `g` within its part. -/
def localIndex (g : ℕ) : ℕ := ((List.range g).filter (p.owner · = p.owner g)).length

/-- The number of indices in the parts before `r`. -/
def start (r : ℕ) : ℕ := ((List.range p.size).filter (p.owner · < r)).length

/-- The owners never decrease. -/
def hasOrderedParts : Bool := (List.range (p.size - 1)).all fun g => p.owner g ≤ p.owner (g + 1)

variable {p}

theorem mem_part {r g : ℕ} : g ∈ p.part r ↔ g < p.size ∧ p.owner g = r := by simp [part]

theorem part_sorted (p : Partition P) (r : ℕ) : (p.part r).Pairwise (· < ·) :=
  List.pairwise_lt_range.filter _

/-- The local numbering, inverted: position `localIndex g` of the owner's part holds `g`. -/
theorem part_localIndex {g : ℕ} (hg : g < p.size) :
    (p.part (p.owner g))[p.localIndex g]? = some g := by
  obtain ⟨m, hm⟩ : ∃ m, p.size = g + (m + 1) := ⟨p.size - g - 1, by omega⟩
  have hrange : List.range p.size = List.range g ++ g :: (List.range' (g + 1) m) := by
    rw [hm, List.range_add, List.range'_eq_map_range, List.range_succ_eq_map]
    simp [Function.comp_def, Nat.add_comm, Nat.add_left_comm]
  rw [part, localIndex, hrange, List.filter_append, List.getElem?_append_right (Nat.le_refl _)]
  simp

theorem localIndex_lt {g : ℕ} (hg : g < p.size) : p.localIndex g < p.partSize (p.owner g) :=
  (List.getElem?_eq_some_iff.mp (part_localIndex hg)).1

/-- A part numbers its indices in ascending order. -/
theorem localIndex_lt_localIndex {g g' : ℕ} (hg : g < g') (ho : p.owner g = p.owner g') :
    p.localIndex g < p.localIndex g' := by
  obtain ⟨m, rfl⟩ : ∃ m, g' = g + (m + 1) := ⟨g' - g - 1, by omega⟩
  have hrange : List.range (g + (m + 1)) = List.range g ++ g :: List.range' (g + 1) m := by
    rw [List.range_add, List.range'_eq_map_range, List.range_succ_eq_map]
    simp [Function.comp_def, Nat.add_comm, Nat.add_left_comm]
  simp [localIndex, hrange, ho]

/-! ## The starts of the parts -/

@[simp] theorem start_zero (p : Partition P) : p.start 0 = 0 := by simp [start]

theorem start_succ (p : Partition P) (r : ℕ) : p.start (r + 1) = p.start r + p.partSize r := by
  simp only [start, partSize, part]
  generalize List.range p.size = l
  induction l with
  | nil => rfl
  | cons g l ih =>
    simp only [List.filter_cons, decide_eq_true_eq]
    split <;> split <;> split <;> try simp only [List.length_cons]
    all_goals omega

theorem start_ranks (p : Partition P) : p.start P = p.size := by
  have : (List.range p.size).filter (p.owner · < P) = List.range p.size :=
    List.filter_eq_self.mpr fun g hg => by simpa using p.owner_lt g (List.mem_range.mp hg)
  rw [start, this, List.length_range]

theorem start_eq_sum (p : Partition P) (r : ℕ) :
    (p.start r : ℤ) = ((List.range r).map fun s => (p.partSize s : ℤ)).sum := by
  induction r with
  | zero => simp
  | succ r ih => rw [start_succ, List.range_succ]; simp [ih]

theorem start_mono (p : Partition P) {r s : ℕ} (h : r ≤ s) : p.start r ≤ p.start s := by
  induction s, h using Nat.le_induction with
  | base => exact Nat.le_refl _
  | succ s _ ih => rw [start_succ]; omega

theorem start_add_partSize_le (p : Partition P) {r : ℕ} (hr : r < P) :
    p.start r + p.partSize r ≤ p.size := by
  rw [← start_succ, ← start_ranks p]
  exact start_mono p hr

/-! ## Ordered parts -/

theorem owner_mono (h : p.hasOrderedParts) {g g' : ℕ} (hg : g ≤ g') (hg' : g' < p.size) :
    p.owner g ≤ p.owner g' := by
  simp only [hasOrderedParts, List.all_eq_true, List.mem_range, decide_eq_true_eq] at h
  induction g', hg using Nat.le_induction with
  | base => exact Nat.le_refl _
  | succ n _ ih => exact (ih (by omega)).trans (h n (by omega))

/-- Without ranks there is nothing to order. -/
theorem hasOrderedParts_of_rank (h : Fin P → p.hasOrderedParts) : p.hasOrderedParts := by
  rcases Nat.eq_zero_or_pos P with rfl | hP
  · have hsize : p.size = 0 := (start_ranks p).symm.trans (start_zero p)
    simp [hasOrderedParts, hsize]
  · exact h ⟨0, hP⟩

/-- An ordered part is the range of its size from its start. -/
theorem part_eq_range' (h : p.hasOrderedParts) (r : ℕ) :
    p.part r = List.range' (p.start r) (p.partSize r) := by
  have key : ∀ n ≤ p.size, (List.range n).filter (p.owner · = r) =
      List.range' ((List.range n).filter (p.owner · < r)).length
        ((List.range n).filter (p.owner · = r)).length := by
    intro n hn
    induction n with
    | zero => rfl
    | succ n ih =>
      have hle : ∀ g ∈ List.range n, p.owner g ≤ p.owner n := fun g hg =>
        p.owner_mono h (List.mem_range.mp hg).le (by omega)
      rw [List.range_succ, List.filter_append, List.filter_append]
      rcases Nat.lt_trichotomy (p.owner n) r with hr | hr | hr
      · have : (List.range n).filter (p.owner · = r) = [] :=
          List.filter_eq_nil_iff.mpr fun g hg => by simpa using ((hle g hg).trans_lt hr).ne
        simp [hr.ne, this]
      · -- every earlier index belongs to this part or to one before it
        have hsum : ((List.range n).filter (p.owner · < r)).length +
            ((List.range n).filter (p.owner · = r)).length = n := by
          have hlt : (List.range n).filter (p.owner · < r) =
              (List.range n).filter fun g => !decide (p.owner g = r) :=
            List.filter_congr fun g hg => by
              have := hle g hg
              rw [← decide_not]
              exact decide_eq_decide.mpr (by omega)
          have := (List.range n).length_eq_length_filter_add (p.owner · = r)
          rw [hlt, Nat.add_comm, ← this, List.length_range]
        have h1 : [n].filter (p.owner · = r) = [n] := by simp [hr]
        have h2 : [n].filter (p.owner · < r) = [] := by simp [hr]
        rw [h1, h2, List.append_nil, List.length_append, List.length_singleton, List.range'_concat,
          Nat.one_mul, hsum, ← ih (by omega)]
      · have h1 : [n].filter (p.owner · = r) = [] := by simp [hr.ne']
        have h2 : [n].filter (p.owner · < r) = [] := by simp [hr.le]
        rw [h1, h2, List.append_nil, List.append_nil]
        exact ih (by omega)
  exact key p.size (Nat.le_refl _)

theorem part_getElem (h : p.hasOrderedParts) {r j : ℕ} (hj : j < p.partSize r) :
    (p.part r)[j]? = some (p.start r + j) := by
  rw [part_eq_range' h]
  simp [hj]

/-- In an ordered partition the owner's range locates an index. -/
theorem start_add_localIndex (h : p.hasOrderedParts) {g : ℕ} (hg : g < p.size) :
    p.start (p.owner g) + p.localIndex g = g := by
  have h1 := part_getElem h (localIndex_lt hg)
  rw [part_localIndex hg] at h1
  exact (Option.some.inj h1).symm

theorem owner_eq_iff (h : p.hasOrderedParts) {g : ℕ} (hg : g < p.size) (r : ℕ) :
    p.owner g = r ↔ p.start r ≤ g ∧ g < p.start r + p.partSize r := by
  have : g ∈ p.part r ↔ p.owner g = r := by simp [mem_part, hg]
  rw [← this, part_eq_range' h, List.mem_range'_1]

/-! ## Ranges of the ranks -/

/-- The ranges `[first r, first r + len r)` tile `[0, size)` in rank order, and are the parts. -/
structure Tiles (p : Partition P) (first len : Fin P → ℤ) : Prop where
  zero : ∀ r : Fin P, (r : ℕ) = 0 → first r = 0
  next : ∀ r s : Fin P, (s : ℕ) = r + 1 → first s = first r + len r
  last : ∀ r : Fin P, (r : ℕ) + 1 = P → first r + len r = p.size
  len_nonneg : ∀ r, 0 ≤ len r
  part : ∀ r : Fin P, ∀ g < p.size, p.owner g = r ↔ first r ≤ g ∧ g < first r + len r

theorem tiles (h : p.hasOrderedParts) :
    p.Tiles (fun r => (p.start r : ℤ)) fun r => (p.partSize r : ℤ) where
  zero r hr := by simp [hr]
  next r s hs := by simp [hs, start_succ]
  last r hr := by
    have := start_ranks p
    have hsucc := start_succ p r
    rw [hr] at hsucc
    omega
  len_nonneg r := by omega
  part r g hg := by rw [owner_eq_iff h hg]; omega

/-- The partition of `n` indices that are all on one rank. -/
def single (n : ℕ) : Partition 1 := ⟨n, fun _ => 0, fun _ _ => Nat.one_pos⟩

@[simp] theorem single_partSize (n : ℕ) : (single n).partSize 0 = n := by
  simp [partSize, part, single]

theorem single_ordered (n : ℕ) : (single n).hasOrderedParts := by simp [hasOrderedParts, single]

end Partition

end GinkgoTpl.Ginkgo
