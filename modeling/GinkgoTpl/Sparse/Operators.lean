import Mathlib.Algebra.Module.LinearMap.Basic
import Mathlib.Algebra.Ring.PUnit
import Mathlib.GroupTheory.GroupAction.Ring
import Mathlib.LinearAlgebra.Pi
import GinkgoTpl.Sparse.Csr

/-!
# Sparse matrices as linear maps

A list of entries is a linear map between sequences, in which entries with the same indices add up.
Under this meaning, multiplying two matrices row by row, `Csr.mul`, is the composition of their
maps. Where the rows of the product begin depends on the patterns of the two matrices only, so that
the values can be left to a second phase.
-/

namespace GinkgoTpl.Sparse

variable {V : Type} [CommSemiring V]

/-- The linear map of the entries: each one takes its value times the term at its column to its
row. -/
def linearMap (es : List (ℕ × ℤ × V)) : (ℕ → V) →ₗ[V] (ℕ → V) :=
  (es.map fun e => LinearMap.single V (fun _ => V) e.1 ∘ₗ
    (e.2.2 • LinearMap.proj e.2.1.toNat)).sum

variable {es es' : List (ℕ × ℤ × V)}

@[simp] theorem linearMap_nil : linearMap ([] : List (ℕ × ℤ × V)) = 0 := rfl

/-- Row by row, the map is the product with the entries. -/
theorem linearMap_apply (es : List (ℕ × ℤ × V)) (x : ℕ → V) (i : ℕ) :
    linearMap es x i = Csr.sumRow es (fun j => x j.toNat) i := by
  induction es with
  | nil => simp [Csr.sumRow]
  | cons e es ih =>
    have hcons : linearMap (e :: es) = LinearMap.single V (fun _ => V) e.1 ∘ₗ
        (e.2.2 • LinearMap.proj e.2.1.toNat) + linearMap es := by
      simp [linearMap]
    have hsum := Csr.sumRow_append [e] es (fun j => x j.toNat) i
    rw [hcons, LinearMap.add_apply, Pi.add_apply, ih, ← List.singleton_append, hsum]
    congr 1
    by_cases hi : e.1 = i
    · subst hi
      simp [Csr.sumRow]
    · simp [Csr.sumRow, hi, Ne.symm hi]

theorem linearMap_append (es es' : List (ℕ × ℤ × V)) :
    linearMap (es ++ es') = linearMap es + linearMap es' := by
  simp [linearMap]

theorem linearMap_cons (e : ℕ × ℤ × V) (es : List (ℕ × ℤ × V)) :
    linearMap (e :: es) = linearMap [e] + linearMap es := linearMap_append [e] es

/-- The order of the entries does not matter. -/
theorem linearMap_perm (h : es.Perm es') : linearMap es = linearMap es' := (h.map _).sum_eq

/-- A linear map with the numbers of rows and columns of its matrix. -/
structure SizedMap (V : Type) [CommSemiring V] where
  rows : ℕ
  cols : ℕ
  map : (ℕ → V) →ₗ[V] (ℕ → V)

def SizedMap.size (f : SizedMap V) : ℕ × ℕ := (f.rows, f.cols)

def SizedMap.comp (f g : SizedMap V) : SizedMap V := ⟨f.rows, g.cols, f.map ∘ₗ g.map⟩

namespace Csr

variable [Inhabited V]

/-- The entries of a product, row by row. -/
def mulEntries (a b : Csr V) : List (ℕ × ℤ × V) :=
  a.entries.flatMap fun e => (b.row e.2.1.toNat).map fun f => (e.1, f.1, e.2.2 * f.2)

/-- The product of two matrices. -/
def mul (a b : Csr V) : Csr V := .ofEntries a.numRows b.numCols (mulEntries a b)

variable {a b : Csr V}

theorem linearMap_entries {i : ℕ} (hi : i < b.numRows) (x : ℕ → V) :
    linearMap b.entries x i = b.rowDot (fun j => x j.toNat) i := by
  rw [linearMap_apply, sumRow, filter_entries hi, List.map_map]
  rfl

/-- An entry takes a row of the other matrix to its own row. -/
theorem linearMap_row {e : ℕ × ℤ × V} (he : e.2.1.toNat < b.numRows) :
    linearMap ((b.row e.2.1.toNat).map fun f => (e.1, f.1, e.2.2 * f.2)) =
      linearMap [e] ∘ₗ linearMap b.entries := by
  refine LinearMap.ext fun x => funext fun i => ?_
  rw [LinearMap.comp_apply, linearMap_apply, linearMap_apply]
  by_cases hi : e.1 = i
  · simp [sumRow, hi, linearMap_entries he, rowDot, List.filter_map, Function.comp_def,
      List.sum_map_mul_left, mul_assoc]
  · simp [sumRow, hi, List.filter_map, Function.comp_def]

/-- The entries of the product have the composition of the maps. -/
theorem linearMap_mulEntries (ha : a.Wf) (hdim : a.numCols = b.numRows) :
    linearMap (mulEntries a b) = linearMap a.entries ∘ₗ linearMap b.entries := by
  have hcols : ∀ e ∈ a.entries, e.2.1.toNat < b.numRows := fun e he => by
    have := ha.entries_range he
    omega
  rw [mulEntries]
  generalize a.entries = es at hcols
  induction es with
  | nil => simp
  | cons e es ih =>
    obtain ⟨he, hes⟩ := List.forall_mem_cons.mp hcols
    rw [List.flatMap_cons, linearMap_append, ih hes, linearMap_row he, linearMap_cons e es,
      LinearMap.add_comp]

theorem mem_mulEntries {e : ℕ × ℤ × V} (ha : a.Wf) (hb : b.Wf) (hdim : a.numCols = b.numRows)
    (he : e ∈ mulEntries a b) : e.1 < a.numRows ∧ 0 ≤ e.2.1 ∧ e.2.1 < b.numCols := by
  obtain ⟨e', he', hrow⟩ := List.mem_flatMap.mp he
  obtain ⟨f, hf, rfl⟩ := List.mem_map.mp hrow
  obtain ⟨hi, hcol⟩ := ha.entries_range he'
  have hfe : (e'.2.1.toNat, f) ∈ b.entries := mem_entries.mpr ⟨by omega, hf⟩
  exact ⟨hi, (hb.entries_range hfe).2⟩

theorem wf_mul (ha : a.Wf) (hb : b.Wf) (hdim : a.numCols = b.numRows) : (mul a b).Wf :=
  wf_ofEntries fun _ he => (mem_mulEntries ha hb hdim he).2

/-- The product of the matrices has the composition of the maps. -/
theorem linearMap_mul (ha : a.Wf) (hb : b.Wf) (hdim : a.numCols = b.numRows) :
    linearMap (mul a b).entries = linearMap a.entries ∘ₗ linearMap b.entries := by
  rw [mul, linearMap_perm (entries_ofEntries fun e he => (mem_mulEntries ha hb hdim he).1),
    linearMap_mulEntries ha hdim]

/-! ## Patterns -/

omit [CommSemiring V] [Inhabited V] in
/-- The row pointers count the entries of the rows. -/
theorem rowPtrs_ofEntries_congr {W : Type} {numRows numCols : ℕ} {es : List (ℕ × ℤ × V)}
    {es' : List (ℕ × ℤ × W)} (h : es.map (·.1) = es'.map (·.1)) :
    (ofEntries numRows numCols es).rowPtrs = (ofEntries numRows numCols es').rowPtrs := by
  have hlength : ∀ i, (rowFrom es i).length = (rowFrom es' i).length := by
    intro i
    have hcount := congrArg (List.count i) h
    rw [List.count_eq_length_filter, List.count_eq_length_filter, List.filter_map, List.filter_map,
      List.length_map, List.length_map] at hcount
    rw [rowFrom, rowFrom, List.length_map, List.length_map]
    exact hcount
  simp only [ofEntries, List.length_flatMap, hlength]

/-- The matrix without the values. -/
def pattern (c : Csr V) : Csr Unit := { c with values := List.replicate c.values.length () }

/-- The entries of a product are in rows that only depend on the patterns. -/
theorem map_fst_mulEntries (a b : Csr V) : (mulEntries a b).map (·.1) =
    a.positions.flatMap fun p => (b.span (a.colIdxs.getD p.2 0).toNat).map fun _ => p.1 := by
  simp [mulEntries, entries, row, entryAt, List.map_flatMap, List.flatMap_map, Function.comp_def]

/-- The row pointers of a product depend on the patterns only. -/
theorem rowPtrs_mul_pattern (a b : Csr V) : (mul a.pattern b.pattern).rowPtrs = (mul a b).rowPtrs :=
  rowPtrs_ofEntries_congr ((map_fst_mulEntries a.pattern b.pattern).trans
    (map_fst_mulEntries a b).symm)

end Csr

end GinkgoTpl.Sparse
