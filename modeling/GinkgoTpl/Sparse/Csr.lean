import Mathlib.Algebra.BigOperators.Group.List.Basic
import Mathlib.Algebra.Order.Ring.Int
import Mathlib.Data.Int.Basic
import Mathlib.Data.List.Basic
import Mathlib.Data.List.Perm.Basic

/-!
# Sparse matrices in compressed row storage

A matrix stored as three arrays: the row pointers, and the column index and value of every
stored entry. Indices are signed machine integers, so the arrays hold integers and `Csr.Wf` says
when they describe a matrix. The stored entries are taken with their multiplicity: `Csr.entries`
lists them by rows, and two matrices with `RowPerm` hold the same entries in every row.
-/

namespace GinkgoTpl.Sparse

structure Csr (V : Type) where
  numRows : ℕ
  numCols : ℕ
  rowPtrs : List ℤ
  colIdxs : List ℤ
  values : List V

namespace Csr

variable {V : Type} [Inhabited V]

def rowPtr (c : Csr V) (i : ℕ) : ℤ := c.rowPtrs.getD i 0

/-- The positions in the column and value arrays that belong to row `i`. -/
def span (c : Csr V) (i : ℕ) : List ℕ :=
  List.range' (c.rowPtr i).toNat (c.rowPtr (i + 1) - c.rowPtr i).toNat

/-- The column and value stored at position `k`. -/
def entryAt (c : Csr V) (k : ℕ) : ℤ × V := (c.colIdxs.getD k 0, c.values.getD k default)

/-- Every row with each of its positions, by rows. -/
def positions (c : Csr V) : List (ℕ × ℕ) :=
  (List.range c.numRows).flatMap fun i => (c.span i).map (i, ·)

/-- The columns and values stored in row `i`. -/
def row (c : Csr V) (i : ℕ) : List (ℤ × V) := (c.span i).map c.entryAt

/-- The stored entries as triplets, by rows. -/
def entries (c : Csr V) : List (ℕ × ℤ × V) := c.positions.map fun p => (p.1, c.entryAt p.2)

/-- The arrays describe rows: the row pointers rise from zero to the number of stored entries. -/
structure RowWf (c : Csr V) : Prop where
  rowPtrs_length : c.rowPtrs.length = c.numRows + 1
  rowPtr_zero : c.rowPtr 0 = 0
  rowPtr_mono : ∀ i < c.numRows, c.rowPtr i ≤ c.rowPtr (i + 1)
  rowPtr_last : c.rowPtr c.numRows = c.colIdxs.length
  values_length : c.values.length = c.colIdxs.length

/-- The arrays describe a matrix: every column index is in range, too. -/
structure Wf (c : Csr V) : Prop extends RowWf c where
  col_range : ∀ j ∈ c.colIdxs, 0 ≤ j ∧ j < c.numCols

omit [Inhabited V] in
theorem mem_span {c : Csr V} {i k : ℕ} :
    k ∈ c.span i ↔
      (c.rowPtr i).toNat ≤ k ∧
        k < (c.rowPtr i).toNat + (c.rowPtr (i + 1) - c.rowPtr i).toNat := by
  simp [span]

omit [Inhabited V] in
theorem mem_positions {c : Csr V} {p : ℕ × ℕ} :
    p ∈ c.positions ↔ p.1 < c.numRows ∧ p.2 ∈ c.span p.1 := by
  obtain ⟨i, k⟩ := p
  simp only [positions, List.mem_flatMap, List.mem_range, List.mem_map, Prod.mk.injEq]
  constructor
  · rintro ⟨_, hi, _, hk, rfl, rfl⟩; exact ⟨hi, hk⟩
  · rintro ⟨hi, hk⟩; exact ⟨i, hi, k, hk, rfl, rfl⟩

theorem entries_eq (c : Csr V) :
    c.entries = (List.range c.numRows).flatMap fun i => (c.row i).map (i, ·) := by
  simp [entries, positions, row, List.map_flatMap, Function.comp_def]

theorem mem_entries {c : Csr V} {e : ℕ × ℤ × V} :
    e ∈ c.entries ↔ e.1 < c.numRows ∧ e.2 ∈ c.row e.1 := by
  obtain ⟨i, e⟩ := e
  simp only [entries_eq, List.mem_flatMap, List.mem_range, List.mem_map, Prod.mk.injEq]
  constructor
  · rintro ⟨_, hi, _, he, rfl, rfl⟩; exact ⟨hi, he⟩
  · rintro ⟨hi, he⟩; exact ⟨i, hi, e, he, rfl, rfl⟩

/-- The entries of one row, picked out of all entries. -/
theorem filter_entries {c : Csr V} {i : ℕ} (hi : i < c.numRows) :
    c.entries.filter (·.1 = i) = (c.row i).map (i, ·) := by
  have key : ∀ n, ((List.range n).flatMap fun i => (c.row i).map (i, ·)).filter (·.1 = i) =
      if i < n then (c.row i).map (i, ·) else [] := by
    intro n
    induction n with
    | zero => simp
    | succ n ih =>
      rw [List.range_succ, List.flatMap_append, List.filter_append, ih]
      by_cases hn : i = n
      · subst hn; simp [List.filter_map, Function.comp_def]
      · have hne : ¬ n = i := Ne.symm hn
        have hlt : i < n ↔ i < n + 1 := by omega
        simp only [hlt]
        simp [List.filter_map, Function.comp_def, hne]
  rw [entries_eq, key, if_pos hi]

namespace RowWf

variable {c : Csr V}

omit [Inhabited V] in
theorem rowPtr_le (h : c.RowWf) {i j : ℕ} (hij : i ≤ j) (hj : j ≤ c.numRows) :
    c.rowPtr i ≤ c.rowPtr j := by
  induction j, hij using Nat.le_induction with
  | base => exact le_rfl
  | succ j _ ih => exact (ih (by omega)).trans (h.rowPtr_mono j (by omega))

omit [Inhabited V] in
theorem rowPtr_nonneg (h : c.RowWf) {i : ℕ} (hi : i ≤ c.numRows) : 0 ≤ c.rowPtr i := by
  have := h.rowPtr_le (Nat.zero_le i) hi
  rwa [h.rowPtr_zero] at this

omit [Inhabited V] in
/-- Every position of a row is below the number of stored entries. -/
theorem span_lt (h : c.RowWf) {i k : ℕ} (hi : i < c.numRows) (hk : k ∈ c.span i) :
    k < c.colIdxs.length := by
  have h1 := h.rowPtr_nonneg hi.le
  have h2 := h.rowPtr_mono i hi
  have h3 : c.rowPtr (i + 1) ≤ c.rowPtr c.numRows := h.rowPtr_le hi le_rfl
  rw [h.rowPtr_last] at h3
  rw [mem_span] at hk
  omega

omit [Inhabited V] in
/-- Every row pointer is between zero and the number of stored entries. -/
theorem rowPtrs_range (h : c.RowWf) {x : ℤ} (hx : x ∈ c.rowPtrs) :
    0 ≤ x ∧ x ≤ c.colIdxs.length := by
  obtain ⟨i, hi, rfl⟩ := List.mem_iff_getElem.mp hx
  have hle : i ≤ c.numRows := by
    have := h.rowPtrs_length
    omega
  have hptr : c.rowPtr i = c.rowPtrs[i] := by simp [rowPtr, hi]
  rw [← hptr, ← h.rowPtr_last]
  exact ⟨h.rowPtr_nonneg hle, h.rowPtr_le hle le_rfl⟩

omit [Inhabited V] in
/-- Every position below the number of stored entries belongs to a row. -/
theorem exists_span (h : c.RowWf) {k : ℕ} (hk : k < c.colIdxs.length) :
    ∃ i < c.numRows, k ∈ c.span i := by
  have key : ∀ m ≤ c.numRows, (k : ℤ) < c.rowPtr m → ∃ i < m, k ∈ c.span i := by
    intro m
    induction m with
    | zero =>
      intro _ hlt
      rw [h.rowPtr_zero] at hlt
      omega
    | succ m ih =>
      intro hm hlt
      by_cases hle : c.rowPtr m ≤ k
      · refine ⟨m, by omega, mem_span.mpr ?_⟩
        omega
      · obtain ⟨i, hi, hspan⟩ := ih (by omega) (by omega)
        exact ⟨i, by omega, hspan⟩
  exact key c.numRows le_rfl (by rw [h.rowPtr_last]; omega)

end RowWf

namespace Wf

variable {c : Csr V}

theorem entryAt_range (h : c.Wf) {k : ℕ} (hk : k < c.colIdxs.length) :
    0 ≤ (c.entryAt k).1 ∧ (c.entryAt k).1 < c.numCols := by
  have : c.colIdxs.getD k 0 = c.colIdxs[k] := by simp [hk]
  rw [entryAt, this]
  exact h.col_range _ (List.getElem_mem hk)

theorem entries_range (h : c.Wf) {e : ℕ × ℤ × V} (he : e ∈ c.entries) :
    e.1 < c.numRows ∧ 0 ≤ e.2.1 ∧ e.2.1 < c.numCols := by
  obtain ⟨p, hp, rfl⟩ := List.mem_map.mp he
  obtain ⟨hi, hk⟩ := mem_positions.mp hp
  exact ⟨hi, h.entryAt_range (h.span_lt hi hk)⟩

end Wf

/-! ## Building a matrix from its entries -/

section
omit [Inhabited V]

/-- Grouping a list by keys below `n` rearranges it. -/
theorem flatMap_filter_perm {α : Type} (l : List α) (key : α → ℕ) {n : ℕ} (h : ∀ a ∈ l, key a < n) :
    ((List.range n).flatMap fun i => l.filter (key · = i)).Perm l := by
  have step : ∀ n, ((List.range n).flatMap fun i => l.filter (key · = i)).Perm
      (l.filter (key · < n)) := by
    intro n
    induction n with
    | zero => simp
    | succ n ih =>
      rw [List.range_succ, List.flatMap_append, List.flatMap_singleton]
      refine (ih.append_right _).trans ?_
      refine .trans (.of_eq ?_) (List.filter_append_perm (key · < n) _)
      simp only [List.filter_filter]
      congr 1 <;> refine List.filter_congr fun a _ => ?_ <;>
        rw [Bool.eq_iff_iff] <;> simp <;> omega
  have hall : l.filter (key · < n) = l := List.filter_eq_self.mpr fun a ha => by simpa using h a ha
  exact (step n).trans (.of_eq hall)

/-- The columns and values of the entries in row `i`. -/
def rowFrom (es : List (ℕ × ℤ × V)) (i : ℕ) : List (ℤ × V) := (es.filter (·.1 = i)).map (·.2)

def ofEntries (numRows numCols : ℕ) (es : List (ℕ × ℤ × V)) : Csr V where
  numRows := numRows
  numCols := numCols
  rowPtrs := (List.range (numRows + 1)).map fun i => ((List.range i).flatMap (rowFrom es)).length
  colIdxs := ((List.range numRows).flatMap (rowFrom es)).map (·.1)
  values := ((List.range numRows).flatMap (rowFrom es)).map (·.2)

variable {numRows numCols : ℕ} {es : List (ℕ × ℤ × V)}

theorem rowPtr_ofEntries {i : ℕ} (hi : i ≤ numRows) : (ofEntries numRows numCols es).rowPtr i =
    ((List.range i).flatMap (rowFrom es)).length := by
  have : i < numRows + 1 := by omega
  simp [rowPtr, ofEntries, this]

theorem wf_ofEntries (h : ∀ e ∈ es, 0 ≤ e.2.1 ∧ e.2.1 < numCols) :
    (ofEntries numRows numCols es).Wf where
  rowPtrs_length := by simp [ofEntries]
  rowPtr_zero := by rw [rowPtr_ofEntries (Nat.zero_le _)]; simp
  rowPtr_mono i hi := by
    have hi : i < numRows := hi
    rw [rowPtr_ofEntries hi.le, rowPtr_ofEntries hi, List.range_succ, List.flatMap_append,
      List.length_append]
    omega
  rowPtr_last := by
    change rowPtr _ numRows = _
    rw [rowPtr_ofEntries le_rfl]
    simp [ofEntries]
  values_length := by simp [ofEntries]
  col_range j hj := by
    simp only [ofEntries, rowFrom, List.mem_map, List.mem_flatMap, List.mem_filter] at hj
    obtain ⟨_, ⟨_, -, e, ⟨he, -⟩, rfl⟩, rfl⟩ := hj
    exact h e he

end

/-- A matrix whose arrays list the rows `f` one after the other has the rows `f`. -/
theorem row_of_rows {c : Csr V} {f : ℕ → List (ℤ × V)}
    (hptr : ∀ i ≤ c.numRows, c.rowPtr i = ((List.range i).flatMap f).length)
    (hcol : c.colIdxs = ((List.range c.numRows).flatMap f).map (·.1))
    (hval : c.values = ((List.range c.numRows).flatMap f).map (·.2)) {i : ℕ} (hi : i < c.numRows) :
    c.row i = f i := by
  obtain ⟨m, hm⟩ : ∃ m, c.numRows = (i + 1) + m := ⟨c.numRows - (i + 1), by omega⟩
  have hlen : (c.rowPtr (i + 1) - c.rowPtr i).toNat = (f i).length := by
    rw [hptr i hi.le, hptr (i + 1) hi, List.range_succ, List.flatMap_append, List.length_append,
      List.flatMap_singleton]
    omega
  have hdata : (List.range c.numRows).flatMap f = (List.range i).flatMap f ++
      (f i ++ ((List.range m).map (i + 1 + ·)).flatMap f) := by
    rw [hm, List.range_add, List.range_succ]
    simp [List.append_assoc]
  rw [row, span, hlen, hptr i hi.le, Int.toNat_natCast]
  refine List.ext_getElem (by simp) fun k hk hk' => ?_
  simp only [List.getElem_map, List.getElem_range', Nat.one_mul, entryAt, hcol, hval, hdata]
  simp [List.getElem?_append_right, List.getElem?_append_left, hk']

theorem row_ofEntries {numRows numCols i : ℕ} {es : List (ℕ × ℤ × V)} (hi : i < numRows) :
    (ofEntries numRows numCols es).row i = rowFrom es i :=
  row_of_rows (fun _ h => rowPtr_ofEntries h) rfl rfl hi

theorem entries_ofEntries {numRows numCols : ℕ} {es : List (ℕ × ℤ × V)}
    (h : ∀ e ∈ es, e.1 < numRows) : (ofEntries numRows numCols es).entries.Perm es := by
  refine .trans (.of_eq ?_) (flatMap_filter_perm es (·.1) h)
  rw [entries_eq, List.flatMap_def, List.flatMap_def]
  refine congrArg List.flatten (List.map_congr_left fun i hi => ?_)
  have hi : i < numRows := List.mem_range.mp hi
  rw [row_ofEntries hi, rowFrom, List.map_map]
  refine (List.map_congr_left fun e he => ?_).trans (List.map_id _)
  rw [← of_decide_eq_true (List.mem_filter.mp he).2]
  rfl

/-! ## Rearranged rows -/

/-- `c'` stores in every row what `c` stores there, in any order. -/
structure RowPerm (c c' : Csr V) : Prop where
  numRows : c'.numRows = c.numRows
  row : ∀ i < c.numRows, (c'.row i).Perm (c.row i)

/-- As `RowPerm`, with the same row pointers and sizes: only the column and value arrays have
been permuted. -/
structure Rearranged (c c' : Csr V) : Prop extends RowPerm c c' where
  numCols : c'.numCols = c.numCols
  rowPtrs : c'.rowPtrs = c.rowPtrs
  colIdxs_length : c'.colIdxs.length = c.colIdxs.length
  values_length : c'.values.length = c.values.length

/-- The matrix with its rows replaced. -/
def withRows (c : Csr V) (f : ℕ → List (ℤ × V)) : Csr V :=
  { c with
    colIdxs := ((List.range c.numRows).flatMap f).map (·.1)
    values := ((List.range c.numRows).flatMap f).map (·.2) }

/-- The row pointers count the entries of the rows before. -/
theorem RowWf.rowPtr_eq {c : Csr V} (h : c.RowWf) {i : ℕ} (hi : i ≤ c.numRows) :
    c.rowPtr i = ((List.range i).flatMap c.row).length := by
  induction i with
  | zero => simp [h.rowPtr_zero]
  | succ i ih =>
    have h1 := ih (by omega)
    have h2 := h.rowPtr_mono i hi
    rw [List.range_succ, List.flatMap_append, List.length_append, List.flatMap_singleton]
    simp only [row, span, List.length_map, List.length_range'] at h1 ⊢
    omega

theorem RowWf.length_entries {c : Csr V} (h : c.RowWf) : c.entries.length = c.values.length := by
  have hlast := h.rowPtr_eq le_rfl
  rw [h.rowPtr_last] at hlast
  simp only [entries_eq, List.length_flatMap, List.length_map] at hlast ⊢
  rw [h.values_length]
  exact (Int.ofNat_inj.mp hlast).symm

/-- Row pointers that a map brings closer together lose entries, unless it keeps the last one. -/
theorem RowWf.length_entries_of_narrowed {c d : Csr V} (h : c.RowWf) {f : ℤ → ℤ} (h0 : f 0 = 0)
    (hf : ∀ a b, a ≤ b → f b - f a ≤ b - a) (hrows : d.numRows = c.numRows)
    (hptr : ∀ i, d.rowPtr i = f (c.rowPtr i)) : d.entries.length ≤ c.values.length ∧
      (d.entries.length = c.values.length → f c.values.length = c.values.length) := by
  have key : ∀ n ≤ c.numRows, (((List.range n).flatMap d.row).length : ℤ) ≤ c.rowPtr n ∧
      ((((List.range n).flatMap d.row).length : ℤ) = c.rowPtr n →
        f (c.rowPtr n) = c.rowPtr n) := by
    intro n hn
    induction n with
    | zero => simp [h.rowPtr_zero, h0]
    | succ n ih =>
      obtain ⟨hle, hkeeps⟩ := ih (by omega)
      have hmono := h.rowPtr_mono n hn
      have hnarrow := hf _ _ hmono
      rw [List.range_succ, List.flatMap_append, List.length_append, List.flatMap_singleton]
      simp only [row, span, List.length_map, List.length_range', hptr] at hle hkeeps ⊢
      by_cases heq : c.rowPtr (n + 1) = c.rowPtr n
      · rw [heq] at hnarrow ⊢
        exact ⟨by omega, fun hlen => hkeeps (by omega)⟩
      · exact ⟨by omega, fun hlen => by have := hkeeps (by omega); omega⟩
  have hlast := key c.numRows le_rfl
  rw [h.rowPtr_last, ← h.values_length] at hlast
  have hlen : d.entries.length = ((List.range c.numRows).flatMap d.row).length := by
    simp only [entries_eq, hrows, List.length_flatMap, List.length_map]
  rw [hlen]
  exact ⟨Int.ofNat_le.mp hlast.1, fun heq => hlast.2 (congrArg _ heq)⟩

theorem length_flatMap_row {c : Csr V} {f : ℕ → List (ℤ × V)} {n : ℕ}
    (hlen : ∀ i < n, (f i).length = (c.row i).length) :
    ((List.range n).flatMap f).length = ((List.range n).flatMap c.row).length := by
  simp only [List.length_flatMap]
  exact congrArg List.sum (List.map_congr_left fun i hi => hlen i (List.mem_range.mp hi))

theorem row_withRows {c : Csr V} (h : c.RowWf) {f : ℕ → List (ℤ × V)}
    (hlen : ∀ i < c.numRows, (f i).length = (c.row i).length) {i : ℕ} (hi : i < c.numRows) :
    (c.withRows f).row i = f i := by
  refine row_of_rows (c := c.withRows f) (fun k hk => ?_) rfl rfl hi
  have hk : k ≤ c.numRows := hk
  rw [length_flatMap_row fun i hi => hlen i (by omega)]
  exact h.rowPtr_eq hk

/-- Permuting every row rearranges the matrix. -/
theorem rearranged_withRows {c : Csr V} (h : c.RowWf) {f : ℕ → List (ℤ × V)}
    (hf : ∀ i < c.numRows, (f i).Perm (c.row i)) : Rearranged c (c.withRows f) := by
  have hlen : ∀ i < c.numRows, (f i).length = (c.row i).length := fun i hi => (hf i hi).length_eq
  have hdata := length_flatMap_row hlen
  have hlast := h.rowPtr_eq le_rfl
  rw [h.rowPtr_last] at hlast
  refine ⟨⟨rfl, fun i hi => ?_⟩, rfl, rfl, ?_, ?_⟩
  · rw [row_withRows h hlen hi]
    exact hf i hi
  · simp only [withRows, List.length_map, hdata]
    omega
  · simp only [withRows, List.length_map, hdata, h.values_length]
    omega

theorem RowPerm.refl (c : Csr V) : RowPerm c c := ⟨rfl, fun _ _ => .refl _⟩

theorem RowPerm.entries {c c' : Csr V} (h : RowPerm c c') : c'.entries.Perm c.entries := by
  rw [entries_eq, entries_eq, h.numRows]
  exact List.Perm.flatMap_left _ fun i hi => (h.row i (List.mem_range.mp hi)).map _

/-! ## Products -/

section
variable [Semiring V]

/-- Row `i` of the product of the matrix with the vector `x`. -/
def rowDot (c : Csr V) (x : ℤ → V) (i : ℕ) : V := ((c.row i).map fun e => e.2 * x e.1).sum

theorem RowPerm.rowDot {c c' : Csr V} (h : RowPerm c c') {i : ℕ} (hi : i < c.numRows) (x : ℤ → V) :
    c'.rowDot x i = c.rowDot x i := ((h.row i hi).map _).sum_eq

/-- The product of row `i` of a list of entries with `x`. -/
def sumRow (es : List (ℕ × ℤ × V)) (x : ℤ → V) (i : ℕ) : V :=
  ((es.filter (·.1 = i)).map fun e => e.2.2 * x e.2.1).sum

omit [Inhabited V] in
theorem sumRow_append (es es' : List (ℕ × ℤ × V)) (x : ℤ → V) (i : ℕ) :
    sumRow (es ++ es') x i = sumRow es x i + sumRow es' x i := by
  simp [sumRow]

omit [Inhabited V] in
theorem sumRow_perm {es es' : List (ℕ × ℤ × V)} (h : es.Perm es') (x : ℤ → V) (i : ℕ) :
    sumRow es x i = sumRow es' x i := ((h.filter _).map _).sum_eq

/-- The product under another numbering of the columns, summed over the renumbered entries. -/
theorem rowDot_comp {c : Csr V} {i : ℕ} (hi : i < c.numRows) (x : ℤ → V) (f : ℤ → ℤ) :
    c.rowDot (fun j => x (f j)) i =
      sumRow (c.entries.map fun e => (e.1, f e.2.1, e.2.2)) x i := by
  rw [sumRow, List.filter_map, Function.comp_def, filter_entries hi, List.map_map, List.map_map]
  rfl

end

end Csr

end GinkgoTpl.Sparse
