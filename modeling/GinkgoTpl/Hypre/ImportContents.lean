import Mathlib.Data.List.GetD
import GinkgoTpl.Hypre.Import

/-!
# What the hypre import hands over

If all sizes fit into hypre's integer types, every array that the import hands to hypre holds the
contents of the Ginkgo array it stands for, whether it is that array or a copy, and no array of
the Ginkgo matrix is written: `localParCsr_contents` and `buildSerialParCsr_contents`. The diagonal
block is rearranged within its rows, and the others are as Ginkgo stores them.
-/

namespace GinkgoTpl.Hypre

open Sparse Memory Ginkgo Spmd

variable {P : ℕ} {A V : Type} [Inhabited V] {build : Build} {hypre : Lib V}

theorem toHypreBigInt_eq_ok {bits : ℕ} {value v : ℤ} :
    toHypreBigInt bits value = .ok v ↔ IntFits bits value ∧ v = value := by
  unfold toHypreBigInt IntFits
  split
  · rename_i h
    simp only [reduceCtorEq, false_iff, not_and]
    intro h1 h2
    omega
  · rename_i h
    rw [not_or, not_lt, not_lt] at h
    simp [h, eq_comm]

theorem allocateArray_eq_ok {size : ℤ} : allocateArray size = .ok () ↔ 0 ≤ size := by
  unfold allocateArray
  split <;> simp <;> omega

theorem allocateConverted_eq_ok {size : ℤ} :
    allocateConverted build size = .ok () ↔ build.sameInt ∨ 0 ≤ size := by
  unfold allocateConverted
  split
  · rename_i hsame
    simp [hsame]
  · rename_i hsame
    simp [hsame, allocateArray_eq_ok]

/-! ## Views of arrays -/

/-- An index array as hypre sees it: the array itself when the index types match. -/
def Build.asInts (build : Build) (l : List ℤ) : List ℤ :=
  if build.sameInt then l else l.map (castInt build.intBits)

theorem Build.asInts_eq_of_fits {l : List ℤ} (h : ∀ x ∈ l, IntFits build.intBits x) :
    build.asInts l = l := by
  unfold Build.asInts
  split
  · rfl
  · exact (List.map_congr_left fun x hx => (h x hx).castInt build.intBits_pos).trans (List.map_id l)

@[simp] theorem Build.length_asInts (l : List ℤ) : (build.asInts l).length = l.length := by
  unfold Build.asInts
  split <;> simp

/-- A row pointer as hypre sees it. -/
def Build.asInt (build : Build) (x : ℤ) : ℤ :=
  if build.sameInt then x else castInt build.intBits x

omit [Inhabited V] in
theorem rowPtr_of_asInts {c d : Csr V} (h : d.rowPtrs = build.asInts c.rowPtrs) (i : ℕ) :
    d.rowPtr i = build.asInt (c.rowPtr i) := by
  rw [Csr.rowPtr, h, Build.asInts, Build.asInt]
  split
  · rfl
  · have hzero : castInt build.intBits 0 = 0 := by simp [castInt]
    have hmap := List.getD_map (l := c.rowPtrs) (d := 0) (n := i) (castInt build.intBits)
    rwa [hzero] at hmap

/-- A row that is empty stays empty. -/
theorem row_eq_nil_of_asInts {c d : Csr V} (hc : c.RowWf) (h : d.rowPtrs = build.asInts c.rowPtrs)
    {i : ℕ} (hi : i < c.numRows) (hnil : c.row i = []) : d.row i = [] := by
  have hspan : c.rowPtr (i + 1) - c.rowPtr i ≤ 0 := by
    simpa [Csr.row, Csr.span] using hnil
  have heq : c.rowPtr (i + 1) = c.rowPtr i := le_antisymm (by omega) (hc.rowPtr_mono i hi)
  simp [Csr.row, Csr.span, rowPtr_of_asInts h, heq]

/-- A diagonal block as hypre sees it: the columns are as converted. -/
def Build.seen (build : Build) (c : Csr V) : Csr V := { c with colIdxs := build.asInts c.colIdxs }

omit [Inhabited V] in
theorem Build.seen_eq_of_fits {c : Csr V} (h : ∀ x ∈ c.colIdxs, IntFits build.intBits x) :
    build.seen c = c := by
  rw [Build.seen, Build.asInts_eq_of_fits h]

/-- The columns keep their values on the way to hypre. -/
def ColumnsFit (build : Build) (c : Csr V) : Prop :=
  build.sameInt ∨ ∀ j ∈ c.colIdxs, IntFits build.intBits j

instance (build : Build) (c : Csr V) : Decidable (ColumnsFit build c) :=
  inferInstanceAs (Decidable (_ ∨ _))

/-- The integers of one Csr matrix are ones of hypre. -/
structure CsrRepresentable (build : Build) (c : Csr V) : Prop where
  rows : IntFits build.intBits c.numRows
  nnz : IntFits build.intBits c.values.length
  cols : ColumnsFit build c

omit [Inhabited V] in
theorem ColumnsFit.seen_eq {c : Csr V} (h : ColumnsFit build c) : build.seen c = c := by
  rcases h with h | h
  · rw [Build.seen, Build.asInts, if_pos h]
  · exact Build.seen_eq_of_fits h

omit [Inhabited V] in
/-- The columns of a matrix fit if their number does. -/
theorem colIdxs_fit {c : Csr V} (hc : c.Wf) (h : IntFits build.intBits c.numCols) :
    ∀ x ∈ c.colIdxs, IntFits build.intBits x := fun x hx =>
  h.of_le (hc.col_range x hx).1 (hc.col_range x hx).2.le

omit [Inhabited V] in
/-- The row pointers of a matrix fit if the number of its entries does. -/
theorem rowPtrs_fit {c : Csr V} (hc : c.RowWf) (h : IntFits build.intBits c.values.length) :
    ∀ x ∈ c.rowPtrs, IntFits build.intBits x := fun _ hx =>
  h.of_le (hc.rowPtrs_range hx).1 (hc.values_length ▸ (hc.rowPtrs_range hx).2)

omit [Inhabited V] in
theorem Build.rowWf_seen {c : Csr V} (h : c.RowWf) : (build.seen c).RowWf where
  rowPtrs_length := h.rowPtrs_length
  rowPtr_zero := h.rowPtr_zero
  rowPtr_mono := h.rowPtr_mono
  rowPtr_last := h.rowPtr_last.trans (congrArg _ (Build.length_asInts _).symm)
  values_length := h.values_length.trans (Build.length_asInts _).symm

section
variable {heap : Heap (Buffer V)} {data : ℕ}

/-- The array handed to hypre holds `b`, and is the array at `data` or newer than `heap`. -/
structure Handed.Holds (H : Handed V) (heap : Heap (Buffer V)) (data : ℕ) (b : Buffer V) :
    Prop where
  keeps : heap.Keeps H.heap
  read : H.heap.read H.addr = some b
  addr : H.addr = data ∨ heap.next ≤ H.addr

omit [Inhabited V] in
theorem holds_alloc (heap : Heap (Buffer V)) (data : ℕ) (storage : Option ℕ) (b : Buffer V) :
    Handed.Holds ⟨heap.next, storage, heap.alloc b⟩ heap data b :=
  ⟨(Heap.Keeps.refl heap).alloc, Heap.read_alloc_next, .inr le_rfl⟩

omit [Inhabited V] in
theorem asHypreInt_keeps (size : ℕ) : heap.Keeps (asHypreInt build data size heap).heap := by
  unfold asHypreInt
  split
  · exact .refl _
  · exact (Heap.Keeps.refl _).alloc

omit [Inhabited V] in
theorem asHypreInt_addr (size : ℕ) : (asHypreInt build data size heap).addr = data ∨
    heap.next ≤ (asHypreInt build data size heap).addr := by
  unfold asHypreInt
  split
  · exact .inl rfl
  · exact .inr le_rfl

omit [Inhabited V] in
/-- A copy is new, and nothing else changes. -/
theorem copyAsHypreInt_new (size : ℕ) : heap.Keeps (copyAsHypreInt build data size heap).heap ∧
    (copyAsHypreInt build data size heap).addr = heap.next := by
  unfold copyAsHypreInt
  split
  · exact ⟨(Heap.Keeps.refl _).alloc, rfl⟩
  · rename_i hsame
    refine ⟨asHypreInt_keeps size, ?_⟩
    rw [asHypreInt, if_neg hsame]

omit [Inhabited V] in
theorem copyAsHypreInt_lt (size : ℕ) : (copyAsHypreInt build data size heap).addr <
    (copyAsHypreInt build data size heap).heap.next := by
  unfold copyAsHypreInt
  split
  · simp
  · rename_i hsame
    simp [asHypreInt, hsame]

omit [Inhabited V] in
/-- hypre sees every index as the conversion leaves it. -/
theorem asHypreInt_holds {l : List ℤ} {size : ℕ} (hread : heap.read data = some (.ints l))
    (hsize : l.length = size) :
    (asHypreInt build data size heap).Holds heap data (.ints (build.asInts l)) := by
  unfold asHypreInt Build.asInts
  split
  · exact ⟨.refl _, hread, .inl rfl⟩
  · have htake : (ints heap data).take size = l := by
      rw [ints_eq hread, ← hsize, List.take_length]
    simp only [htake]
    exact holds_alloc ..

omit [Inhabited V] in
theorem copyAsHypreInt_holds {l : List ℤ} {size : ℕ} (hread : heap.read data = some (.ints l))
    (hsize : l.length = size) :
    (copyAsHypreInt build data size heap).Holds heap data (.ints (build.asInts l)) := by
  unfold copyAsHypreInt
  split
  · rename_i hsame
    have hcopy : (ints heap data).take size = build.asInts l := by
      rw [ints_eq hread, ← hsize, List.take_length, Build.asInts, if_pos hsame]
    simp only [hcopy]
    exact holds_alloc ..
  · exact asHypreInt_holds hread hsize

omit [Inhabited V] in
theorem copyValues_holds {l : List V} {size : ℕ} (hread : heap.read data = some (.reals l))
    (hsize : l.length = size) : (copyValues data size heap).Holds heap data (.reals l) := by
  have hcopy : (reals heap data).take size = l := by
    rw [reals_eq hread, ← hsize, List.take_length]
  simp only [copyValues, hcopy]
  exact holds_alloc ..

end

/-! ## The diagonal block -/

/-- Every non-empty row of `c` stores its diagonal, and `d` stores one first in that row. -/
def DiagonalsFirst (c d : Csr V) : Prop :=
  ∀ i < c.numRows, c.row i ≠ [] →
    HasDiagonal c i ∧ ∃ e, (d.row i).head? = some e ∧ e.1 = i

section
variable {heap heap' : Heap (Buffer V)} {block : HypreCsr} {i j d : ℕ}

omit [Inhabited V] in
/-- A block whose arrays hold `c` describes `c`, up to the number of columns. -/
theorem view_eq (block : HypreCsr) {c : Csr V} (hrows : block.numRows = c.numRows)
    (hi : block.i = some i)
    (hj : block.j = some j) (hd : block.data = some d)
    (hri : heap.read i = some (.ints c.rowPtrs)) (hrj : heap.read j = some (.ints c.colIdxs))
    (hrd : heap.read d = some (.reals c.values)) :
    block.view heap = { c with numCols := block.numCols.toNat } := by
  simp [HypreCsr.view, hrows, hi, hj, hd, ints_eq hri, ints_eq hrj, reals_eq hrd]

/-- Storing a rearrangement of a block's contents makes the block describe it. -/
theorem view_storeBlock {c : Csr V} (hc : (block.view heap).Rearranged c) (hi : block.i = some i)
    (hj : block.j = some j) (hd : block.data = some d) (hij : i ≠ j) (hid : i ≠ d) (hjd : j ≠ d)
    (hjlt : j < heap.next) (hdlt : d < heap.next) :
    block.view (storeBlock block c heap) = c := by
  have hints : ints ((heap.write j (.ints c.colIdxs)).write d (.reals c.values)) i =
      ints heap i := by
    simp only [ints]
    rw [Heap.read_write_of_ne hid, Heap.read_write_of_ne hij]
  obtain ⟨⟨hrows, -⟩, hcols, hptrs, -, -⟩ := hc
  cases c
  simp only [HypreCsr.view, storeBlock, hi, hj, hd, Option.elim_some] at *
  simp only [Csr.mk.injEq]
  refine ⟨hrows.symm, hcols.symm, hints.trans hptrs.symm, ints_eq ?_, reals_eq ?_⟩
  · rw [Heap.read_write_of_ne hjd, Heap.read_write_self hjlt]
  · exact Heap.read_write_self (by simpa using hdlt)

omit [Inhabited V] in
/-- A further allocation does not change what a block describes. -/
theorem view_alloc {b : Buffer V} (hi : block.i = some i) (hj : block.j = some j)
    (hd : block.data = some d) (hilt : i < heap.next) (hjlt : j < heap.next)
    (hdlt : d < heap.next) : block.view (heap.alloc b) = block.view heap := by
  simp only [HypreCsr.view, hi, hj, hd, Option.elim_some, ints, reals]
  rw [Heap.read_alloc_of_lt hilt, Heap.read_alloc_of_lt hjlt, Heap.read_alloc_of_lt hdlt]

/-- The reorder routines rearrange the contents of the block; on the host, every recorded row then
stores its diagonal first. -/
theorem reorderDiagFirst_eq_ok {location : MemoryLocation} (hwf : (block.view heap).RowWf)
    (h : reorderDiagFirst build hypre block location heap = .ok heap') :
    ∃ c, (block.view heap).Rearranged c ∧ heap' = storeBlock block c heap ∧
      (location = .host → (∀ i ∈ block.rownnz, HasDiagonal (block.view heap) i) ∧
        ∀ i ∈ block.rownnz, i < (block.view heap).numRows →
          ∃ e, (c.row i).head? = some e ∧ e.1 = i) := by
  unfold reorderDiagFirst at h
  split at h
  · rename_i hdevice
    obtain ⟨_, hcode, hheap⟩ := bind_eq_ok.mp h
    cases hheap
    exact ⟨_, hypre.kernels.moveDiagFirstDevice_rearranged hwf, rfl, fun hhost => by
      rw [hhost] at hdevice; cases hdevice.2⟩
  · obtain ⟨_, hcode, hheap⟩ := bind_eq_ok.mp h
    cases hheap
    refine ⟨_, hypre.kernels.reorder_rearranged hwf, rfl, fun _ => ?_⟩
    have hzero : (hypre.kernels.reorder block.rownnz (block.view heap)).2 = 0 := by
      by_contra hne
      rw [assertNoHypreErrors_of_ne hne] at hcode
      cases hcode
    exact ⟨(hypre.kernels.reorder_code hwf).mp hzero, hypre.kernels.reorder_first hwf hzero⟩

/-- On the host, the reordering succeeds exactly if hypre's routine returns 0. -/
theorem reorderDiagFirst_host (build : Build) :
    (∃ heap', reorderDiagFirst build hypre block .host heap = .ok heap') ↔
      (hypre.kernels.reorder block.rownnz (block.view heap)).2 = 0 := by
  have hhost : ¬ (build.gpu ∧ MemoryLocation.host = .device) := fun h => nomatch h.2
  simp only [reorderDiagFirst, hhost, if_false]
  constructor
  · rintro ⟨heap', h⟩
    obtain ⟨_, hcode, -⟩ := bind_eq_ok.mp h
    by_contra hne
    rw [assertNoHypreErrors_of_ne hne] at hcode
    cases hcode
  · intro hzero
    rw [hzero, assertNoHypreErrors_zero]
    exact ⟨_, rfl⟩

/-- Whatever the routines do to the block, they store it in the block's arrays. -/
theorem reorderDiagFirst_store {location : MemoryLocation}
    (h : reorderDiagFirst build hypre block location heap = .ok heap') :
    ∃ c, heap' = storeBlock block c heap := by
  unfold reorderDiagFirst at h
  split at h <;>
  · obtain ⟨_, -, hheap⟩ := bind_eq_ok.mp h
    cases hheap
    exact ⟨_, rfl⟩

end

/-! ## Distributed matrices -/

section
variable {L : LocalMatrix P V} {mem : RankMemory L}

/-- The sizes of a rank's blocks fit into `HYPRE_Int`. -/
structure LocalFits (build : Build) (L : LocalMatrix P V) : Prop where
  rows : IntFits build.intBits L.diag.csr.numRows
  cols : IntFits build.intBits L.diag.csr.numCols
  diagNnz : IntFits build.intBits L.diag.csr.values.length
  offdCols : IntFits build.intBits L.imap.remote.length
  offdNnz : IntFits build.intBits L.offDiag.csr.values.length

instance (build : Build) (L : LocalMatrix P V) : Decidable (LocalFits build L) :=
  decidable_of_iff (IntFits build.intBits L.diag.csr.numRows ∧
      IntFits build.intBits L.diag.csr.numCols ∧
      IntFits build.intBits L.diag.csr.values.length ∧
      IntFits build.intBits L.imap.remote.length ∧
      IntFits build.intBits L.offDiag.csr.values.length)
    ⟨fun ⟨h1, h2, h3, h4, h5⟩ => ⟨h1, h2, h3, h4, h5⟩, fun ⟨h1, h2, h3, h4, h5⟩ =>
      ⟨h1, h2, h3, h4, h5⟩⟩

/-- As `LocalFits`, whatever the columns of the diagonal block are. -/
structure SizesFit (build : Build) (L : LocalMatrix P V) : Prop where
  rows : IntFits build.intBits L.diag.csr.numRows
  diagNnz : IntFits build.intBits L.diag.csr.values.length
  offdCols : IntFits build.intBits L.imap.remote.length
  offdNnz : IntFits build.intBits L.offDiag.csr.values.length

/-- The integers of a rank's part are ones of hypre. -/
structure RankRepresentable (build : Build) (L : LocalMatrix P V) : Prop
    extends SizesFit build L where
  cols : ColumnsFit build L.diag.csr

omit [Inhabited V] in
theorem LocalFits.sizes (h : LocalFits build L) : SizesFit build L :=
  ⟨h.rows, h.diagNnz, h.offdCols, h.offdNnz⟩

/-- The blocks of a rank belong together. -/
structure LocalWf (L : LocalMatrix P V) : Prop where
  diag : L.diag.csr.Wf
  offd : L.offDiag.csr.Wf
  rows : L.offDiag.csr.numRows = L.diag.csr.numRows
  cols : L.offDiag.csr.numCols = L.imap.remote.length

omit [Inhabited V] in
theorem LocalFits.representable (h : LocalFits build L) (hwf : LocalWf L) :
    RankRepresentable build L :=
  ⟨h.sizes, .inr (colIdxs_fit hwf.diag h.cols)⟩

/-- Nothing has been written, and the two arrays that hypre permutes are new. -/
structure HandedBlocks.Fresh (B : HandedBlocks V) (mem : RankMemory L) : Prop where
  keeps : mem.heap.Keeps B.offdCols.heap
  cols_new : mem.heap.next ≤ B.diagCols.addr
  values_new : mem.heap.next ≤ B.diagValues.addr

/-- Both row pointer arrays are in the final memory, as converted, and the two arrays that hypre
permutes are different from each other and from all others. -/
structure HandedBlocks.HoldsRows (build : Build) (B : HandedBlocks V) (mem : RankMemory L) : Prop
    extends B.Fresh mem where
  diagRows : B.offdCols.heap.read B.diagRows.addr = some (.ints (build.asInts L.diag.csr.rowPtrs))
  offdRows : B.offdCols.heap.read B.offdRows.addr =
    some (.ints (build.asInts L.offDiag.csr.rowPtrs))
  cols_ne_values : B.diagCols.addr ≠ B.diagValues.addr
  others_ne : ∀ a, a = B.diagRows.addr ∨ a = B.offdRows.addr ∨ a = B.offdCols.addr →
    a ≠ B.diagCols.addr ∧ a ≠ B.diagValues.addr

/-- The conversion keeps the row pointers of the diagonal block, the columns are as converted, and
the values are Ginkgo's. -/
structure HandedBlocks.HoldsDiag (build : Build) (B : HandedBlocks V) (mem : RankMemory L) : Prop
    extends B.HoldsRows build mem where
  diagPtrs : build.asInts L.diag.csr.rowPtrs = L.diag.csr.rowPtrs
  diagCols : B.offdCols.heap.read B.diagCols.addr =
    some (.ints (build.asInts L.diag.csr.colIdxs))
  diagValues : B.offdCols.heap.read B.diagValues.addr = some (.reals L.diag.csr.values)

/-- All handed arrays are in the final memory with the contents of Ginkgo's arrays, the columns of
the diagonal block as converted. -/
structure HandedBlocks.Holds (build : Build) (B : HandedBlocks V) (mem : RankMemory L) : Prop
    extends B.HoldsDiag build mem where
  offdPtrs : build.asInts L.offDiag.csr.rowPtrs = L.offDiag.csr.rowPtrs
  offdCols : B.offdCols.heap.read B.offdCols.addr = some (.ints L.offDiag.csr.colIdxs)

omit [Inhabited V] in
theorem handBlocks_fresh (diagNnz offdNnz : ℤ) (b : Buffer V) :
    (handBlocks build L mem diagNnz offdNnz (mem.heap.alloc b)).Fresh mem := by
  unfold handBlocks
  extract_lets numLocalRows diagValues diagRows diagCols offdRows offdCols
  have k1 : mem.heap.Keeps diagValues.heap := (Heap.Keeps.refl _).alloc.alloc
  have k2 : mem.heap.Keeps diagRows.heap := k1.trans (asHypreInt_keeps _)
  obtain ⟨k3, hcols⟩ : diagRows.heap.Keeps diagCols.heap ∧ diagCols.addr = diagRows.heap.next :=
    copyAsHypreInt_new _
  refine ⟨((k2.trans k3).trans (asHypreInt_keeps _)).trans (asHypreInt_keeps _), ?_, ?_⟩
  · exact k2.next_le.trans hcols.ge
  · exact (Heap.Keeps.refl mem.heap).alloc.next_le

omit [Inhabited V] in
/-- A number of entries that fits is the size of the copies. -/
theorem castSize_of_fits {n : ℕ} (h : IntFits build.intBits n) : castSize n = n := by
  have := h.castSize build.intBits_pos build.intBits_le
  rwa [h.castInt build.intBits_pos] at this

omit [Inhabited V] in
/-- Whatever the sizes are, the row pointers are handed over as converted. -/
theorem handBlocks_holdsRows (hwf : LocalWf L) (diagNnz offdNnz : ℤ) (b : Buffer V) :
    (handBlocks build L mem diagNnz offdNnz (mem.heap.alloc b)).HoldsRows build mem := by
  have h0 : mem.heap.Keeps (mem.heap.alloc b) := (Heap.Keeps.refl _).alloc
  have hn0 : (mem.heap.alloc b).next = mem.heap.next + 1 := Heap.next_alloc
  unfold handBlocks
  extract_lets numLocalRows diagValues diagRows diagCols offdRows offdCols
  have hnew1 : diagValues.addr = (mem.heap.alloc b).next := rfl
  have hn1 : diagValues.heap.next = (mem.heap.alloc b).next + 1 := Heap.next_alloc
  have k1 : mem.heap.Keeps diagValues.heap := h0.alloc
  have h2 : diagRows.Holds diagValues.heap mem.diag.rowPtrs
      (.ints (build.asInts L.diag.csr.rowPtrs)) :=
    asHypreInt_holds (k1.read mem.diag_stored.rowPtrs) hwf.diag.rowPtrs_length
  have k2 := k1.trans h2.keeps
  obtain ⟨h3, hnew3⟩ : diagRows.heap.Keeps diagCols.heap ∧ diagCols.addr = diagRows.heap.next :=
    copyAsHypreInt_new _
  have k3 := k2.trans h3
  have l3 : diagCols.addr < diagCols.heap.next := copyAsHypreInt_lt _
  have h4 : offdRows.Holds diagCols.heap mem.offDiag.rowPtrs
      (.ints (build.asInts L.offDiag.csr.rowPtrs)) :=
    asHypreInt_holds (k3.read mem.offDiag_stored.rowPtrs)
      (hwf.offd.rowPtrs_length.trans (congrArg (· + 1) hwf.rows))
  have h5 : offdRows.heap.Keeps offdCols.heap := asHypreInt_keeps _
  have o5 : offdCols.addr = mem.offDiag.colIdxs ∨ offdRows.heap.next ≤ offdCols.addr :=
    asHypreInt_addr _
  -- the order of the addresses
  have l2 := Heap.lt_next_of_read h2.read
  have n2 := h2.keeps.next_le
  have n3 := h3.next_le
  have n4 := h4.keeps.next_le
  have a1 := Heap.lt_next_of_read mem.diag_stored.rowPtrs
  have a2 := Heap.lt_next_of_read mem.offDiag_stored.rowPtrs
  have a3 := Heap.lt_next_of_read mem.offDiag_stored.colIdxs
  have o2 := h2.addr
  have o4 := h4.addr
  refine ⟨handBlocks_fresh _ _ b, ((h3.trans h4.keeps).trans h5).read h2.read, h5.read h4.read,
    ?_, ?_⟩
  · show diagCols.addr ≠ diagValues.addr
    omega
  · show ∀ a, a = diagRows.addr ∨ a = offdRows.addr ∨ a = offdCols.addr →
      a ≠ diagCols.addr ∧ a ≠ diagValues.addr
    omega

omit [Inhabited V] in
/-- A number of entries of the diagonal block that fits keeps the whole block. -/
theorem handBlocks_holdsDiag (hwf : LocalWf L)
    (hnnz : IntFits build.intBits L.diag.csr.values.length) (offdNnz : ℤ) (b : Buffer V) :
    (handBlocks build L mem L.diag.csr.values.length offdNnz
      (mem.heap.alloc b)).HoldsDiag build mem := by
  have h0 : mem.heap.Keeps (mem.heap.alloc b) := (Heap.Keeps.refl _).alloc
  have hsize := (castSize_of_fits hnnz).symm
  unfold handBlocks
  extract_lets numLocalRows diagValues diagRows diagCols offdRows offdCols
  have h1 : diagValues.Holds (mem.heap.alloc b) mem.diag.values (.reals L.diag.csr.values) :=
    copyValues_holds (h0.read mem.diag_stored.values) hsize
  have k2 : diagValues.heap.Keeps diagRows.heap := asHypreInt_keeps _
  have h3 : diagCols.Holds diagRows.heap mem.diag.colIdxs
      (.ints (build.asInts L.diag.csr.colIdxs)) :=
    copyAsHypreInt_holds (((h0.trans h1.keeps).trans k2).read mem.diag_stored.colIdxs)
      (hwf.diag.values_length ▸ hsize)
  have k5 : diagCols.heap.Keeps offdCols.heap := (asHypreInt_keeps _).trans (asHypreInt_keeps _)
  exact ⟨handBlocks_holdsRows hwf _ _ b,
    Build.asInts_eq_of_fits (rowPtrs_fit hwf.diag.toRowWf hnnz), k5.read h3.read,
    ((k2.trans h3.keeps).trans k5).read h1.read⟩

omit [Inhabited V] in
theorem handBlocks_holds (hwf : LocalWf L) (hfits : SizesFit build L) (b : Buffer V) :
    (handBlocks build L mem L.diag.csr.values.length L.offDiag.csr.values.length
      (mem.heap.alloc b)).Holds build mem := by
  have hsize : L.offDiag.csr.colIdxs.length = castSize L.offDiag.csr.values.length := by
    rw [castSize_of_fits hfits.offdNnz, hwf.offd.values_length]
  have hcols := Build.asInts_eq_of_fits (colIdxs_fit hwf.offd (hwf.cols ▸ hfits.offdCols))
  unfold handBlocks
  extract_lets numLocalRows diagValues diagRows diagCols offdRows offdCols
  have k1 : mem.heap.Keeps diagValues.heap := (Heap.Keeps.refl _).alloc.alloc
  have k2 : diagValues.heap.Keeps diagRows.heap := asHypreInt_keeps _
  have k4 : diagCols.heap.Keeps offdRows.heap := asHypreInt_keeps _
  have k := ((k1.trans k2).trans (copyAsHypreInt_new _).1).trans k4
  have h5 : offdCols.Holds offdRows.heap mem.offDiag.colIdxs (.ints L.offDiag.csr.colIdxs) :=
    hcols ▸ asHypreInt_holds (k.read mem.offDiag_stored.colIdxs) hsize
  exact ⟨handBlocks_holdsDiag hwf hfits.diagNnz _ b,
    Build.asInts_eq_of_fits (rowPtrs_fit hwf.offd.toRowWf hfits.offdNnz), h5.read⟩

theorem mapM_toHypreBigInt_eq_ok {bits : ℕ} {l l' : List ℤ} :
    l.mapM (toHypreBigInt bits) = .ok l' ↔ (∀ x ∈ l, IntFits bits x) ∧ l' = l := by
  induction l generalizing l' with
  | nil => simp [pure, Except.pure, eq_comm]
  | cons x l ih =>
    simp only [List.mapM_cons, bind_eq_ok, toHypreBigInt_eq_ok, ih, List.forall_mem_cons, pure,
      Except.pure, Except.ok.injEq]
    constructor
    · rintro ⟨_, ⟨h1, rfl⟩, _, ⟨h2, rfl⟩, rfl⟩
      exact ⟨⟨h1, h2⟩, rfl⟩
    · rintro ⟨⟨h1, h2⟩, rfl⟩
      exact ⟨_, ⟨h1, rfl⟩, _, ⟨h2, rfl⟩, rfl⟩

/-- What the local part has done when it returns: its bounds are as computed, the diagonal block is
reordered, and the remote columns are converted from the memory that this leaves. -/
theorem localParCsr_eq_ok {result : ParCsr} {rowEnd : ℤ}
    {out : ParCsr × ParCsrMatrix × Heap (Buffer V)}
    (h : localParCsr build hypre L mem result rowEnd = .ok out) :
    ∃ matrix B heap, setBlocks build L mem result (rowEnd - L.diag.csr.numRows) rowEnd =
        (matrix, B) ∧
      reorderDiagFirst build hypre (setRownnz hypre matrix.diag B.offdCols.heap)
        result.memoryLocation B.offdCols.heap = .ok heap ∧
      out = ({ result with
          rowStart := rowEnd - L.diag.csr.numRows
          diagRowPtrs := B.diagRows.storage
          diagColIdxs := B.diagCols.storage
          diagValues := B.diagValues.storage
          offdRowPtrs := B.offdRows.storage
          offdColIdxs := B.offdCols.storage },
        { matrix with
          diag := setRownnz hypre matrix.diag B.offdCols.heap
          offd := setRownnz hypre matrix.offd B.offdCols.heap
          colMapOffd := some heap.next },
        heap.alloc (.ints ((ints heap mem.remote).take
          (castSize (castInt build.intBits L.imap.getNonLocalSize))))) := by
  unfold localParCsr at h
  obtain ⟨rowStart, hstart, h⟩ := bind_eq_ok.mp h
  obtain ⟨rowStop, hstop, h⟩ := bind_eq_ok.mp h
  obtain ⟨-, rfl⟩ := toHypreBigInt_eq_ok.mp hstart
  obtain ⟨-, rfl⟩ := toHypreBigInt_eq_ok.mp hstop
  obtain ⟨_, -, h⟩ := bind_eq_ok.mp h
  obtain ⟨_, -, h⟩ := bind_eq_ok.mp h
  rcases hset : setBlocks build L mem result (rowStop - L.diag.csr.numRows) rowStop with ⟨matrix, B⟩
  rw [hset] at h
  obtain ⟨_, -, h⟩ := bind_eq_ok.mp h
  obtain ⟨heap, hreorder, h⟩ := bind_eq_ok.mp h
  obtain ⟨_, -, h⟩ := bind_eq_ok.mp h
  obtain ⟨colMap, hcolMap, h⟩ := bind_eq_ok.mp h
  obtain ⟨-, rfl⟩ := mapM_toHypreBigInt_eq_ok.mp hcolMap
  cases h
  exact ⟨matrix, B, heap, rfl, hreorder, rfl⟩

/-- The sizes that a rank has handed to hypre at the end of its local part, as converted. -/
structure LocalSizes (build : Build) (L : LocalMatrix P V) (result : ParCsr) (rowEnd : ℤ)
    (out : ParCsr × ParCsrMatrix × Heap (Buffer V)) : Prop where
  rowStart : out.1.rowStart = rowEnd - L.diag.csr.numRows
  numLocalRows : out.1.numLocalRows = result.numLocalRows
  globalRows : out.1.globalRows = result.globalRows
  matrix_globalRows : out.2.1.globalRows = result.globalRows
  rowStarts : out.2.1.rowStarts = (rowEnd - L.diag.csr.numRows, rowEnd)
  diagNnz : out.2.1.diag.numNonzeros = castInt build.intBits L.diag.csr.values.length
  offdCols : out.2.1.offd.numCols = castInt build.intBits L.imap.remote.length
  offdNnz : out.2.1.offd.numNonzeros = castInt build.intBits L.offDiag.csr.values.length

theorem localParCsr_sizes {result : ParCsr} {rowEnd : ℤ}
    {out : ParCsr × ParCsrMatrix × Heap (Buffer V)}
    (h : localParCsr build hypre L mem result rowEnd = .ok out) :
    LocalSizes build L result rowEnd out := by
  obtain ⟨matrix, B, heap, hset, -, rfl⟩ := localParCsr_eq_ok h
  cases hset
  exact ⟨rfl, rfl, rfl, rfl, rfl, rfl, rfl, rfl⟩

/-- What a rank has handed to hypre at the end of its local part, and what it has left alone,
whatever the sizes are: the row pointers are as converted. -/
structure LocalRows (build : Build) (L : LocalMatrix P V) (mem : RankMemory L) (result : ParCsr)
    (rowEnd : ℤ) (out : ParCsr × ParCsrMatrix × Heap (Buffer V)) : Prop where
  rowStart : out.1.rowStart = rowEnd - L.diag.csr.numRows
  numLocalRows : out.1.numLocalRows = result.numLocalRows
  diag_numRows : out.2.1.diag.numRows = L.diag.csr.numRows
  diag_asInts : (out.2.1.diag.view out.2.2).rowPtrs = build.asInts L.diag.csr.rowPtrs
  offd_numRows : out.2.1.offd.numRows = L.diag.csr.numRows
  offd_asInts : (out.2.1.offd.view out.2.2).rowPtrs = build.asInts L.offDiag.csr.rowPtrs
  keeps : mem.heap.Keeps out.2.2
  hasCommPkg : out.2.1.hasCommPkg = false

/-- The diagonal block that a rank has handed to hypre, if its number of entries fits. -/
structure LocalDiag (build : Build) (L : LocalMatrix P V) (result : ParCsr)
    (out : ParCsr × ParCsrMatrix × Heap (Buffer V)) : Prop where
  diag : (build.seen L.diag.csr).RowPerm (out.2.1.diag.view out.2.2)
  diag_rowPtrs : (out.2.1.diag.view out.2.2).rowPtrs = L.diag.csr.rowPtrs
  /-- The diagonal block has as many columns as rows. -/
  diag_cols : out.2.1.diag.numCols = L.diag.csr.numRows
  /-- On the host, every non-empty row of the diagonal block stores its diagonal first. -/
  diagFirst : result.memoryLocation = .host →
    DiagonalsFirst (build.seen L.diag.csr) (out.2.1.diag.view out.2.2)

/-- All that a rank has handed to hypre, if the sizes of both blocks fit. -/
structure LocalContents (build : Build) (L : LocalMatrix P V) (mem : RankMemory L)
    (result : ParCsr) (rowEnd : ℤ) (out : ParCsr × ParCsrMatrix × Heap (Buffer V)) : Prop
    extends LocalRows build L mem result rowEnd out, LocalDiag build L result out where
  offd : out.2.1.offd.view out.2.2 = L.offDiag.csr
  colMap : ∃ a, out.2.1.colMapOffd = some a ∧
    out.2.2.read a = some (.ints (L.imap.remote.map (↑)))

/-- The blocks of the matrix point at the handed arrays and at Ginkgo's off-diagonal values. -/
structure PointsAt (build : Build) (mem : RankMemory L) (matrix : ParCsrMatrix)
    (B : HandedBlocks V) : Prop where
  fresh : B.Fresh mem
  diag_i : matrix.diag.i = some B.diagRows.addr
  diag_j : matrix.diag.j = some B.diagCols.addr
  diag_data : matrix.diag.data = some B.diagValues.addr
  diag_numRows : matrix.diag.numRows = L.diag.csr.numRows
  diag_numCols : matrix.diag.numCols = L.diag.csr.numRows
  offd_i : matrix.offd.i = some B.offdRows.addr
  offd_j : matrix.offd.j = some B.offdCols.addr
  offd_data : matrix.offd.data = some mem.offDiag.values
  offd_numRows : matrix.offd.numRows = L.diag.csr.numRows
  offd_numCols : matrix.offd.numCols = castInt build.intBits L.imap.remote.length
  hasCommPkg : matrix.hasCommPkg = false

omit [Inhabited V] in
theorem setBlocks_pointsAt {result : ParCsr} {rowEnd : ℤ} {matrix : ParCsrMatrix}
    {B : HandedBlocks V}
    (h : setBlocks build L mem result (rowEnd - L.diag.csr.numRows) rowEnd = (matrix, B)) :
    PointsAt build mem matrix B := by
  have hrows : rowEnd - (rowEnd - L.diag.csr.numRows) = (L.diag.csr.numRows : ℤ) :=
    Int.sub_sub_self ..
  cases h
  exact ⟨handBlocks_fresh _ _ _, rfl, rfl, rfl, hrows, hrows, rfl, rfl, rfl, hrows, rfl, rfl⟩

omit [Inhabited V] in
theorem setBlocks_holdsRows (mem : RankMemory L) (hwf : LocalWf L) (result : ParCsr)
    (rowStart rowStop : ℤ) :
    (setBlocks build L mem result rowStart rowStop).2.HoldsRows build mem :=
  handBlocks_holdsRows hwf _ _ .object

omit [Inhabited V] in
theorem setBlocks_holdsDiag (mem : RankMemory L) (hwf : LocalWf L)
    (hnnz : IntFits build.intBits L.diag.csr.values.length) (result : ParCsr)
    (rowStart rowStop : ℤ) :
    (setBlocks build L mem result rowStart rowStop).2.HoldsDiag build mem := by
  simp only [setBlocks, hnnz.castInt build.intBits_pos]
  exact handBlocks_holdsDiag hwf hnnz _ .object

omit [Inhabited V] in
theorem setBlocks_holds (mem : RankMemory L) (hwf : LocalWf L) (hfits : SizesFit build L)
    (result : ParCsr) (rowStart rowStop : ℤ) :
    (setBlocks build L mem result rowStart rowStop).2.Holds build mem := by
  simp only [setBlocks, hfits.diagNnz.castInt build.intBits_pos,
    hfits.offdNnz.castInt build.intBits_pos]
  exact handBlocks_holds hwf hfits .object

omit [Inhabited V] in
theorem rowWf_numCols {c : Csr V} (h : c.RowWf) (n : ℕ) : Csr.RowWf { c with numCols := n } :=
  ⟨h.rowPtrs_length, h.rowPtr_zero, h.rowPtr_mono, h.rowPtr_last, h.values_length⟩

namespace PointsAt

variable {matrix : ParCsrMatrix} {B : HandedBlocks V} {c : Csr V}

/-- Before the reordering the diagonal block describes Ginkgo's, as converted. -/
theorem diag_view (h : PointsAt build mem matrix B) (hB : B.HoldsDiag build mem) :
    (setRownnz hypre matrix.diag B.offdCols.heap).view B.offdCols.heap =
      { build.seen L.diag.csr with numCols := L.diag.csr.numRows } := by
  have hview := view_eq (c := build.seen L.diag.csr)
    (setRownnz hypre matrix.diag B.offdCols.heap) h.diag_numRows
    h.diag_i h.diag_j h.diag_data (hB.diagPtrs ▸ hB.diagRows) hB.diagCols hB.diagValues
  have hcols : (setRownnz hypre matrix.diag B.offdCols.heap).numCols = L.diag.csr.numRows :=
    h.diag_numCols
  rw [hview, hcols, Int.toNat_natCast]

theorem diag_rowWf (h : PointsAt build mem matrix B) (hB : B.HoldsDiag build mem)
    (hwf : LocalWf L) :
    ((setRownnz hypre matrix.diag B.offdCols.heap).view B.offdCols.heap).RowWf := by
  rw [h.diag_view hB]
  exact rowWf_numCols (Build.rowWf_seen hwf.diag.toRowWf) _

/-- The recorded rows of the diagonal block are Ginkgo's non-empty rows. -/
theorem mem_rownnz (h : PointsAt build mem matrix B) (hB : B.HoldsDiag build mem) {i : ℕ} :
    i ∈ (setRownnz hypre matrix.diag B.offdCols.heap).rownnz ↔
      i < L.diag.csr.numRows ∧ (build.seen L.diag.csr).row i ≠ [] := by
  have hview : (setRownnz hypre matrix.diag B.offdCols.heap).view B.offdCols.heap = _ :=
    h.diag_view hB
  rw [setRownnz, show matrix.diag.view B.offdCols.heap = _ from hview]
  exact hypre.kernels.mem_setRownnz

theorem storeBlock_eq (h : PointsAt build mem matrix B) (c : Csr V) :
    storeBlock (setRownnz hypre matrix.diag B.offdCols.heap) c B.offdCols.heap =
      (B.offdCols.heap.write B.diagCols.addr (.ints c.colIdxs)).write B.diagValues.addr
        (.reals c.values) := by
  simp only [storeBlock, setRownnz, h.diag_j, h.diag_data, Option.elim_some]

/-- The reordering writes the two copies and nothing else. -/
theorem store_keeps (h : PointsAt build mem matrix B) (c : Csr V) :
    mem.heap.Keeps
      (storeBlock (setRownnz hypre matrix.diag B.offdCols.heap) c B.offdCols.heap) := by
  rw [h.storeBlock_eq]
  exact (h.fresh.keeps.write h.fresh.cols_new).write h.fresh.values_new

theorem store_read (h : PointsAt build mem matrix B) (hypre : Lib V) (c : Csr V) {a : ℕ}
    {b : Buffer V}
    (ha : B.offdCols.heap.read a = some b)
    (hne : a ≠ B.diagCols.addr ∧ a ≠ B.diagValues.addr) :
    (storeBlock (setRownnz hypre matrix.diag B.offdCols.heap) c B.offdCols.heap).read a =
      some b := by
  rw [h.storeBlock_eq, Heap.read_write_of_ne hne.2, Heap.read_write_of_ne hne.1, ha]

/-- After the reordering, and a further allocation, the diagonal block describes its result. -/
theorem stored_diag_view (h : PointsAt build mem matrix B) (hB : B.HoldsDiag build mem)
    (hc : ((setRownnz hypre matrix.diag B.offdCols.heap).view B.offdCols.heap).Rearranged c)
    (b : Buffer V) : (setRownnz hypre matrix.diag B.offdCols.heap).view
      ((storeBlock (setRownnz hypre matrix.diag B.offdCols.heap) c B.offdCols.heap).alloc b) =
        c := by
  obtain ⟨hij, hid⟩ := hB.others_ne _ (.inl rfl)
  have hi := Heap.lt_next_of_read hB.diagRows
  have hj := Heap.lt_next_of_read hB.diagCols
  have hd := Heap.lt_next_of_read hB.diagValues
  have hnext : (storeBlock (setRownnz hypre matrix.diag B.offdCols.heap) c B.offdCols.heap).next =
      B.offdCols.heap.next := by simp [h.storeBlock_eq]
  rw [← hnext] at hi
  exact (view_alloc h.diag_i h.diag_j h.diag_data hi (hnext ▸ hj) (hnext ▸ hd)).trans
    (view_storeBlock hc h.diag_i h.diag_j h.diag_data hij hid hB.cols_ne_values hj hd)

/-- The reordering, and a further allocation, keep the arrays that hypre does not permute. -/
theorem stored_read (h : PointsAt build mem matrix B) (hypre : Lib V) (c : Csr V) {a : ℕ}
    {b b' : Buffer V} (ha : B.offdCols.heap.read a = some b')
    (hne : a ≠ B.diagCols.addr ∧ a ≠ B.diagValues.addr) :
    ((storeBlock (setRownnz hypre matrix.diag B.offdCols.heap) c
      B.offdCols.heap).alloc b).read a = some b' := by
  have hstored := h.store_read hypre c ha hne
  rw [Heap.read_alloc_of_lt (Heap.lt_next_of_read hstored), hstored]

/-- The row pointers of both blocks stay as converted. -/
theorem stored_rowPtrs (h : PointsAt build mem matrix B) (hB : B.HoldsRows build mem) (c : Csr V)
    (b : Buffer V) {heap : Heap (Buffer V)}
    (hheap : heap = (storeBlock (setRownnz hypre matrix.diag B.offdCols.heap) c
      B.offdCols.heap).alloc b) :
    ((setRownnz hypre matrix.diag B.offdCols.heap).view heap).rowPtrs =
        build.asInts L.diag.csr.rowPtrs ∧
      ((setRownnz hypre matrix.offd B.offdCols.heap).view heap).rowPtrs =
        build.asInts L.offDiag.csr.rowPtrs := by
  subst hheap
  simp only [HypreCsr.view, setRownnz, h.diag_i, h.offd_i, Option.elim_some]
  exact ⟨ints_eq (h.stored_read hypre c hB.diagRows (hB.others_ne _ (.inl rfl))),
    ints_eq (h.stored_read hypre c hB.offdRows (hB.others_ne _ (.inr (.inl rfl))))⟩

/-- The reordering does not touch the off-diagonal block. -/
theorem stored_offd_view (h : PointsAt build mem matrix B) (hB : B.Holds build mem)
    (hwf : LocalWf L) (hfits : SizesFit build L) (c : Csr V) (b : Buffer V) :
    (setRownnz hypre matrix.offd B.offdCols.heap).view
      ((storeBlock (setRownnz hypre matrix.diag B.offdCols.heap) c B.offdCols.heap).alloc b) =
        L.offDiag.csr := by
  have hvalues := Heap.lt_next_of_read mem.offDiag_stored.values
  have hcols_new := h.fresh.cols_new
  have hvalues_new := h.fresh.values_new
  have hview := view_eq (setRownnz hypre matrix.offd B.offdCols.heap)
    (h.offd_numRows.trans (congrArg _ hwf.rows.symm)) h.offd_i h.offd_j h.offd_data
    (h.stored_read hypre c (b := b) (hB.offdPtrs ▸ hB.offdRows) (hB.others_ne _ (.inr (.inl rfl))))
    (h.stored_read hypre c hB.offdCols (hB.others_ne _ (.inr (.inr rfl))))
    (h.stored_read hypre c (h.fresh.keeps.read mem.offDiag_stored.values) ⟨by omega, by omega⟩)
  have hcols : (setRownnz hypre matrix.offd B.offdCols.heap).numCols = L.imap.remote.length :=
    h.offd_numCols.trans (hfits.offdCols.castInt build.intBits_pos)
  rw [hview, hcols, Int.toNat_natCast, ← hwf.cols]

/-- hypre is given the first of Ginkgo's remote columns, as many as it has off-diagonal columns. -/
theorem remote_eq (h : PointsAt build mem matrix B) (c : Csr V) :
    ints (storeBlock (setRownnz hypre matrix.diag B.offdCols.heap) c B.offdCols.heap) mem.remote =
      L.imap.remote.map (↑) :=
  ints_eq ((h.store_keeps c).read mem.remote_stored)

end PointsAt

theorem localParCsr_rows {result : ParCsr} {rowEnd : ℤ}
    {out : ParCsr × ParCsrMatrix × Heap (Buffer V)} (hwf : LocalWf L)
    (h : localParCsr build hypre L mem result rowEnd = .ok out) :
    LocalRows build L mem result rowEnd out := by
  obtain ⟨matrix, B, heap, hset, hreorder, rfl⟩ := localParCsr_eq_ok h
  have hat := setBlocks_pointsAt hset
  have hB :
      (setBlocks build L mem result (rowEnd - L.diag.csr.numRows) rowEnd).2.HoldsRows build mem :=
    setBlocks_holdsRows mem hwf result (rowEnd - L.diag.csr.numRows) rowEnd
  rw [hset] at hB
  obtain ⟨c, rfl⟩ := reorderDiagFirst_store hreorder
  obtain ⟨hdiag, hoffd⟩ := hat.stored_rowPtrs hB c _ rfl
  exact ⟨rfl, rfl, hat.diag_numRows, hdiag, hat.offd_numRows, hoffd, (hat.store_keeps c).alloc,
    hat.hasCommPkg⟩

theorem localParCsr_diag {result : ParCsr} {rowEnd : ℤ}
    {out : ParCsr × ParCsrMatrix × Heap (Buffer V)} (hwf : LocalWf L)
    (hnnz : IntFits build.intBits L.diag.csr.values.length)
    (h : localParCsr build hypre L mem result rowEnd = .ok out) :
    LocalDiag build L result out := by
  obtain ⟨matrix, B, heap, hset, hreorder, rfl⟩ := localParCsr_eq_ok h
  have hat := setBlocks_pointsAt hset
  have hB := setBlocks_holdsDiag mem hwf hnnz result (rowEnd - L.diag.csr.numRows) rowEnd
  rw [hset] at hB
  obtain ⟨c, hc, rfl, hfirst⟩ := reorderDiagFirst_eq_ok (hat.diag_rowWf hB hwf) hreorder
  have hdiag := hat.stored_diag_view hB hc (.ints ((ints (storeBlock (setRownnz hypre matrix.diag
    B.offdCols.heap) c B.offdCols.heap) mem.remote).take
      (castSize (castInt build.intBits L.imap.getNonLocalSize))))
  rw [hat.diag_view hB] at hc hfirst
  refine ⟨?_, ?_, hat.diag_numCols, fun hhost i hi hne => ?_⟩
  · rw [hdiag]
    exact ⟨hc.numRows, hc.row⟩
  · rw [hdiag]
    exact hc.rowPtrs
  · obtain ⟨hall, hhead⟩ := hfirst hhost
    have hmem : i ∈ (setRownnz hypre matrix.diag B.offdCols.heap).rownnz :=
      (hat.mem_rownnz hB).mpr ⟨hi, hne⟩
    refine ⟨hall i hmem, ?_⟩
    rw [hdiag]
    exact hhead i hmem hi

theorem localParCsr_contents {result : ParCsr} {rowEnd : ℤ}
    {out : ParCsr × ParCsrMatrix × Heap (Buffer V)} (hwf : LocalWf L) (hfits : SizesFit build L)
    (h : localParCsr build hypre L mem result rowEnd = .ok out) :
    LocalContents build L mem result rowEnd out := by
  have hrows := localParCsr_rows hwf h
  have hdiag := localParCsr_diag hwf hfits.diagNnz h
  obtain ⟨matrix, B, heap, hset, hreorder, rfl⟩ := localParCsr_eq_ok h
  have hat := setBlocks_pointsAt hset
  have hB := setBlocks_holds mem hwf hfits result (rowEnd - L.diag.csr.numRows) rowEnd
  rw [hset] at hB
  obtain ⟨c, rfl⟩ := reorderDiagFirst_store hreorder
  have hcolMap : (ints (storeBlock (setRownnz hypre matrix.diag B.offdCols.heap) c
      B.offdCols.heap) mem.remote).take
        (castSize (castInt build.intBits L.imap.getNonLocalSize)) = L.imap.remote.map (↑) := by
    rw [hat.remote_eq, IndexMap.getNonLocalSize,
      hfits.offdCols.castSize build.intBits_pos build.intBits_le,
      List.take_of_length_le (List.length_map _).le]
  exact ⟨hrows, hdiag, hat.stored_offd_view hB hwf hfits _ _,
    ⟨_, rfl, Heap.read_alloc_next.trans (congrArg _ (congrArg _ hcolMap))⟩⟩

end

/-- The collective end only adds the matrix to the record. -/
theorem wp_finishParCsr (hypre : Lib V) (result : ParCsr) (matrix : ParCsrMatrix) :
    (finishParCsr hypre result matrix : Program (mpi P) A Error ParCsr).Wp (noEffects A) ()
      fun x _ => ∀ out, x = .ok out →
        ∃ pkg, out = { result with matrix := some { matrix with hasCommPkg := pkg } } := by
  let Q : Except Error ParCsr → Unit → Prop := fun x _ => ∀ out, x = .ok out →
    ∃ pkg, out = { result with matrix := some { matrix with hasCommPkg := pkg } }
  have herror : ∀ e, Q (.error e) () := fun e out hout => nomatch hout
  show (finishParCsr hypre result matrix : Program (mpi P) A Error ParCsr).Wp (noEffects A) () Q
  unfold finishParCsr
  apply Program.wp_noEffects_bind herror; intro _
  apply Program.wp_noEffects_bind herror; intro _
  split
  · next hpkg =>
    rintro _ ⟨⟩
    exact ⟨true, by rw [← hpkg]⟩
  · apply Program.wp_noEffects_bind herror; intro _
    apply Program.wp_noEffects_bind herror; intro _
    rintro _ ⟨⟩
    exact ⟨true, rfl⟩

section
variable {L : Fin P → LocalMatrix P V} {lib : Fin P → Lib V} {location : MemoryLocation}
  {mem : (r : Fin P) → RankMemory (L r)} {policy : Fin P → PolicyState}

/-- If the import returns on all ranks, the ranks have met in a scan of the numbers of rows, and
each has done its local part from its first row. -/
theorem buildDistributedParCsr_parts {Rs : List (Round (mpi P))} {as : Fin P → List A}
    {out : Fin P → ParCsr × PolicyState × Heap (Buffer V)}
    (h : Together (fun r => buildDistributedParCsr build (lib r) location (L r) (mem r) (policy r))
      Rs as fun r => .ret (out r)) (r : Fin P) :
    (L r).rowPartition.any (·.hasOrderedParts) ∧ ∃ result matrix pkg,
      localParCsr build (lib r) (L r) (mem r)
        (beforeScan build location (L r) (mem r) (L r).size.1)
        (MpiOp.scanSum (fun s => ((L s).diag.csr.numRows : ℤ)) r) =
          .ok (result, matrix, (out r).2.2) ∧
      (out r).1 = { result with matrix := some { matrix with hasCommPkg := pkg } } := by
  have key : ∀ s, (L s).rowPartition.any (·.hasOrderedParts) ∧ ∃ vs Rs',
      Rs = ⟨MpiOp.scan, vs⟩ :: Rs' ∧ vs s = ((L s).diag.csr.numRows : ℤ) ∧
      ∃ result matrix pkg,
        localParCsr build (lib s) (L s) (mem s)
          (beforeScan build location (L s) (mem s) (L s).size.1) (MpiOp.scanSum vs s) =
            .ok (result, matrix, (out s).2.2) ∧
        (out s).1 = { result with matrix := some { matrix with hasCommPkg := pkg } } := by
    intro s
    have hs := h s
    simp only [buildDistributedParCsr] at hs
    by_cases hord : (L s).rowPartition.any (·.hasOrderedParts)
    swap
    · simp only [hord, Bool.not_false, if_true] at hs
      exact absurd hs Leads.not_raise_ret
    simp only [hord, Bool.not_true, Bool.false_eq_true, if_false] at hs
    split at hs
    · exact absurd hs Leads.not_raise_ret
    obtain ⟨globalRows, hrows, hs⟩ := hs.ofExcept_bind_inv
    obtain ⟨policy', -, hs⟩ := hs.ofExcept_bind_inv
    obtain ⟨vs, Rs', hRs, hvs, hs⟩ := hs.call_inv .ret
    obtain ⟨⟨result, matrix, heap⟩, hlocal, hs⟩ := hs.ofExcept_bind_inv
    rw [(toHypreBigInt_eq_ok.mp hrows).2] at hlocal
    obtain ⟨_, _, _, _, _, -, -, hfinish, hs⟩ := hs.bind_inv
    obtain ⟨pkg, rfl⟩ := (hfinish.wp (wp_finishParCsr _ _ _)).2 _ rfl
    rw [Program.ret.inj (hs.eq_of_final .ret).2.2]
    exact ⟨hord, vs, Rs', hRs, hvs, result, matrix, pkg, hlocal, rfl⟩
  obtain ⟨hord, vs, Rs', hRs, -, result, matrix, pkg, hlocal, hout⟩ := key r
  have hvs : vs = fun s => ((L s).diag.csr.numRows : ℤ) := by
    funext s
    obtain ⟨-, vs', Rs'', hRs', hs, -⟩ := key s
    rw [hRs] at hRs'
    cases hRs'
    exact hs
  exact ⟨hord, result, matrix, pkg, hvs ▸ hlocal, hout⟩

end

section
variable {M : DistMatrix P V} {lib : Fin P → Lib V} {location : MemoryLocation}
  {mem : (r : Fin P) → RankMemory (M.rank r)} {policy : Fin P → PolicyState}

/-- The scan gives a rank the end of its rows. -/
theorem scanSum_partSize (p : Ginkgo.Partition P) (r : Fin P) :
    MpiOp.scanSum (fun s => (p.partSize s : ℤ)) r = p.start r + p.partSize r := by
  rw [MpiOp.scanSum_eq_sum_range fun s => (p.partSize s : ℤ),
    ← Ginkgo.Partition.start_eq_sum, Ginkgo.Partition.start_succ, Nat.cast_add]

/-- If the import returns on all ranks, the partition is ordered, and each rank has done its local
part from the start of its part. -/
theorem buildDistributedParCsr_local {Rs : List (Round (mpi P))} {as : Fin P → List A}
    {out : Fin P → ParCsr × PolicyState × Heap (Buffer V)}
    (h : Together (fun r => buildDistributedParCsr build (lib r) location (M.rank r) (mem r)
      (policy r)) Rs as fun r => .ret (out r)) (r : Fin P) :
    M.rowPart.hasOrderedParts ∧ ∃ result matrix pkg,
      localParCsr build (lib r) (M.rank r) (mem r)
        (beforeScan build location (M.rank r) (mem r) M.n)
        (M.rowPart.start r + M.rowPart.partSize r) = .ok (result, matrix, (out r).2.2) ∧
      (out r).1 = { result with matrix := some { matrix with hasCommPkg := pkg } } := by
  obtain ⟨hord, result, matrix, pkg, hlocal, hout⟩ := buildDistributedParCsr_parts h r
  simp only [(M.read r).rowPartition, Option.any_some] at hord
  have hrows : (fun s => ((M.rank s).diag.csr.numRows : ℤ)) = fun s => ↑(M.rowPart.partSize s) :=
    funext fun s => congrArg Nat.cast (M.read s).diag_rows
  rw [hrows, scanSum_partSize, (M.read r).size, M.rowPart_size] at hlocal
  exact ⟨hord, result, matrix, pkg, hlocal, hout⟩

/-- What rank `r` has handed to hypre, and what it has left alone, when the import returns. -/
structure RankContents (M : DistMatrix P V) (r : Fin P) (before : Heap (Buffer V))
    (result : ParCsr) (heap : Heap (Buffer V)) : Prop where
  rowStart : result.rowStart = M.rowPart.start r
  numLocalRows : result.numLocalRows = M.rowPart.partSize r
  diag : (M.rank r).diag.csr.RowPerm (result.diagBlock heap)
  offd : result.offdBlock heap = (M.rank r).offDiag.csr
  colMap : result.colMap heap = (M.rank r).imap.remote.map (↑)
  keeps : before.Keeps heap

/-- The columns that hypre reads are the global columns of the entries. -/
theorem RankContents.offdCol {r : Fin P} {before heap : Heap (Buffer V)} {result : ParCsr}
    (h : RankContents M r before result heap) {j : ℤ} (h0 : 0 ≤ j)
    (hj : j < (M.rank r).imap.remote.length) :
    result.offdCol heap j = (M.rank r).imap.globalOf .nonLocal j := by
  have hlt : j.toNat < (M.rank r).imap.remote.length := by omega
  simp [ParCsr.offdCol, h.colMap, IndexMap.globalOf, IndexMap.globals, hlt]

theorem localWf_rank (M : DistMatrix P V) (r : Fin P) : LocalWf (M.rank r) where
  diag := (M.read r).diag_wf
  offd := (M.read r).offDiag_wf
  rows := (M.read r).offDiag_rows.trans (M.read r).diag_rows.symm
  cols := (M.read r).offDiag_cols

theorem buildDistributedParCsr_contents {Rs : List (Round (mpi P))} {as : Fin P → List A}
    {out : Fin P → ParCsr × PolicyState × Heap (Buffer V)}
    (h : Together (fun r => buildDistributedParCsr build (lib r) location (M.rank r) (mem r)
      (policy r)) Rs as fun r => .ret (out r))
    (hfits : ∀ r, RankRepresentable build (M.rank r)) (r : Fin P) :
    M.rowPart.hasOrderedParts ∧ RankContents M r (mem r).heap (out r).1 (out r).2.2 := by
  obtain ⟨hord, result, matrix, pkg, hlocal, hout⟩ := buildDistributedParCsr_local h r
  have hc := localParCsr_contents (localWf_rank M r) (hfits r).toSizesFit hlocal
  obtain ⟨a, ha, hread⟩ := hc.colMap
  have hrows := (M.read r).diag_rows
  refine ⟨hord, ?_, ?_, ?_, ?_, ?_, hc.keeps⟩
  · rw [hout]
    refine hc.rowStart.trans ?_
    rw [hrows]
    simp
  · rw [hout]
    refine hc.numLocalRows.trans (((hfits r).rows.castInt build.intBits_pos).trans ?_)
    rw [hrows]
  · rw [hout, ← (hfits r).cols.seen_eq]
    exact hc.diag
  · rw [hout]
    exact hc.offd
  · rw [hout]
    have ha : matrix.colMapOffd = some a := ha
    simp only [ParCsr.colMap, Option.bind_some, ha, Option.elim_some]
    exact ints_eq hread

end

/-! ## Serial matrices -/

section

/-- What the serial import has handed to hypre: one block, and no other. -/
structure SerialContents (S : SerialMatrix V) (before : Heap (Buffer V)) (result : ParCsr)
    (heap : Heap (Buffer V)) : Prop where
  rowStart : result.rowStart = 0
  numLocalRows : result.numLocalRows = S.n
  diag : S.csr.RowPerm (result.diagBlock heap)
  offd : ∀ i, (result.offdBlock heap).row i = []
  offd_cols : (result.offdBlock heap).colIdxs = []
  colMap : result.colMap heap = []
  keeps : before.Keeps heap

/-- A block without arrays stores nothing. -/
theorem row_view_new (numRows numCols numNonzeros : ℤ) (heap : Heap (Buffer V)) (i : ℕ) :
    ((HypreCsr.new numRows numCols numNonzeros).view heap).row i = [] := by
  simp [Csr.row, Csr.span, Csr.rowPtr, HypreCsr.view, HypreCsr.new]

/-- The sizes that the serial import has handed to hypre, as converted. -/
structure SerialSizes (build : Build) (c : Csr V) (result : ParCsr) (matrix : ParCsrMatrix) :
    Prop where
  matrix_eq : result.matrix = some matrix
  rowStart : result.rowStart = 0
  numLocalRows : result.numLocalRows = castInt build.intBits c.numRows
  globalRows : result.globalRows = c.numRows
  matrix_globalRows : matrix.globalRows = c.numRows
  rowStarts : matrix.rowStarts = (0, (c.numRows : ℤ))
  diagNnz : matrix.diag.numNonzeros = castInt build.intBits c.values.length
  offdCols : matrix.offd.numCols = 0
  offdNnz : matrix.offd.numNonzeros = 0

/-- What the serial import has stored, if the number of entries fits. -/
structure SerialStored (build : Build) (c : Csr V) (before : Heap (Buffer V))
    (location : MemoryLocation) (result : ParCsr) (heap : Heap (Buffer V)) : Prop where
  diag : (build.seen c).RowPerm (result.diagBlock heap)
  diag_rowPtrs : (result.diagBlock heap).rowPtrs = c.rowPtrs
  offd : ∀ i, (result.offdBlock heap).row i = []
  offd_rowPtrs : (result.offdBlock heap).rowPtrs = []
  offd_cols : (result.offdBlock heap).colIdxs = []
  colMap : result.colMap heap = []
  keeps : before.Keeps heap
  /-- On the host, every non-empty row of the block stores its diagonal first. -/
  diagFirst : location = .host → DiagonalsFirst (build.seen c) (result.diagBlock heap)

/-- A serial matrix as hypre reads it from the converted arrays. -/
def Build.handed (build : Build) (c : Csr V) : Csr V where
  numRows := c.numRows
  numCols := c.numRows
  rowPtrs := build.asInts c.rowPtrs
  colIdxs := build.asInts c.colIdxs
  values := c.values

/-- The arrays that the serial import hands to hypre, in the order in which they are made. -/
structure SerialArrays (V : Type) where
  rowPtrs : Handed V
  colIdxs : Handed V
  values : Handed V

variable {c : Csr V} {mem : SerialMemory c} {lib : Lib V} {location : MemoryLocation}
  {name : String} {isCsr : Bool} {policy : PolicyState}
  {out : ParCsr × PolicyState × Heap (Buffer V)}

def handSerial (build : Build) (mem : SerialMemory c) : SerialArrays V :=
  let rowPtrs := asHypreInt build mem.arrays.rowPtrs (c.numRows + 1) (mem.heap.alloc .object)
  let colIdxs := copyAsHypreInt build mem.arrays.colIdxs c.values.length rowPtrs.heap
  let values := copyValues mem.arrays.values c.values.length colIdxs.heap
  { rowPtrs, colIdxs, values }

/-- The memory when all arrays are made. -/
def SerialArrays.heap (B : SerialArrays V) : Heap (Buffer V) := B.values.heap

/-- The block that points at the handed arrays. -/
def SerialArrays.block (B : SerialArrays V) (build : Build) (c : Csr V) : HypreCsr :=
  (HypreCsr.new (c.numRows - 0) (c.numRows - 0) (castInt build.intBits c.values.length)).setBlock
    B.rowPtrs.addr B.colIdxs.addr B.values.addr (castInt build.intBits c.values.length)

/-- The handed arrays hold the contents of Ginkgo's, as converted, and the two that hypre permutes
are new and different from each other. -/
structure SerialArrays.Holds (build : Build) (B : SerialArrays V) (mem : SerialMemory c) : Prop
    where
  keeps : mem.heap.Keeps B.heap
  rowPtrs : B.heap.read B.rowPtrs.addr = some (.ints (build.asInts c.rowPtrs))
  colIdxs : B.heap.read B.colIdxs.addr = some (.ints (build.asInts c.colIdxs))
  values : B.heap.read B.values.addr = some (.reals c.values)
  cols_new : mem.heap.next ≤ B.colIdxs.addr
  values_new : mem.heap.next ≤ B.values.addr
  rows_ne_cols : B.rowPtrs.addr ≠ B.colIdxs.addr
  rows_ne_values : B.rowPtrs.addr ≠ B.values.addr
  cols_ne_values : B.colIdxs.addr ≠ B.values.addr

omit [Inhabited V] in
theorem handSerial_holds (build : Build) (mem : SerialMemory c)
    (hptrs : c.rowPtrs.length = c.numRows + 1)
    (hvalues : c.values.length = c.colIdxs.length) : (handSerial build mem).Holds build mem := by
  unfold handSerial
  extract_lets rowPtrs colIdxs values
  have h0 : mem.heap.Keeps (mem.heap.alloc .object) := (Heap.Keeps.refl _).alloc
  have hn0 : (mem.heap.alloc .object).next = mem.heap.next + 1 := Heap.next_alloc
  have h1 : rowPtrs.Holds (mem.heap.alloc .object) mem.arrays.rowPtrs
      (.ints (build.asInts c.rowPtrs)) := asHypreInt_holds (h0.read mem.stored.rowPtrs) hptrs
  have k1 := h0.trans h1.keeps
  have hnew2 : colIdxs.addr = rowPtrs.heap.next := (copyAsHypreInt_new _).2
  have h2 : colIdxs.Holds rowPtrs.heap mem.arrays.colIdxs (.ints (build.asInts c.colIdxs)) :=
    copyAsHypreInt_holds (k1.read mem.stored.colIdxs) hvalues.symm
  have k2 := k1.trans h2.keeps
  have hnew3 : values.addr = colIdxs.heap.next := rfl
  have h3 : values.Holds colIdxs.heap mem.arrays.values (.reals c.values) :=
    copyValues_holds (k2.read mem.stored.values) rfl
  -- the order of the addresses
  have l1 := Heap.lt_next_of_read h1.read
  have l2 := Heap.lt_next_of_read h2.read
  have n1 := h1.keeps.next_le
  have n2 := h2.keeps.next_le
  refine ⟨k2.trans h3.keeps, (h2.keeps.trans h3.keeps).read h1.read, h3.keeps.read h2.read,
    h3.read, ?_, ?_, ?_, ?_, ?_⟩
  · show mem.heap.next ≤ colIdxs.addr
    omega
  · show mem.heap.next ≤ values.addr
    omega
  · show rowPtrs.addr ≠ colIdxs.addr
    omega
  · show rowPtrs.addr ≠ values.addr
    omega
  · show colIdxs.addr ≠ values.addr
    omega

/-- Before the reordering the block describes Ginkgo's matrix, as converted. -/
theorem SerialArrays.Holds.view {B : SerialArrays V} (h : B.Holds build mem) (lib : Lib V) :
    (setRownnz lib (B.block build c) B.heap).view B.heap = build.handed c :=
  view_eq (c := build.handed c) _ (Int.sub_zero _) rfl rfl rfl h.rowPtrs h.colIdxs h.values

/-- What the serial import has done when it returns. -/
theorem buildSerialParCsr_eq_ok {systemMatrix : Block V} {mem : SerialMemory systemMatrix.csr}
    (h : buildSerialParCsr build lib location systemMatrix mem policy = .ok out) :
    ∃ policy' heap, reorderDiagFirst build lib
        (setRownnz lib ((handSerial build mem).block build systemMatrix.csr)
          (handSerial build mem).heap) location (handSerial build mem).heap = .ok heap ∧
      out = ({ matrix := some { ParCsrMatrix.create mem.heap.next .self systemMatrix.csr.numRows
                 systemMatrix.csr.numRows (0, ↑systemMatrix.csr.numRows)
                 (0, ↑systemMatrix.csr.numRows) 0
                 (castInt build.intBits systemMatrix.csr.values.length) 0 with
                 diag := setRownnz lib ((handSerial build mem).block build systemMatrix.csr)
                   (handSerial build mem).heap
                 hasCommPkg := true }
               comm := .self
               distributed := false
               numLocalRows := castInt build.intBits systemMatrix.csr.numRows
               rowStart := 0
               globalRows := systemMatrix.csr.numRows
               memoryLocation := location
               diagRowPtrs := (handSerial build mem).rowPtrs.storage
               diagColIdxs := (handSerial build mem).colIdxs.storage
               diagValues := (handSerial build mem).values.storage
               offdRowPtrs := none
               offdColIdxs := none
               systemMatrix := some mem.systemMatrix }, policy', heap) := by
  unfold buildSerialParCsr at h
  split at h
  · cases h
  obtain ⟨globalRows, hglobal, h⟩ := bind_eq_ok.mp h
  obtain ⟨-, rfl⟩ := toHypreBigInt_eq_ok.mp hglobal
  obtain ⟨policy', -, h⟩ := bind_eq_ok.mp h
  obtain ⟨_, -, h⟩ := bind_eq_ok.mp h
  obtain ⟨heap, hreorder, h⟩ := bind_eq_ok.mp h
  obtain ⟨_, -, h⟩ := bind_eq_ok.mp h
  obtain ⟨_, -, h⟩ := bind_eq_ok.mp h
  cases h
  exact ⟨policy', heap, hreorder, rfl⟩

theorem buildSerialParCsr_sizes
    (h : buildSerialParCsr build lib location ⟨name, isCsr, c⟩ mem policy = .ok out) :
    ∃ matrix, SerialSizes build c out.1 matrix := by
  obtain ⟨policy', heap, -, rfl⟩ := buildSerialParCsr_eq_ok h
  exact ⟨_, rfl, rfl, rfl, rfl, rfl, rfl, rfl, rfl, rfl⟩

/-- Whatever the sizes are, hypre is given the row pointers as converted. -/
theorem buildSerialParCsr_rowPtrs (hc : c.RowWf)
    (h : buildSerialParCsr build lib location ⟨name, isCsr, c⟩ mem policy = .ok out) :
    (out.1.diagBlock out.2.2).rowPtrs = build.asInts c.rowPtrs := by
  obtain ⟨policy', heap, hreorder, rfl⟩ := buildSerialParCsr_eq_ok h
  have hB := handSerial_holds build mem hc.rowPtrs_length hc.values_length
  obtain ⟨d, rfl⟩ := reorderDiagFirst_store hreorder
  refine ints_eq ((Heap.read_write_of_ne hB.rows_ne_values).trans ?_)
  exact (Heap.read_write_of_ne hB.rows_ne_cols).trans hB.rowPtrs

theorem buildSerialParCsr_stored (hc : c.RowWf) (hnnz : IntFits build.intBits c.values.length)
    (h : buildSerialParCsr build lib location ⟨name, isCsr, c⟩ mem policy = .ok out) :
    SerialStored build c mem.heap location out.1 out.2.2 := by
  obtain ⟨policy', heap, hreorder, rfl⟩ := buildSerialParCsr_eq_ok h
  have hB := handSerial_holds build mem hc.rowPtrs_length hc.values_length
  revert hreorder
  generalize handSerial build mem = B at hB ⊢
  intro hreorder
  have hhanded : build.handed c = { build.seen c with numCols := c.numRows } := by
    rw [Build.handed, Build.asInts_eq_of_fits (rowPtrs_fit hc hnnz), Build.seen]
  have hview := hB.view lib
  rw [hhanded] at hview
  have hwf : ((setRownnz lib (B.block build c) B.heap).view B.heap).RowWf := by
    rw [hview]
    exact rowWf_numCols (Build.rowWf_seen hc) _
  have hrownnz : ∀ {i : ℕ}, i ∈ (setRownnz lib (B.block build c) B.heap).rownnz ↔
      i < c.numRows ∧ (build.seen c).row i ≠ [] := by
    intro i
    rw [setRownnz, show (B.block build c).view B.heap = _ from hview]
    exact lib.kernels.mem_setRownnz
  obtain ⟨d, hd, rfl, hfirst⟩ := reorderDiagFirst_eq_ok hwf hreorder
  have hstore : (setRownnz lib (B.block build c) B.heap).view
      (storeBlock (setRownnz lib (B.block build c) B.heap) d B.heap) = d :=
    view_storeBlock hd rfl rfl rfl hB.rows_ne_cols hB.rows_ne_values hB.cols_ne_values
      (Heap.lt_next_of_read hB.colIdxs) (Heap.lt_next_of_read hB.values)
  rw [hview] at hd hfirst
  refine ⟨?_, ?_, row_view_new _ _ _ _, rfl, rfl, rfl,
    (hB.keeps.write hB.cols_new).write hB.values_new, fun hhost i hi hne => ?_⟩
  · show (build.seen c).RowPerm ((setRownnz lib (B.block build c) B.heap).view _)
    rw [hstore]
    exact ⟨hd.numRows, hd.row⟩
  · show ((setRownnz lib (B.block build c) B.heap).view _).rowPtrs = c.rowPtrs
    rw [hstore]
    exact hd.rowPtrs
  · obtain ⟨hall, hhead⟩ := hfirst hhost
    refine ⟨hall i (hrownnz.mpr ⟨hi, hne⟩), ?_⟩
    show ∃ e, (((setRownnz lib (B.block build c) B.heap).view _).row i).head? = some e ∧ e.1 = i
    rw [hstore]
    exact hhead i (hrownnz.mpr ⟨hi, hne⟩) hi

theorem buildSerialParCsr_contents {S : SerialMatrix V} {mem : SerialMemory S.csr}
    (hn : IntFits build.intBits S.n) (hnnz : IntFits build.intBits S.csr.values.length)
    (h : buildSerialParCsr build lib location ⟨name, isCsr, S.csr⟩ mem policy = .ok out) :
    SerialContents S mem.heap out.1 out.2.2 := by
  obtain ⟨matrix, hsizes⟩ := buildSerialParCsr_sizes h
  have hstored := buildSerialParCsr_stored S.wf.toRowWf hnnz h
  have hseen := Build.seen_eq_of_fits (colIdxs_fit S.wf (S.cols ▸ hn))
  refine ⟨hsizes.rowStart, hsizes.numLocalRows.trans ?_, hseen ▸ hstored.diag, hstored.offd,
    hstored.offd_cols, hstored.colMap, hstored.keeps⟩
  rw [S.rows, hn.castInt build.intBits_pos]

end

end GinkgoTpl.Hypre
