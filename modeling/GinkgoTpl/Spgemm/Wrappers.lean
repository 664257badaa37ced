import Mathlib.Data.List.GetD
import GinkgoTpl.Sparse.Csr

/-!
# What the SpGEMM wrappers describe

The classes of `spgemm/benchmark_wrappers.hpp`: operators around a `Csr` that they read, and the
description of it that `apply_impl` hands over to a library, with the dimensions of the operator
and the arrays of the `Csr`. No `read` sets the size of the operator, so that the main result,
`describesLast_iff`, is about the size that was passed at the creation.
-/

namespace GinkgoTpl.Spgemm

open Sparse

variable {V : Type} [Inhabited V]

/-- A `matrix_data`: a size and entries within it. -/
structure MatrixData (V : Type) where
  numRows : ℕ
  numCols : ℕ
  nonzeros : List (ℕ × ℤ × V)
  inRange : ∀ e ∈ nonzeros, e.1 < numRows ∧ 0 ≤ e.2.1 ∧ e.2.1 < numCols

/-- The documented effect of Ginkgo's `Csr::read`, which replaces the matrix. -/
structure CsrRead (V : Type) [Inhabited V] where
  read : MatrixData V → Csr V
  numRows : ∀ data, (read data).numRows = data.numRows
  numCols : ∀ data, (read data).numCols = data.numCols
  wf : ∀ data, (read data).Wf

/-- Reading the entries by rows. -/
def CsrRead.byRows (V : Type) [Inhabited V] : CsrRead V where
  read data := .ofEntries data.numRows data.numCols data.nonzeros
  numRows _ := rfl
  numCols _ := rfl
  wf data := Csr.wf_ofEntries fun e he => (data.inRange e he).2

/-- A wrapper: the size of the operator, and the matrix it refers to. -/
structure Wrapper (V : Type) where
  size : ℕ × ℕ
  csr : Csr V

/-- The constructors take the size of the operator, and create an empty matrix. -/
def Wrapper.create (V : Type) (size : ℕ × ℕ) : Wrapper V where
  size := size
  csr := ⟨0, 0, [0], [], []⟩

/-- What a library is told of a matrix. -/
structure Description (V : Type) where
  rows : ℕ
  cols : ℕ
  nnz : ℕ
  rowOffsets : List ℤ
  colIds : List ℤ
  data : List V

def Description.of (m : Csr V) : Description V where
  rows := m.numRows
  cols := m.numCols
  nnz := m.values.length
  rowOffsets := m.rowPtrs
  colIds := m.colIdxs
  data := m.values

structure Description.WellFormed (d : Description V) : Prop where
  rowOffsets_length : d.rowOffsets.length = d.rows + 1
  rowOffsets_mono : d.rowOffsets.Pairwise (· ≤ ·)
  rowOffsets_last : d.rowOffsets.getLast? = some (d.nnz : ℤ)
  colIds_length : d.colIds.length = d.nnz
  data_length : d.data.length = d.nnz
  colIds_range : ∀ j ∈ d.colIds, 0 ≤ j ∧ j < d.cols

/-! ## The four classes -/

/-- `this->csr_->read(data)`. -/
def Wrapper.readInner (ginkgo : CsrRead V) (data : MatrixData V) (w : Wrapper V) : Wrapper V :=
  { w with csr := ginkgo.read data }

/-- The arrays of the matrix with the rows of the operator and a number of columns. -/
def Wrapper.describe (cols : ℕ) (w : Wrapper V) : Description V :=
  { Description.of w.csr with rows := w.size.1, cols }

def NSparseCsr.read (ginkgo : CsrRead V) : MatrixData V → Wrapper V → Wrapper V :=
  Wrapper.readInner ginkgo

def AcCsr.read (ginkgo : CsrRead V) : MatrixData V → Wrapper V → Wrapper V :=
  Wrapper.readInner ginkgo

def SpeckCsr.read (ginkgo : CsrRead V) : MatrixData V → Wrapper V → Wrapper V :=
  Wrapper.readInner ginkgo

def KokkosCsr.read (ginkgo : CsrRead V) : MatrixData V → Wrapper V → Wrapper V :=
  Wrapper.readInner ginkgo

def NSparseCsr.describe (w : Wrapper V) : Description V := w.describe w.size.2
def AcCsr.describe (w : Wrapper V) : Description V := w.describe w.size.2
def SpeckCsr.describe (w : Wrapper V) : Description V := w.describe w.size.2

/-- The columns are counted by the rows of `b`. -/
def KokkosCsr.describe (bRows : ℕ) (w : Wrapper V) : Description V := w.describe bRows

inductive WrapperClass where
  | nsparse
  | ac
  | speck
  | kokkos
  deriving DecidableEq

def WrapperClass.read (ginkgo : CsrRead V) :
    WrapperClass → MatrixData V → Wrapper V → Wrapper V
  | nsparse => NSparseCsr.read ginkgo
  | ac => AcCsr.read ginkgo
  | speck => SpeckCsr.read ginkgo
  | kokkos => KokkosCsr.read ginkgo

/-- What `apply_impl` of a class tells of the left operand, for a right one with `bRows` rows. -/
def WrapperClass.describe (bRows : ℕ) (w : Wrapper V) : WrapperClass → Description V
  | nsparse => NSparseCsr.describe w
  | ac => AcCsr.describe w
  | speck => SpeckCsr.describe w
  | kokkos => KokkosCsr.describe bRows w

/-- A sequence of reads. -/
def WrapperClass.reads (ginkgo : CsrRead V) (k : WrapperClass) (w : Wrapper V) :
    List (MatrixData V) → Wrapper V
  | [] => w
  | data :: ds => k.reads ginkgo (k.read ginkgo data w) ds

/-- The operator has the size of its matrix, and wherever the dimensions of an apply agree, the
library is told of the matrix that `data` describes. -/
structure DescribesLast (ginkgo : CsrRead V) (k : WrapperClass) (w : Wrapper V)
    (data : MatrixData V) : Prop where
  size : w.size = (w.csr.numRows, w.csr.numCols)
  description : ∀ bRows, w.size.2 = bRows → k.describe bRows w = .of (ginkgo.read data)
  wellFormed : ∀ bRows, w.size.2 = bRows → (k.describe bRows w).WellFormed

/-! ## Reads -/

section
variable {ginkgo : CsrRead V} {k : WrapperClass} {w : Wrapper V} {data : MatrixData V}
  {ds : List (MatrixData V)} {s : ℕ × ℕ}

/-- A read replaces the matrix and leaves the size of the operator alone. -/
theorem read_eq : k.read ginkgo data w = ⟨w.size, ginkgo.read data⟩ := by
  cases k <;> rfl

/-- After any reads, the operator has the size of its creation and the matrix read last. -/
theorem reads_eq : k.reads ginkgo w (ds ++ [data]) = ⟨w.size, ginkgo.read data⟩ := by
  induction ds generalizing w with
  | nil => exact read_eq
  | cons data' ds ih =>
    show k.reads ginkgo (k.read ginkgo data' w) (ds ++ [data]) = _
    rw [ih, read_eq]

omit [Inhabited V] in
theorem describe_eq {bRows : ℕ} (h : w.size.2 = bRows) :
    k.describe bRows w = w.describe bRows := by
  subst h
  cases k <;> rfl

omit [Inhabited V] in
theorem wellFormed_of_wf {m : Csr V} (h : m.Wf) : (Description.of m).WellFormed where
  rowOffsets_length := h.rowPtrs_length
  rowOffsets_mono := by
    show m.rowPtrs.Pairwise (· ≤ ·)
    refine List.pairwise_iff_getElem.mpr fun i j hi hj hlt => ?_
    have hlen := h.rowPtrs_length
    have hle := h.toRowWf.rowPtr_le hlt.le (by omega)
    rwa [Csr.rowPtr, Csr.rowPtr, List.getD_eq_getElem _ _ hi, List.getD_eq_getElem _ _ hj] at hle
  rowOffsets_last := by
    have hlen := h.rowPtrs_length
    have hlast := h.rowPtr_last
    rw [Csr.rowPtr, List.getD_eq_getElem _ _ (by omega)] at hlast
    show m.rowPtrs.getLast? = some (m.values.length : ℤ)
    rw [List.getLast?_eq_getElem?, hlen, Nat.add_sub_cancel, List.getElem?_eq_getElem (by omega),
      hlast, h.values_length]
  colIds_length := h.values_length.symm
  data_length := rfl
  colIds_range := h.col_range

/-- The library gets arrays that fit the dimensions, though maybe not the right ones, exactly if
the operator has as many rows as the matrix and columns for all its entries. -/
theorem describe_wellFormed_iff :
    (k.describe s.2 (k.reads ginkgo (.create V s) (ds ++ [data]))).WellFormed ↔
      s.1 = data.numRows ∧ ∀ j ∈ (ginkgo.read data).colIdxs, j < s.2 := by
  have hwf := wellFormed_of_wf (ginkgo.wf data)
  have hlength := (ginkgo.wf data).rowPtrs_length
  rw [ginkgo.numRows] at hlength
  have hdescribe : k.describe s.2 ⟨s, ginkgo.read data⟩ =
      { Description.of (ginkgo.read data) with rows := s.1, cols := s.2 } := describe_eq rfl
  rw [reads_eq]
  show (k.describe s.2 ⟨s, ginkgo.read data⟩).WellFormed ↔ _
  rw [hdescribe]
  constructor
  · intro hdescribe
    have hrows : (ginkgo.read data).rowPtrs.length = s.1 + 1 := hdescribe.rowOffsets_length
    exact ⟨by omega, fun j hj => (hdescribe.colIds_range j hj).2⟩
  · rintro ⟨hrows, hcols⟩
    have hoffsets : (ginkgo.read data).rowPtrs.length = s.1 + 1 := by rw [hlength, hrows]
    exact ⟨hoffsets, hwf.rowOffsets_mono, hwf.rowOffsets_last, hwf.colIds_length, hwf.data_length,
      fun j hj => ⟨(hwf.colIds_range j hj).1, hcols j hj⟩⟩

/-- After any reads, a wrapper describes the matrix read last exactly if it was created with the
size of that matrix. -/
theorem describesLast_iff (ginkgo : CsrRead V) (k : WrapperClass) (s : ℕ × ℕ)
    (ds : List (MatrixData V)) (data : MatrixData V) :
    DescribesLast ginkgo k (k.reads ginkgo (.create V s) (ds ++ [data])) data ↔
      s = (data.numRows, data.numCols) := by
  rw [reads_eq, ← ginkgo.numRows data, ← ginkgo.numCols data]
  constructor
  · exact fun hlast => hlast.size
  · rintro rfl
    have hdescribe : ∀ bRows, (ginkgo.read data).numCols = bRows →
        k.describe bRows ⟨((ginkgo.read data).numRows, (ginkgo.read data).numCols),
          ginkgo.read data⟩ = .of (ginkgo.read data) := by
      rintro _ rfl
      exact describe_eq rfl
    exact ⟨rfl, hdescribe, fun bRows hb => (hdescribe bRows hb).symm ▸ wellFormed_of_wf
      (ginkgo.wf data)⟩

end

/-! ## One entry -/

/-- The 1 x 1 matrix of a number. -/
def oneByOne (value : ℤ) : MatrixData ℤ where
  numRows := 1
  numCols := 1
  nonzeros := [(0, 0, value)]
  inRange := by simp

/-- An operator of the default size. -/
def defaultSize : Wrapper ℤ := .create ℤ (0, 0)

/-- It describes the matrix it has read as one without rows, with two row pointers. -/
theorem default_size_stays :
    (WrapperClass.nsparse.reads (.byRows ℤ) defaultSize [oneByOne 2]).size = (0, 0) ∧
    (WrapperClass.nsparse.reads (.byRows ℤ) defaultSize [oneByOne 2]).csr.numRows = 1 ∧
    (NSparseCsr.describe (NSparseCsr.read (.byRows ℤ) (oneByOne 2) defaultSize)).rowOffsets =
      [0, 1] ∧
    ¬ DescribesLast (.byRows ℤ) .nsparse
      (WrapperClass.nsparse.reads (.byRows ℤ) defaultSize [oneByOne 2]) (oneByOne 2) := by
  refine ⟨rfl, rfl, rfl, fun h => ?_⟩
  have hrows : 0 = 1 := congrArg Prod.fst h.size
  cases hrows

end GinkgoTpl.Spgemm
