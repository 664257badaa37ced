import GinkgoTpl.Error
import GinkgoTpl.Sparse.Operators
import GinkgoTpl.Spgemm.Wrappers

/-!
# What the SpGEMM wrappers compute

`apply_impl` of the four classes on the contents of the arrays. nsparse and KokkosKernels multiply
in two phases, into the arrays of `x`; AC-SpGEMM and spECK make arrays of their own, which become
those of `x`. With libraries that multiply as documented, reads and applies in any order are
operations on linear maps: `products_composed`.
-/

namespace GinkgoTpl.Spgemm

open Sparse

variable {V : Type}

/-! ## The libraries -/

/-- The matrix that a description is about. -/
def Description.matrix (d : Description V) : Csr V where
  numRows := d.rows
  numCols := d.cols
  rowPtrs := d.rowOffsets
  colIdxs := d.colIds
  values := d.data

/-- The description without the values. -/
def Description.pattern (d : Description V) : Description Unit :=
  { d with data := List.replicate d.nnz () }

/-- `hash_symbolic` sets the row pointers and the number of entries of the product, and
`hash_numeric` its entries. -/
structure NSparse (V : Type) where
  symbolic : Description V → Description V → Description V → Description V
  numeric : Description V → Description V → Description V → Description V

/-- The multiplication of AC-SpGEMM or spECK, into the third description. -/
structure DCsrLibrary (V : Type) where
  multiply : Description V → Description V → Description V → Description V

/-- `spgemm_symbolic` gives the row pointers and the number of entries of the product, and
`spgemm_numeric` its columns and values for these. -/
structure KokkosKernels (V : Type) where
  symbolic : Description Unit → Description Unit → List ℤ × ℕ
  numeric : Description V → Description V → List ℤ → ℕ → List ℤ × List V

structure Libraries (V : Type) where
  nsparse : NSparse V
  ac : DCsrLibrary V
  speck : DCsrLibrary V
  kokkos : KokkosKernels V

/-! ## The objects -/

/-- The matrices in memory. -/
abbrev Store (V : Type) := ℕ → Csr V

/-- A wrapper with the matrix that it refers to. -/
structure Operator where
  cls : WrapperClass
  size : ℕ × ℕ
  csr : ℕ

def Operator.wrapper (op : Operator) (s : Store V) : Wrapper V := ⟨op.size, s op.csr⟩

/-- The arrays of a matrix are set. -/
def Store.setArrays (s : Store V) (x : ℕ) (rowPtrs colIdxs : List ℤ) (values : List V) : Store V :=
  Function.update s x ⟨(s x).numRows, (s x).numCols, rowPtrs, colIdxs, values⟩

/-- The description of `x` before the product. -/
def emptyResult (x : Csr V) (rowOffsets : List ℤ) : Description V :=
  ⟨x.numRows, x.numCols, 0, rowOffsets, [], []⟩

section
variable [Inhabited V]

/-- The columns and values of `x` are resized between the phases, which leaves their contents
open. -/
def NSparseCsr.applyImpl (lib : NSparse V) (op : Operator) (b x : ℕ) (s : Store V) : Store V :=
  let xWrap := emptyResult (s x) (s x).rowPtrs
  let xWrap := lib.symbolic (NSparseCsr.describe (op.wrapper s)) (.of (s b)) xWrap
  let colIds := List.replicate xWrap.nnz 0
  let data := List.replicate xWrap.nnz default
  let s := s.setArrays x xWrap.rowOffsets colIds data
  let xWrap := lib.numeric (NSparseCsr.describe (op.wrapper s)) (.of (s b))
    { xWrap with colIds, data }
  s.setArrays x xWrap.rowOffsets xWrap.colIds xWrap.data

/-- The row offsets of the product are copied to `x`. -/
def applyDCsr (lib : DCsrLibrary V) (describe : Wrapper V → Description V) (op : Operator)
    (b x : ℕ) (s : Store V) : Store V :=
  let xWrap := emptyResult (s x) (List.replicate ((s x).numRows + 1) 0)
  let xWrap := lib.multiply (describe (op.wrapper s)) (.of (s b)) xWrap
  let copied := xWrap.rows + 1
  s.setArrays x (xWrap.rowOffsets.take copied ++ (s x).rowPtrs.drop copied)
    (xWrap.colIds.take xWrap.nnz) (xWrap.data.take xWrap.nnz)

def AcCsr.product (lib : DCsrLibrary V) : Operator → ℕ → ℕ → Store V → Store V :=
  applyDCsr lib AcCsr.describe

def SpeckCsr.product (lib : DCsrLibrary V) : Operator → ℕ → ℕ → Store V → Store V :=
  applyDCsr lib SpeckCsr.describe

def KokkosCsr.applyImpl (lib : KokkosKernels V) (op : Operator) (b x : ℕ) (s : Store V) :
    Store V :=
  let k := (s b).numRows
  let (rowPtrs, nnz) := lib.symbolic (KokkosCsr.describe k (op.wrapper s)).pattern
    (Description.of (s b)).pattern
  let s := s.setArrays x rowPtrs (List.replicate nnz 0) (List.replicate nnz default)
  let (colIdxs, values) := lib.numeric (KokkosCsr.describe k (op.wrapper s)) (.of (s b)) rowPtrs nnz
  s.setArrays x rowPtrs colIdxs values

/-- `apply_impl` of a wrapper. -/
def Operator.applyImpl (libs : Libraries V) (op : Operator) : ℕ → ℕ → Store V → Store V :=
  match op.cls with
  | .nsparse => NSparseCsr.applyImpl libs.nsparse op
  | .ac => AcCsr.product libs.ac op
  | .speck => SpeckCsr.product libs.speck op
  | .kokkos => KokkosCsr.applyImpl libs.kokkos op

/-- The dimensions of the operands agree, which Ginkgo checks before `apply_impl`. -/
def Operator.Conforms (op : Operator) (b x : ℕ × ℕ) : Prop :=
  op.size.2 = b.1 ∧ op.size.1 = x.1 ∧ b.2 = x.2

instance (op : Operator) (b x : ℕ × ℕ) : Decidable (op.Conforms b x) :=
  inferInstanceAs (Decidable (_ ∧ _))

end

/-- The class has its library write into `x` in two phases. -/
def WrapperClass.TwoPhase : WrapperClass → Prop
  | nsparse | kokkos => True
  | ac | speck => False

/-- The operands of an apply whose dimensions agree: the operator has the size of its matrix, and
nothing is written into an operand between two phases. -/
structure Ready (op : Operator) (b x : ℕ) (s : Store V) : Prop where
  size : op.size = ((s op.csr).numRows, (s op.csr).numCols)
  conforms : op.Conforms ((s b).numRows, (s b).numCols) ((s x).numRows, (s x).numCols)
  apart : op.cls.TwoPhase → b ≠ x ∧ op.csr ≠ x

/-- The operands of a product, and a result with space for the row offsets. -/
structure Multipliable (m n : Csr V) (x : Description V) : Prop where
  left : m.Wf
  right : n.Wf
  inner : m.numCols = n.numRows
  rows : x.rows = m.numRows
  cols : x.cols = n.numCols
  rowOffsets : x.rowOffsets.length = x.rows + 1

section
variable {op : Operator} {b x : ℕ} {s : Store V}

theorem Ready.describe (h : Ready op b x s) (k : WrapperClass) :
    k.describe (s b).numRows (op.wrapper s) = .of (s op.csr) := by
  have hcols : (op.wrapper s).size.2 = (s b).numRows := h.conforms.1
  rw [describe_eq hcols, Wrapper.describe, ← hcols]
  simp only [Operator.wrapper, h.size]
  rfl

theorem Ready.multipliable (h : Ready op b x s) (hwf : ∀ o, (s o).Wf) {rowOffsets : List ℤ}
    (hlength : rowOffsets.length = (s x).numRows + 1) :
    Multipliable (s op.csr) (s b) (emptyResult (s x) rowOffsets) := by
  obtain ⟨hinner, hrows, hcols⟩ := h.conforms
  rw [h.size] at hinner hrows
  exact ⟨hwf _, hwf _, hinner, hrows.symm, hcols.symm, hlength⟩

theorem Operator.wrapper_update (h : op.csr ≠ x) (c : Csr V) :
    op.wrapper (Function.update s x c) = op.wrapper s := by
  rw [Operator.wrapper, Function.update_of_ne h, Operator.wrapper]

theorem setArrays_setArrays (s : Store V) (x : ℕ) (rowPtrs rowPtrs' colIdxs colIdxs' : List ℤ)
    (values values' : List V) :
    (s.setArrays x rowPtrs colIdxs values).setArrays x rowPtrs' colIdxs' values' =
      s.setArrays x rowPtrs' colIdxs' values' := by
  simp only [Store.setArrays, Function.update_self, Function.update_idem]

end

/-! ## What the libraries promise -/

section
variable [Inhabited V] [CommSemiring V]

/-- `c` is a product of `m` and `n`. -/
structure IsProduct (m n c : Csr V) : Prop where
  numRows : c.numRows = m.numRows
  numCols : c.numCols = n.numCols
  wf : c.Wf
  map : linearMap c.entries = linearMap m.entries ∘ₗ linearMap n.entries

/-- For columns and values of any contents, of the number that the symbolic phase has found. -/
def NSparse.Multiplies (lib : NSparse V) : Prop :=
  ∀ m n x, Multipliable m n x →
    let c := lib.symbolic (.of m) (.of n) x
    ∀ colIds data, colIds.length = c.nnz → data.length = c.nnz →
      IsProduct m n { (lib.numeric (.of m) (.of n) { c with colIds, data }).matrix with
        numRows := x.rows
        numCols := x.cols }

def DCsrLibrary.Multiplies (lib : DCsrLibrary V) : Prop :=
  ∀ m n x, Multipliable m n x →
    let c := lib.multiply (.of m) (.of n) x
    c.rows = x.rows ∧ c.nnz = c.colIds.length ∧
      IsProduct m n { c.matrix with numRows := x.rows, numCols := x.cols }

def KokkosKernels.Multiplies (lib : KokkosKernels V) : Prop :=
  ∀ m n x, Multipliable m n x →
    let (rowPtrs, nnz) := lib.symbolic (Description.of m).pattern (Description.of n).pattern
    let (colIdxs, values) := lib.numeric (.of m) (.of n) rowPtrs nnz
    IsProduct m n ⟨x.rows, x.cols, rowPtrs, colIdxs, values⟩

/-- All four libraries multiply. -/
structure Libraries.Multiply (libs : Libraries V) : Prop where
  nsparse : libs.nsparse.Multiplies
  ac : libs.ac.Multiplies
  speck : libs.speck.Multiplies
  kokkos : libs.kokkos.Multiplies

/-! ## One product -/

variable {libs : Libraries V} {op : Operator} {b x : ℕ} {s : Store V}

theorem NSparseCsr.applyImpl_product {lib : NSparse V} (hlib : lib.Multiplies)
    (hwf : ∀ o, (s o).Wf) (h : Ready op b x s) (hb : b ≠ x) (hop : op.csr ≠ x) :
    ∃ c, NSparseCsr.applyImpl lib op b x s = Function.update s x c ∧
      IsProduct (s op.csr) (s b) c := by
  have hmul := h.multipliable hwf (hwf x).rowPtrs_length
  have hdescribe : NSparseCsr.describe (op.wrapper s) = _ := h.describe .nsparse
  have hproduct := hlib _ _ _ hmul _ _ (List.length_replicate (a := 0))
    (List.length_replicate (a := default))
  refine ⟨_, ?_, hproduct⟩
  simp only [NSparseCsr.applyImpl, setArrays_setArrays, hdescribe]
  simp only [Store.setArrays, Operator.wrapper_update hop, Function.update_of_ne hb, hdescribe]
  rfl

theorem applyDCsr_product {lib : DCsrLibrary V} {describe : Wrapper V → Description V}
    (hlib : lib.Multiplies) (hwf : ∀ o, (s o).Wf) (h : Ready op b x s)
    (hdescribe : describe (op.wrapper s) = .of (s op.csr)) :
    ∃ c, applyDCsr lib describe op b x s = Function.update s x c ∧
      IsProduct (s op.csr) (s b) c := by
  have hmul := h.multipliable hwf (List.length_replicate (a := 0))
  obtain ⟨hrows, hnnz, hproduct⟩ := hlib _ _ _ hmul
  refine ⟨_, ?_, hproduct⟩
  simp only [applyDCsr, hdescribe]
  generalize lib.multiply _ _ _ = c at hrows hnnz hproduct ⊢
  have hrows : c.rows = (s x).numRows := hrows
  have hoffsets : c.rowOffsets.length = (s x).numRows + 1 := hproduct.wf.rowPtrs_length
  have hvalues : c.data.length = c.colIds.length := hproduct.wf.values_length
  have hold : (s x).rowPtrs.length = (s x).numRows + 1 := (hwf x).rowPtrs_length
  -- the row offsets fit exactly, and the arrays are taken as a whole
  rw [hrows, List.take_of_length_le hoffsets.le, List.drop_eq_nil_of_le hold.le, List.append_nil,
    List.take_of_length_le hnnz.ge, List.take_of_length_le (hvalues.trans hnnz.symm).le]
  rfl

theorem KokkosCsr.applyImpl_product {lib : KokkosKernels V} (hlib : lib.Multiplies)
    (hwf : ∀ o, (s o).Wf) (h : Ready op b x s) (hb : b ≠ x) (hop : op.csr ≠ x) :
    ∃ c, KokkosCsr.applyImpl lib op b x s = Function.update s x c ∧
      IsProduct (s op.csr) (s b) c := by
  have hmul := h.multipliable hwf (hwf x).rowPtrs_length
  have hdescribe : KokkosCsr.describe (s b).numRows (op.wrapper s) = _ := h.describe .kokkos
  refine ⟨_, ?_, hlib _ _ _ hmul⟩
  simp only [KokkosCsr.applyImpl, setArrays_setArrays, hdescribe]
  simp only [Store.setArrays, Operator.wrapper_update hop, Function.update_of_ne hb, hdescribe]
  rfl

/-- Whatever the class, an apply makes `x` the product, and changes no other matrix. -/
theorem Operator.applyImpl_product (hlibs : libs.Multiply) (hwf : ∀ o, (s o).Wf)
    (h : Ready op b x s) :
    ∃ c, op.applyImpl libs b x s = Function.update s x c ∧
      IsProduct (s op.csr) (s b) c := by
  have hapart := h.apart
  unfold Operator.applyImpl
  cases hcls : op.cls with
  | nsparse =>
    obtain ⟨hb, hop⟩ := hapart (hcls ▸ trivial)
    exact NSparseCsr.applyImpl_product hlibs.nsparse hwf h hb hop
  | ac => exact applyDCsr_product hlibs.ac hwf h (h.describe .ac)
  | speck => exact applyDCsr_product hlibs.speck hwf h (h.describe .speck)
  | kokkos =>
    obtain ⟨hb, hop⟩ := hapart (hcls ▸ trivial)
    exact KokkosCsr.applyImpl_product hlibs.kokkos hwf h hb hop

end

/-! ## Libraries that multiply -/

section
variable (V) [Inhabited V] [CommSemiring V]

def NSparse.exact : NSparse V where
  symbolic a b x :=
    let c := a.matrix.mul b.matrix
    { x with rowOffsets := c.rowPtrs, nnz := c.values.length }
  numeric a b x :=
    let c := a.matrix.mul b.matrix
    { x with colIds := c.colIdxs, data := c.values }

def DCsrLibrary.exact : DCsrLibrary V where
  multiply a b x := { Description.of (a.matrix.mul b.matrix) with rows := x.rows, cols := x.cols }

def KokkosKernels.exact : KokkosKernels V where
  symbolic a b :=
    let c := a.matrix.mul b.matrix
    (c.rowPtrs, c.values.length)
  numeric a b _ _ :=
    let c := a.matrix.mul b.matrix
    (c.colIdxs, c.values)

def Libraries.exact : Libraries V := ⟨.exact V, .exact V, .exact V, .exact V⟩

variable {V}

theorem Multipliable.isProduct {m n : Csr V} {x : Description V} (h : Multipliable m n x) :
    IsProduct m n ⟨x.rows, x.cols, (m.mul n).rowPtrs, (m.mul n).colIdxs, (m.mul n).values⟩ := by
  rw [h.rows, h.cols]
  exact ⟨rfl, rfl, Csr.wf_mul h.left h.right h.inner, Csr.linearMap_mul h.left h.right h.inner⟩

theorem exact_multiply : (Libraries.exact V).Multiply where
  nsparse _ _ _ h _ _ _ _ := h.isProduct
  ac m n _ h := ⟨rfl, (Csr.wf_mul h.left h.right h.inner).values_length, h.isProduct⟩
  speck m n _ h := ⟨rfl, (Csr.wf_mul h.left h.right h.inner).values_length, h.isProduct⟩
  kokkos m n x h := by
    show IsProduct m n ⟨x.rows, x.cols, (m.pattern.mul n.pattern).rowPtrs, _, _⟩
    rw [Csr.rowPtrs_mul_pattern]
    exact h.isProduct

theorem read_byRows (data : MatrixData V) :
    linearMap ((CsrRead.byRows V).read data).entries = linearMap data.nonzeros :=
  linearMap_perm (Csr.entries_ofEntries fun e he => (data.inRange e he).1)

end

/-! ## Linear maps -/

section
variable [CommSemiring V]

/-- What the entries of a `matrix_data` mean. -/
def MatrixData.sizedMap (data : MatrixData V) : SizedMap V :=
  ⟨data.numRows, data.numCols, linearMap data.nonzeros⟩

/-- What the program does with its matrices. -/
inductive Event (V : Type) where
  | read (op : Operator) (data : MatrixData V)
  | readCsr (o : ℕ) (data : MatrixData V)
  | apply (op : Operator) (b x : ℕ)

/-- An event on linear maps; there is none for an apply whose dimensions do not agree. -/
def Event.act (A : ℕ → SizedMap V) : Event V → Option (ℕ → SizedMap V)
  | .read op data => some (Function.update A op.csr data.sizedMap)
  | .readCsr o data => some (Function.update A o data.sizedMap)
  | .apply op b x =>
    if op.Conforms (A b).size (A x).size then
      some (Function.update A x ((A op.csr).comp (A b)))
    else none

/-- The maps after events, of which the impossible ones change nothing. -/
def actAll (A : ℕ → SizedMap V) (es : List (Event V)) : ℕ → SizedMap V :=
  es.foldl (fun A e => (e.act A).getD A) A

/-- An operator that is applied has the size of its matrix, and nothing is written into an operand
between two phases. -/
def Event.Fits (A : ℕ → SizedMap V) : Event V → Prop
  | .apply op b x => op.Conforms (A b).size (A x).size →
    op.size = (A op.csr).size ∧ (op.cls.TwoPhase → b ≠ x ∧ op.csr ≠ x)
  | _ => True

/-- Each event fits when its turn comes. -/
def AllFit (A : ℕ → SizedMap V) : List (Event V) → Prop
  | [] => True
  | e :: es => e.Fits A ∧ AllFit ((e.act A).getD A) es

end

/-! ## Runs -/

section
variable [Inhabited V]

/-- An event on the matrices in memory. Ginkgo throws `mismatch` if the dimensions of an apply do
not agree. -/
def Event.step (libs : Libraries V) (ginkgo : CsrRead V) (mismatch : Error) (s : Store V) :
    Event V → Except Error (Store V)
  | .read op data =>
    .ok (Function.update s op.csr (op.cls.read ginkgo data (op.wrapper s)).csr)
  | .readCsr o data => .ok (Function.update s o (ginkgo.read data))
  | .apply op b x =>
    if op.Conforms ((s b).numRows, (s b).numCols) ((s x).numRows, (s x).numCols) then
      .ok (op.applyImpl libs b x s)
    else .error mismatch

/-- The matrices after events, of which those that throw change nothing. -/
def runAll (libs : Libraries V) (ginkgo : CsrRead V) (mismatch : Error) (s : Store V)
    (es : List (Event V)) : Store V :=
  es.foldl (fun s e => (e.step libs ginkgo mismatch s).toOption.getD s) s

variable [CommSemiring V]

/-- The matrix `m` represents the map `f`. -/
structure Represents (m : Csr V) (f : SizedMap V) : Prop where
  wf : m.Wf
  numRows : m.numRows = f.rows
  numCols : m.numCols = f.cols
  map : linearMap m.entries = f.map

variable {libs : Libraries V} {ginkgo : CsrRead V} {mismatch : Error} {s : Store V}
  {A : ℕ → SizedMap V}

theorem represents_update (h : ∀ o, Represents (s o) (A o)) {x : ℕ} {m : Csr V} {f : SizedMap V}
    (hx : Represents m f) (o : ℕ) :
    Represents (Function.update s x m o) (Function.update A x f o) := by
  by_cases ho : o = x
  · subst ho
    rwa [Function.update_self, Function.update_self]
  · rw [Function.update_of_ne ho, Function.update_of_ne ho]
    exact h o

theorem represents_read (hread : ∀ data, linearMap (ginkgo.read data).entries =
    linearMap data.nonzeros) (data : MatrixData V) :
    Represents (ginkgo.read data) data.sizedMap :=
  ⟨ginkgo.wf data, ginkgo.numRows data, ginkgo.numCols data, hread data⟩

/-- One event throws if it is impossible, and otherwise does to the matrices what it does to their
maps. -/
theorem Event.step_represents (mismatch : Error) (hlibs : libs.Multiply)
    (hread : ∀ data, linearMap (ginkgo.read data).entries = linearMap data.nonzeros)
    (h : ∀ o, Represents (s o) (A o)) {e : Event V} (he : e.Fits A) :
    (e.act A = none → e.step libs ginkgo mismatch s = .error mismatch) ∧
    ∀ A', e.act A = some A' → ∃ s', e.step libs ginkgo mismatch s = .ok s' ∧
      ∀ o, Represents (s' o) (A' o) := by
  cases e with
  | read op data =>
    refine ⟨nofun, ?_⟩
    rintro _ ⟨⟩
    refine ⟨_, rfl, represents_update h ?_⟩
    rw [read_eq]
    exact represents_read hread data
  | readCsr o data =>
    refine ⟨nofun, ?_⟩
    rintro _ ⟨⟩
    exact ⟨_, rfl, represents_update h (represents_read hread data)⟩
  | apply op b x =>
    have hsize : ∀ o, ((s o).numRows, (s o).numCols) = (A o).size := fun o =>
      Prod.ext (h o).numRows (h o).numCols
    simp only [act, step, hsize]
    split
    · next hconforms =>
      obtain ⟨hop, hapart⟩ := he hconforms
      refine ⟨nofun, ?_⟩
      rintro _ ⟨⟩
      have hready : Ready op b x s := ⟨hop.trans (hsize _).symm, by rwa [hsize, hsize], hapart⟩
      obtain ⟨c, happly, hproduct⟩ := op.applyImpl_product hlibs (fun o => (h o).wf) hready
      refine ⟨_, rfl, ?_⟩
      rw [happly]
      refine represents_update h ⟨hproduct.wf, hproduct.numRows.trans (h _).numRows,
        hproduct.numCols.trans (h _).numCols, hproduct.map.trans ?_⟩
      exact congrArg₂ (· ∘ₗ ·) (h op.csr).map (h b).map
    · exact ⟨fun _ => rfl, nofun⟩

/-- Each matrix keeps representing its map. -/
theorem runAll_represents (hlibs : libs.Multiply)
    (hread : ∀ data, linearMap (ginkgo.read data).entries = linearMap data.nonzeros)
    (h : ∀ o, Represents (s o) (A o)) {es : List (Event V)} (hes : AllFit A es) (o : ℕ) :
    Represents (runAll libs ginkgo mismatch s es o) (actAll A es o) := by
  induction es generalizing s A with
  | nil => exact h o
  | cons e es ih =>
    obtain ⟨he, hes⟩ := hes
    obtain ⟨hnone, hsome⟩ := Event.step_represents mismatch hlibs hread h he
    refine ih ?_ hes
    intro o
    show Represents ((e.step libs ginkgo mismatch s).toOption.getD s o) ((e.act A).getD A o)
    cases hact : e.act A with
    | none =>
      rw [hnone hact]
      exact h o
    | some A' =>
      obtain ⟨s', hstep, hs'⟩ := hsome A' hact
      rw [hstep]
      exact hs' o

/-- After any reads and applies, each matrix represents what the same events make of the maps; and
an apply throws exactly if the dimensions of its maps do not agree. -/
theorem products_composed (hlibs : libs.Multiply)
    (hread : ∀ data, linearMap (ginkgo.read data).entries = linearMap data.nonzeros)
    (h : ∀ o, Represents (s o) (A o)) (es : List (Event V)) (hes : AllFit A es) :
    (∀ o, Represents (runAll libs ginkgo mismatch s es o) (actAll A es o)) ∧
    ∀ e : Event V, e.Fits (actAll A es) →
      (e.step libs ginkgo mismatch (runAll libs ginkgo mismatch s es) = .error mismatch ↔
        e.act (actAll A es) = none) := by
  have hrun : ∀ o, Represents (runAll libs ginkgo mismatch s es o) (actAll A es o) :=
    runAll_represents hlibs hread h hes
  refine ⟨hrun, ?_⟩
  intro e he
  obtain ⟨hnone, hsome⟩ := Event.step_represents mismatch hlibs hread hrun he
  constructor
  · intro herror
    cases hact : e.act (actAll A es) with
    | none => rfl
    | some A' =>
      obtain ⟨s', hstep, -⟩ := hsome A' hact
      rw [hstep] at herror
      cases herror
  · exact hnone

end

/-! ## Three numbers -/

/-- No object has read a matrix yet. -/
def unread : Store ℤ := fun _ => ⟨0, 0, [0], [], []⟩

/-- An operator around the matrix 0, and one around the matrix 1. -/
def double : Operator := ⟨.nsparse, (1, 1), 0⟩
def triple : Operator := ⟨.ac, (1, 1), 1⟩

/-- The products of 2 with 5, and of 3 with the result, which is overwritten. -/
def events : List (Event ℤ) :=
  [.read double (oneByOne 2), .read triple (oneByOne 3), .readCsr 2 (oneByOne 5),
    .readCsr 3 (oneByOne 0), .apply double 2 3, .apply triple 3 3]

/-- The matrix 4 has not been read, so that it cannot be an operand. -/
theorem products_composed_thirty :
    (∀ o, Represents
      (runAll (.exact ℤ) (.byRows ℤ) (.dimensionMismatch "apply") unread events o)
      (actAll (fun _ => ⟨0, 0, 0⟩) events o)) ∧
    (Event.apply double 4 3).step (.exact ℤ) (.byRows ℤ) (.dimensionMismatch "apply")
      (runAll (.exact ℤ) (.byRows ℤ) (.dimensionMismatch "apply") unread events) =
        .error (.dimensionMismatch "apply") := by
  have hempty : (Csr.ofEntries 0 0 [] : Csr ℤ).Wf := Csr.wf_ofEntries (by simp)
  have hunread : ∀ o, Represents (unread o) ⟨0, 0, 0⟩ := fun _ => ⟨hempty, rfl, rfl, rfl⟩
  have hes : AllFit (fun _ => ⟨0, 0, 0⟩) events :=
    ⟨trivial, trivial, trivial, trivial, fun _ => ⟨rfl, fun _ => ⟨by decide, by decide⟩⟩,
      fun _ => ⟨rfl, nofun⟩, trivial⟩
  obtain ⟨hrun, hstep⟩ := products_composed exact_multiply read_byRows hunread events hes
  refine ⟨hrun, (hstep (.apply double 4 3) ?_).mpr ?_⟩
  · intro hconforms
    cases hconforms.1
  · rfl

end GinkgoTpl.Spgemm
