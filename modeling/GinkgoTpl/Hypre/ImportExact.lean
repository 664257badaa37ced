import GinkgoTpl.Ginkgo.Read
import GinkgoTpl.Hypre.ImportReturns

/-!
# Integers that survive the import

`to_hypre_big_int` checks its argument, but the sizes and, where the index types differ, the index
arrays go to hypre through `static_cast<HYPRE_Int>`. `import_exact_iff`: in every import that
returns, hypre is given exactly Ginkgo's integers if and only if the sizes, and the converted
columns of the diagonal block, are values of `HYPRE_Int`.
-/

namespace GinkgoTpl.Hypre

open Sparse Memory Ginkgo Spmd

variable {P : ℕ} {A V : Type} [Inhabited V] {build : Build}

/-! ## What hypre holds -/

/-- The ranges of rows that hypre holds are Ginkgo's. -/
structure RowsExact (numRows : ℕ) (first : ℤ) (n : ℕ) (result : ParCsr) (matrix : ParCsrMatrix) :
    Prop where
  numLocalRows : result.numLocalRows = numRows
  rowStart : result.rowStart = first
  globalRows : result.globalRows = n
  matrix_globalRows : matrix.globalRows = n
  rowStarts : matrix.rowStarts = (first, first + numRows)

/-- The number of entries, the row pointers and the columns of a block are Ginkgo's; the entries
may have been permuted within their rows. -/
structure BlockExact (c : Csr V) (block : HypreCsr) (heap : Heap (Buffer V)) : Prop where
  numNonzeros : block.numNonzeros = c.values.length
  rowPtrs : (block.view heap).rowPtrs = c.rowPtrs
  row : c.RowPerm (block.view heap)

/-- Every integer that hypre holds of a rank's part, whose first row is `first`, is Ginkgo's. -/
structure RankExact (L : LocalMatrix P V) (first : ℤ) (result : ParCsr) (heap : Heap (Buffer V)) :
    Prop where
  matrix : ∃ matrix, result.matrix = some matrix ∧
    RowsExact L.diag.csr.numRows first L.size.1 result matrix ∧
    BlockExact L.diag.csr matrix.diag heap ∧ BlockExact L.offDiag.csr matrix.offd heap ∧
    matrix.offd.numCols = L.imap.remote.length
  offd_colIdxs : (result.offdBlock heap).colIdxs = L.offDiag.csr.colIdxs
  colMap : result.colMap heap = L.imap.remote.map (↑)

/-- Every integer that hypre holds of a serial matrix is Ginkgo's. -/
structure SerialExact (c : Csr V) (result : ParCsr) (heap : Heap (Buffer V)) : Prop where
  matrix : ∃ matrix, result.matrix = some matrix ∧
    RowsExact c.numRows 0 c.numRows result matrix ∧ BlockExact c matrix.diag heap ∧
    matrix.offd.numNonzeros = 0 ∧ matrix.offd.numCols = 0
  offd_colIdxs : (result.offdBlock heap).colIdxs = []
  colMap : result.colMap heap = []

/-! ## Columns that survive the conversion -/

section
variable {c d : Csr V}

/-- If hypre holds Ginkgo's columns in every row, no column has been truncated. -/
theorem columnsFit_of_rowPerm (hc : c.RowWf) (hd : (build.seen c).RowPerm d) (h : c.RowPerm d) :
    ColumnsFit build c := by
  by_cases hsame : build.sameInt
  · exact .inl hsame
  refine .inr fun j hj => ?_
  obtain ⟨k, hk, rfl⟩ := List.mem_iff_getElem.mp hj
  obtain ⟨i, hi, hspan⟩ := hc.exists_span hk
  have hmem : c.entryAt k ∈ (build.seen c).row i :=
    ((h.row i hi).symm.trans (hd.row i hi)).mem_iff.mp (List.mem_map_of_mem hspan)
  obtain ⟨k', hspan', hentry⟩ := List.mem_map.mp hmem
  have hk' : k' < c.colIdxs.length := hc.span_lt hi hspan'
  have hcol := congrArg Prod.fst hentry
  simp only [Csr.entryAt, Build.seen, Build.asInts, if_neg hsame, List.getD_eq_getElem?_getD,
    List.getElem?_map, List.getElem?_eq_getElem hk, List.getElem?_eq_getElem hk', Option.map_some,
    Option.getD_some] at hcol
  exact hcol ▸ intFits_castInt build.intBits_pos _

end

/-! ## Distributed matrices -/

section
variable {L : LocalMatrix P V}

variable {mem : RankMemory L} {lib : Lib V} {location : MemoryLocation} {rowEnd : ℤ}
  {result out : ParCsr} {matrix : ParCsrMatrix} {heap : Heap (Buffer V)} {pkg : Bool}

/-- Sizes that hypre holds exactly are values of `HYPRE_Int`. -/
theorem sizesFit_of_exact (hsizes : LocalSizes build L (beforeScan build location L mem L.size.1)
      rowEnd (result, matrix, heap))
    (hout : out = { result with matrix := some { matrix with hasCommPkg := pkg } })
    (h : RankExact L (rowEnd - L.diag.csr.numRows) out heap) : SizesFit build L := by
  obtain ⟨_, hmatrix, hrows, hdiag, hoffd, hcols⟩ := h.matrix
  subst hout
  cases hmatrix
  have hpos := build.intBits_pos
  refine ⟨(castInt_eq_iff hpos).mp ?_, (castInt_eq_iff hpos).mp ?_, (castInt_eq_iff hpos).mp ?_,
    (castInt_eq_iff hpos).mp ?_⟩
  · exact hsizes.numLocalRows.symm.trans hrows.numLocalRows
  · exact hsizes.diagNnz.symm.trans hdiag.numNonzeros
  · exact hsizes.offdCols.symm.trans hcols
  · exact hsizes.offdNnz.symm.trans hoffd.numNonzeros

theorem localParCsr_exact_iff (hwf : LocalWf L)
    (hlocal : localParCsr build lib L mem (beforeScan build location L mem L.size.1) rowEnd =
      .ok (result, matrix, heap))
    (hout : out = { result with matrix := some { matrix with hasCommPkg := pkg } }) :
    RankExact L (rowEnd - L.diag.csr.numRows) out heap ↔ RankRepresentable build L := by
  have hsizes := localParCsr_sizes hlocal
  constructor
  · intro h
    have hfits := sizesFit_of_exact hsizes hout h
    have hc := localParCsr_contents hwf hfits hlocal
    obtain ⟨_, hmatrix, -, hdiag, -⟩ := h.matrix
    subst hout
    cases hmatrix
    exact ⟨hfits, columnsFit_of_rowPerm hwf.diag.toRowWf hc.diag hdiag.row⟩
  · intro h
    have hc := localParCsr_contents hwf h.toSizesFit hlocal
    obtain ⟨a, ha, hread⟩ := hc.colMap
    have hpos := build.intBits_pos
    have hoffd : BlockExact L.offDiag.csr matrix.offd heap :=
      ⟨hsizes.offdNnz.trans (h.offdNnz.castInt hpos), congrArg Csr.rowPtrs hc.offd,
        hc.offd.symm ▸ .refl _⟩
    subst hout
    refine ⟨⟨_, rfl, ⟨?_, hsizes.rowStart, hsizes.globalRows, hsizes.matrix_globalRows, ?_⟩,
      ⟨?_, hc.diag_rowPtrs, ?_⟩, hoffd, hsizes.offdCols.trans (h.offdCols.castInt hpos)⟩,
      congrArg Csr.colIdxs hc.offd, ?_⟩
    · exact hsizes.numLocalRows.trans (h.rows.castInt hpos)
    · rw [Int.sub_add_cancel]
      exact hsizes.rowStarts
    · exact hsizes.diagNnz.trans (h.diagNnz.castInt hpos)
    · have := hc.diag
      rwa [h.cols.seen_eq] at this
    · have ha : matrix.colMapOffd = some a := ha
      simp only [ParCsr.colMap, Option.bind_some, ha, Option.elim_some]
      exact ints_eq hread

end

/-! ## Serial matrices -/

theorem buildSerialParCsr_exact_iff {c : Csr V} {mem : SerialMemory c} {lib : Lib V}
    {location : MemoryLocation} {name : String} {isCsr : Bool} {policy : PolicyState}
    {out : ParCsr × PolicyState × Heap (Buffer V)} (hc : c.RowWf)
    (h : buildSerialParCsr build lib location ⟨name, isCsr, c⟩ mem policy = .ok out) :
    SerialExact c out.1 out.2.2 ↔ CsrRepresentable build c := by
  obtain ⟨matrix, hsizes⟩ := buildSerialParCsr_sizes h
  have hpos := build.intBits_pos
  have hdiagBlock : out.1.diagBlock out.2.2 = matrix.diag.view out.2.2 := by
    simp only [ParCsr.diagBlock, hsizes.matrix_eq]
  constructor
  · intro hexact
    obtain ⟨_, hmatrix, hrows, hdiag, -⟩ := hexact.matrix
    cases hsizes.matrix_eq.symm.trans hmatrix
    have hnnz : IntFits build.intBits c.values.length :=
      (castInt_eq_iff hpos).mp (hsizes.diagNnz.symm.trans hdiag.numNonzeros)
    have hstored := buildSerialParCsr_stored hc hnnz h
    refine ⟨(castInt_eq_iff hpos).mp (hsizes.numLocalRows.symm.trans hrows.numLocalRows), hnnz,
      columnsFit_of_rowPerm hc (hdiagBlock ▸ hstored.diag) hdiag.row⟩
  · intro hrep
    have hstored := buildSerialParCsr_stored hc hrep.nnz h
    have hdiag := hstored.diag
    rw [hdiagBlock, hrep.cols.seen_eq] at hdiag
    refine ⟨⟨matrix, hsizes.matrix_eq, ⟨hsizes.numLocalRows.trans (hrep.rows.castInt hpos),
      hsizes.rowStart, hsizes.globalRows, hsizes.matrix_globalRows, ?_⟩,
      ⟨hsizes.diagNnz.trans (hrep.nnz.castInt hpos), hdiagBlock ▸ hstored.diag_rowPtrs, hdiag⟩,
      hsizes.offdNnz, hsizes.offdCols⟩, hstored.offd_cols, hstored.colMap⟩
    rw [Int.zero_add]
    exact hsizes.rowStarts

/-! ## The imports -/

/-- In every import that returns, on every rank, hypre holds exactly Ginkgo's integers if and only
if the sizes of the rank's blocks fit into `HYPRE_Int`, and so do the columns of its diagonal block
where they are converted. A rank with a negative size of an array does not return. The parts need
not belong to a square matrix. -/
theorem import_exact_iff (A : Type) (build : Build) (location : MemoryLocation) :
    (∀ (P : ℕ) (L : Fin P → LocalMatrix P V) (lib : Fin P → Lib V)
      (mem : (r : Fin P) → RankMemory (L r)) (policy : Fin P → PolicyState)
      (out : Fin P → ParCsr × PolicyState × Heap (Buffer V)), (∀ r, LocalWf (L r)) →
      Returns (fun r => buildDistributedParCsr (A := A) build (lib r) location (L r) (mem r)
        (policy r)) out →
      ∀ r, ArraysAllocate build (L r) ∧
        (RankExact (L r) (MpiOp.sumBefore (fun s => ((L s).diag.csr.numRows : ℤ)) r)
          (out r).1 (out r).2.2 ↔ RankRepresentable build (L r))) ∧
    (∀ (c : Csr V) (lib : Lib V) (mem : SerialMemory c) (policy : PolicyState) (name : String)
      (isCsr : Bool) (out : ParCsr × PolicyState × Heap (Buffer V)), c.Wf →
      buildSerialParCsr build lib location ⟨name, isCsr, c⟩ mem policy = .ok out →
      (SerialExact c out.1 out.2.2 ↔ CsrRepresentable build c)) := by
  constructor
  · intro P L lib mem policy out hwf ⟨Rs, as, h⟩ r
    obtain ⟨-, result, matrix, pkg, hlocal, hout⟩ := buildDistributedParCsr_parts h r
    have hiff := localParCsr_exact_iff (hwf r) hlocal hout
    rw [MpiOp.scanSum_eq, Int.add_sub_cancel] at hiff
    exact ⟨localParCsr_allocates hlocal, hiff⟩
  · intro c lib mem policy name isCsr out hc h
    exact buildSerialParCsr_exact_iff hc.toRowWf h

/-- Three rows on two ranks, and the same matrix on one rank: all integers fit. -/
theorem import_exact_iff_two : ∃ (M : DistMatrix 2 ℤ) (c : Csr ℤ),
    M.entries.length = 5 ∧ c.values.length = 5 ∧
    (∃ out, Returns (fun r => buildDistributedParCsr (A := Unit) .host (.documented ℤ) .host
        (M.rank r) (.new _) ⟨none, .host, .host⟩) out ∧
      ∀ r, RankExact (M.rank r)
        (MpiOp.sumBefore (fun s => ((M.rank s).diag.csr.numRows : ℤ)) r) (out r).1 (out r).2.2) ∧
    ∃ out, buildSerialParCsr .host (.documented ℤ) .host ⟨csrName, true, c⟩ (.new c)
        ⟨none, .host, .host⟩ = .ok out ∧
      SerialExact c out.1 out.2.2 := by
  let p : Ginkgo.Partition 2 := ⟨3, fun g => if g = 0 then 0 else 1, by decide⟩
  let entries : List (Entry ℤ) := [⟨0, 0, 5⟩, ⟨0, 2, 7⟩, ⟨1, 2, 4⟩, ⟨1, 1, 3⟩, ⟨1, 0, 6⟩]
  let M : DistMatrix 2 ℤ := .ofEntries p p rfl entries (by decide)
  let c : Csr ℤ := .ofEntries 3 3 (entries.map fun e => (e.row, (e.col : ℤ), e.value))
  have hc : c.Wf := Csr.wf_ofEntries (by decide)
  have hfits : ∀ r, LocalFits .host (M.rank r) := by decide
  have hchecks : ∀ r, PassesChecks .host M r := by decide
  obtain ⟨out, hout⟩ := buildDistributedParCsr_returns Unit (fun r => .new (M.rank r))
    (fun _ => ⟨none, .host, .host⟩) (fun _ => Lib.documented_succeeds) hchecks
    (fun _ => by decide) hfits (by decide)
  obtain ⟨serial, hserial⟩ := buildSerialParCsr_documented .host csrName hc (by decide)
    (by decide)
  obtain ⟨hdist, hone⟩ := import_exact_iff (V := ℤ) Unit .host .host
  exact ⟨M, c, rfl, rfl,
    ⟨out, hout, fun r => (hdist 2 M.rank _ _ _ out (localWf_rank M) hout r).2.mpr
      ⟨(hfits r).sizes, .inl rfl⟩⟩,
    serial, hserial, (hone c _ _ _ _ _ serial hc hserial).mpr ⟨by decide, by decide, .inl rfl⟩⟩

/-! ## One row with many entries -/

/-- 64-bit local indices, and a hypre with 32-bit integers. -/
def Build.wide : Build :=
  { Build.host with localBits := 64, sameInt := false, sameInt_bits := fun h => nomatch h }

/-- One row in which the diagonal entry is stored `n` times. -/
def repeatedDiagonal (n : ℕ) : Csr ℤ where
  numRows := 1
  numCols := 1
  rowPtrs := [0, n]
  colIdxs := List.replicate n 0
  values := List.replicate n 5

theorem wf_repeatedDiagonal (n : ℕ) : (repeatedDiagonal n).Wf where
  rowPtrs_length := rfl
  rowPtr_zero := rfl
  rowPtr_mono i hi := by
    cases (by simpa [repeatedDiagonal] using hi : i = 0)
    simp [Csr.rowPtr, repeatedDiagonal]
  rowPtr_last := by simp [Csr.rowPtr, repeatedDiagonal]
  values_length := by simp [repeatedDiagonal]
  col_range j hj := by
    rw [List.eq_of_mem_replicate hj]
    exact ⟨le_rfl, Int.zero_lt_one⟩

/-- If the number of entries becomes negative, hypre sees an empty row. -/
theorem row_handed_repeatedDiagonal {n : ℕ} (h : castInt Build.wide.intBits n ≤ 0) :
    (Build.wide.handed (repeatedDiagonal n)).row 0 = [] := by
  have hptrs : (Build.wide.handed (repeatedDiagonal n)).rowPtrs =
      [castInt Build.wide.intBits 0, castInt Build.wide.intBits n] := rfl
  have hzero : castInt Build.wide.intBits 0 = 0 := by simp [castInt]
  rw [Csr.row, Csr.span, Csr.rowPtr, Csr.rowPtr, hptrs, List.getD_cons_succ, List.getD_cons_zero,
    List.getD_cons_zero, hzero, Int.sub_zero, Int.toNat_of_nonpos h]
  rfl

/-- hypre accepts the empty row. -/
theorem repeatedDiagonal_returns {n : ℕ} (h : castInt Build.wide.intBits n ≤ 0) :
    ∃ out, buildSerialParCsr .wide (.documented ℤ) .host ⟨csrName, true, repeatedDiagonal n⟩
      (.new _) ⟨none, .host, .host⟩ = .ok out := by
  have hone : IntFits Build.wide.bigBits ((1 : ℕ) : ℤ) := by decide
  refine buildSerialParCsr_documented .wide csrName (wf_repeatedDiagonal n) hone fun i hi => ?_
  obtain ⟨hlt, hne⟩ := (Kernels.documented ℤ).mem_setRownnz.mp hi
  have hi : i = 0 := Nat.lt_one_iff.mp hlt
  subst hi
  exact absurd (row_handed_repeatedDiagonal h) hne

theorem length_repeatedDiagonal (n : ℕ) : (repeatedDiagonal n).values.length = n :=
  List.length_replicate

/-- hypre is told the converted number of entries, which is another one. -/
theorem repeatedDiagonal_truncated {n : ℕ} (h : castInt Build.wide.intBits n < 0) :
    ∃ out : ParCsr × PolicyState × Heap (Buffer ℤ),
      buildSerialParCsr .wide (.documented ℤ) .host ⟨csrName, true, repeatedDiagonal n⟩ (.new _)
        ⟨none, .host, .host⟩ = .ok out ∧
      (∃ matrix, out.1.matrix = some matrix ∧
        matrix.diag.numNonzeros = castInt Build.wide.intBits n) ∧
      ¬ SerialExact (repeatedDiagonal n) out.1 out.2.2 := by
  obtain ⟨out, hout⟩ := repeatedDiagonal_returns h.le
  obtain ⟨matrix, hsizes⟩ := buildSerialParCsr_sizes hout
  have hnnz := hsizes.diagNnz
  rw [length_repeatedDiagonal] at hnnz
  refine ⟨out, hout, ⟨matrix, hsizes.matrix_eq, hnnz⟩, fun hexact => ?_⟩
  obtain ⟨_, hmatrix, -, hdiag, -⟩ := hexact.matrix
  cases hsizes.matrix_eq.symm.trans hmatrix
  have hsame := hdiag.numNonzeros
  rw [hnnz, length_repeatedDiagonal] at hsame
  rw [hsame] at h
  omega

/-- With 2³¹ entries in one row, the import returns and hypre is told a negative number. -/
theorem import_truncates : ∃ (c : Csr ℤ) (out : ParCsr × PolicyState × Heap (Buffer ℤ)),
    c.Wf ∧ c.numRows = 1 ∧ c.values.length = 2 ^ 31 ∧
    buildSerialParCsr .wide (.documented ℤ) .host ⟨csrName, true, c⟩ (.new c)
      ⟨none, .host, .host⟩ = .ok out ∧
    (∃ matrix, out.1.matrix = some matrix ∧ matrix.diag.numNonzeros = -2 ^ 31) ∧
    ¬ SerialExact c out.1 out.2.2 := by
  have hcast : castInt Build.wide.intBits (2 ^ 31 : ℕ) = -2 ^ 31 := by decide
  obtain ⟨out, hout, ⟨matrix, hmatrix, hnnz⟩, hnot⟩ :=
    repeatedDiagonal_truncated (n := 2 ^ 31) (hcast ▸ by decide)
  exact ⟨repeatedDiagonal (2 ^ 31), out, wf_repeatedDiagonal _, rfl, length_repeatedDiagonal _,
    hout, ⟨matrix, hmatrix, hnnz.trans hcast⟩, hnot⟩

end GinkgoTpl.Hypre
