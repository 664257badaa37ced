import GinkgoTpl.Ginkgo.Read
import GinkgoTpl.Hypre.ImportReturns

/-!
# The imported matrix meets hypre's format

For a matrix read with one ordered partition for rows and columns, the import yields what hypre's
ParCSR format asks for, and hypre's product with the two blocks is the product with the matrix:
`import_format`.
-/

namespace GinkgoTpl.Hypre

open Sparse Memory Ginkgo Spmd

variable {P : ℕ} {V : Type} [Inhabited V] [Semiring V] {build : Build}

/-- The imported matrix of one rank is in hypre's format, and hypre's product with it is the
product with the matrix with the given entries on the rank's rows. -/
structure HypreFormat (entries : List (Entry V)) (before : Heap (Buffer V)) (result : ParCsr)
    (heap : Heap (Buffer V)) : Prop where
  colMap_increasing : (result.colMap heap).Pairwise (· < ·)
  colMap_other : ∀ c ∈ result.colMap heap,
    c < result.rowStart ∨ result.rowStart + result.numLocalRows ≤ c
  offd_cols : ∀ j ∈ (result.offdBlock heap).colIdxs, 0 ≤ j ∧ j < (result.colMap heap).length
  product : ∀ (x : ℤ → V) (i : ℕ), i < result.numLocalRows →
    result.rowProduct heap x i = rowOfProduct entries x (result.rowStart + i).toNat
  /-- No array that was in memory before has been written or freed. -/
  unchanged : before.Keeps heap

section
variable {M : DistMatrix P V} {r : Fin P} {before : Heap (Buffer V)} {result : ParCsr}
  {heap : Heap (Buffer V)}

/-- hypre's product on a rank is the product with the rank's entries in local rows and global
columns. -/
theorem RankContents.rowProduct (h : RankContents M r before result heap)
    (hord : M.rowPart.hasOrderedParts) (hcol : M.colPart = M.rowPart) (x : ℤ → V) {i : ℕ}
    (hi : i < M.rowPart.partSize r) : result.rowProduct heap x i =
      Csr.sumRow ((rowsOf M.entries M.rowPart r).map (·.localize M.rowPart)) x i := by
  have hread := M.read r
  have hpart := hread.imap_partition.trans hcol
  have hdiag : ((M.rank r).diag.csr.entries.map fun e => (e.1, result.rowStart + e.2.1, e.2.2)) =
      (M.rank r).diag.csr.entries.map ((M.rank r).globalize .«local») := by
    refine List.map_congr_left fun e he => ?_
    obtain ⟨-, h0, hlt⟩ := hread.diag_wf.entries_range he
    rw [hread.diag_cols, hcol] at hlt
    have := IndexMap.globalOf_local
      (hpart ▸ hord : (M.rank r).imap.partition.hasOrderedParts) h0
      (by rw [hpart, hread.imap_rank]; exact hlt)
    rw [hpart, hread.imap_rank] at this
    rw [LocalMatrix.globalize, this, h.rowStart]
  have hoffd : ((M.rank r).offDiag.csr.entries.map
      fun e => (e.1, result.offdCol heap e.2.1, e.2.2)) =
      (M.rank r).offDiag.csr.entries.map ((M.rank r).globalize .nonLocal) := by
    refine List.map_congr_left fun e he => ?_
    obtain ⟨-, h0, hlt⟩ := hread.offDiag_wf.entries_range he
    rw [hread.offDiag_cols] at hlt
    rw [LocalMatrix.globalize, h.offdCol h0 hlt]
  have hidiag : i < (M.rank r).diag.csr.numRows := hread.diag_rows ▸ hi
  have hioffd : i < (M.rank r).offDiag.csr.numRows := hread.offDiag_rows ▸ hi
  rw [ParCsr.rowProduct, h.diag.rowDot hidiag, h.offd, Csr.rowDot_comp hidiag,
    Csr.rowDot_comp hioffd, hdiag, hoffd, ← Csr.sumRow_append]
  exact Csr.sumRow_perm (M.globalize_perm r) x i

theorem RankContents.format (h : RankContents M r before result heap)
    (hord : M.rowPart.hasOrderedParts) (hcol : M.colPart = M.rowPart) :
    HypreFormat M.entries before result heap where
  colMap_increasing := by
    rw [h.colMap, List.pairwise_map]
    refine (IndexMap.remote_increasing ?_).imp fun hlt => Int.ofNat_lt.mpr hlt
    rw [(M.read r).imap_partition, hcol]
    exact hord
  colMap_other c hc := by
    rw [h.colMap] at hc
    obtain ⟨g, hg, rfl⟩ := List.mem_map.mp hc
    have hlt := (M.rank r).imap.remote_lt g hg
    have ho := (M.rank r).imap.remote_owner g hg
    rw [(M.read r).imap_partition, hcol] at hlt ho
    rw [(M.read r).imap_rank] at ho
    have := mt (M.rowPart.owner_eq_iff hord hlt r).mpr ho
    rw [h.rowStart, h.numLocalRows]
    omega
  offd_cols j hj := by
    rw [h.offd] at hj
    have := (M.read r).offDiag_wf.col_range j hj
    rw [(M.read r).offDiag_cols] at this
    rw [h.colMap, List.length_map]
    exact this
  product x i hi := by
    rw [h.numLocalRows] at hi
    have hi : i < M.rowPart.partSize r := by omega
    rw [h.rowProduct hord hcol x hi, M.sumRow_localize hord r x hi, h.rowStart]
    rfl
  unchanged := h.keeps

end

theorem SerialContents.format {S : SerialMatrix V} {before heap : Heap (Buffer V)}
    {result : ParCsr} (h : SerialContents S before result heap) :
    HypreFormat S.entries before result heap where
  colMap_increasing := by simp [h.colMap]
  colMap_other := by simp [h.colMap]
  offd_cols := by simp [h.offd_cols]
  product x i hi := by
    rw [h.numLocalRows] at hi
    have hi : i < S.csr.numRows := by rw [S.rows]; omega
    have hoffd : (result.offdBlock heap).rowDot (fun j => x (result.offdCol heap j)) i = 0 := by
      simp [Csr.rowDot, h.offd]
    rw [ParCsr.rowProduct, hoffd, add_zero, h.diag.rowDot hi, Csr.rowDot_comp hi,
      Csr.sumRow_perm (S.read.map _)]
    simp [Csr.sumRow, rowOfProduct, h.rowStart, List.filter_map, Function.comp_def]
  unchanged := h.keeps

/-! ## The imports -/

/-- If the imports return and all sizes fit into hypre's integers, the ranges of rows tile the
matrix, every rank has its part in hypre's format, and Ginkgo's arrays are as before; a serial
matrix is one part with an empty off-diagonal block. -/
theorem import_format (A : Type) (build : Build) (location : MemoryLocation) (M : DistMatrix P V)
    (S : SerialMatrix V) :
    (∀ (lib : Fin P → Lib V) (mem : (r : Fin P) → RankMemory (M.rank r))
      (policy : Fin P → PolicyState) (out : Fin P → ParCsr × PolicyState × Heap (Buffer V)),
      M.colPart = M.rowPart → (∀ r, LocalFits build (M.rank r)) →
      Returns (fun r => buildDistributedParCsr (A := A) build (lib r) location (M.rank r) (mem r)
        (policy r)) out →
      M.rowPart.Tiles (fun r => (out r).1.rowStart) (fun r => (out r).1.numLocalRows) ∧
        ∀ r, HypreFormat M.entries (mem r).heap (out r).1 (out r).2.2) ∧
    (∀ (lib : Lib V) (mem : SerialMemory S.csr) (policy : PolicyState) (name : String)
      (isCsr : Bool) (out : ParCsr × PolicyState × Heap (Buffer V)),
      IntFits build.intBits S.n → IntFits build.intBits S.csr.values.length →
      buildSerialParCsr build lib location ⟨name, isCsr, S.csr⟩ mem policy = .ok out →
      (Ginkgo.Partition.single S.n).Tiles (fun _ => out.1.rowStart) (fun _ => out.1.numLocalRows) ∧
        (∀ i, (out.1.offdBlock out.2.2).row i = []) ∧
        HypreFormat S.entries mem.heap out.1 out.2.2) := by
  constructor
  · intro lib mem policy out hcol hfits ⟨Rs, as, h⟩
    have hc := buildDistributedParCsr_contents h fun r => (hfits r).representable (localWf_rank M r)
    have hord := Ginkgo.Partition.hasOrderedParts_of_rank fun r => (hc r).1
    refine ⟨?_, fun r => (hc r).2.format hord hcol⟩
    rw [show (fun r => (out r).1.rowStart) = _ from funext fun r => (hc r).2.rowStart,
      show (fun r => (out r).1.numLocalRows) = _ from funext fun r => (hc r).2.numLocalRows]
    exact Ginkgo.Partition.tiles hord
  · intro lib mem policy name isCsr out hn hnnz h
    have hc := buildSerialParCsr_contents hn hnnz h
    refine ⟨?_, hc.offd, hc.format⟩
    have htiles := Ginkgo.Partition.tiles (Ginkgo.Partition.single_ordered S.n)
    rw [hc.rowStart, hc.numLocalRows]
    convert htiles using 2 with r r
    · rw [Fin.fin_one_eq_zero r]; simp
    · rw [Fin.fin_one_eq_zero r]; simp

/-- Three rows on two ranks, with an entry of each rank in a column of the other, and the same
matrix on one rank. -/
theorem import_format_two : ∃ (M : DistMatrix 2 ℤ) (S : SerialMatrix ℤ),
    M.entries.length = 5 ∧ S.entries = M.entries ∧
    (∃ out, Returns (fun r => buildDistributedParCsr (A := Unit) .host (.documented ℤ) .host
        (M.rank r) (.new _) ⟨none, .host, .host⟩) out ∧
      M.rowPart.Tiles (fun r => (out r).1.rowStart) (fun r => (out r).1.numLocalRows) ∧
      ∀ r, HypreFormat M.entries (RankMemory.new (M.rank r)).heap (out r).1 (out r).2.2) ∧
    ∃ out, buildSerialParCsr .host (.documented ℤ) .host ⟨csrName, true, S.csr⟩ (.new _)
        ⟨none, .host, .host⟩ = .ok out ∧
      HypreFormat S.entries (SerialMemory.new S.csr).heap out.1 out.2.2 := by
  let p : Ginkgo.Partition 2 := ⟨3, fun g => if g = 0 then 0 else 1, by decide⟩
  let entries : List (Entry ℤ) := [⟨0, 0, 5⟩, ⟨0, 2, 7⟩, ⟨1, 2, 4⟩, ⟨1, 1, 3⟩, ⟨1, 0, 6⟩]
  let M : DistMatrix 2 ℤ := .ofEntries p p rfl entries (by decide)
  let S : SerialMatrix ℤ := .ofEntries 3 entries (by decide)
  have hfits : ∀ r, LocalFits .host (M.rank r) := by decide
  have hchecks : ∀ r, PassesChecks .host M r := by decide
  obtain ⟨out, hout⟩ := buildDistributedParCsr_returns Unit (fun r => .new (M.rank r))
    (fun _ => ⟨none, .host, .host⟩) (fun _ => Lib.documented_succeeds) hchecks
    (fun _ => by decide) hfits (by decide)
  obtain ⟨serial, hserial⟩ := buildSerialParCsr_documented .host csrName S.wf (by decide)
    (by decide)
  obtain ⟨hdist, hone⟩ := import_format Unit .host .host M S
  exact ⟨M, S, rfl, rfl, ⟨out, hout, hdist _ _ _ out rfl hfits hout⟩, serial, hserial,
    (hone _ _ _ _ _ serial (by decide) (by decide) hserial).2.2⟩

end GinkgoTpl.Hypre
