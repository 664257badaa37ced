import GinkgoTpl.Hypre.ImportContents

/-!
# When the hypre import returns

The rounds of `build_distributed_par_csr`, forwards: what a rank checks before the scan, the scan,
the local part, and the two collective calls after it. On a host executor with hypre calls that
succeed the local part fails exactly if an array has a negative converted size, so that it cannot be
allocated, or a non-empty row of the diagonal block stores no diagonal.
-/

namespace GinkgoTpl.Hypre

open Sparse Memory Ginkgo Spmd

variable {P : ℕ} {A V : Type} [Inhabited V] {build : Build}

/-! ## The policy of the process -/

namespace Lib

variable {lib : Lib V} {s : PolicyState}

/-- On the host, `set_process_policy` fails exactly if another location is remembered, and then
remembers the host. -/
theorem Succeeds.setProcessPolicy_host (build : Build) (h : lib.Succeeds)
    (hs : ¬ s.Conflicts .host) :
    ∃ s', lib.setProcessPolicy build .host s = .ok s' ∧ s'.active = some .host := by
  have hgpu : ¬ (MemoryLocation.host = .device ∧ !build.gpu) := fun h => nomatch h.1
  simp only [Lib.setProcessPolicy, Hypre.setProcessPolicy, if_neg hs, if_neg hgpu,
    h.memory .host, h.execution .host, assertNoHypreErrors_zero]
  cases hactive : s.active with
  | none => exact ⟨_, rfl, rfl⟩
  | some active =>
    refine ⟨s, rfl, hactive.trans (congrArg some ?_)⟩
    by_contra hne
    exact hs ⟨active, hactive, hne⟩

theorem setProcessPolicy_of_conflict {location : MemoryLocation} (hs : s.Conflicts location) :
    lib.setProcessPolicy build location s = .error conflictError := by
  simp only [Lib.setProcessPolicy, Hypre.setProcessPolicy_of_conflict hs]

theorem not_conflicts_of_active {location : MemoryLocation} (hs : s.active = some location) :
    ¬ s.Conflicts location := by
  rintro ⟨active, hactive, hne⟩
  rw [hs] at hactive
  exact hne (Option.some.inj hactive).symm

end Lib

/-! ## The local part -/

section
variable {L : LocalMatrix P V} {mem : RankMemory L} {lib : Lib V} {result : ParCsr} {rowEnd : ℤ}

/-- The copies of the blocks can be allocated: their converted sizes are not negative. -/
structure BlocksAllocate (build : Build) (L : LocalMatrix P V) : Prop where
  diagNnz : 0 ≤ castInt build.intBits L.diag.csr.values.length
  offdNnz : build.sameInt ∨ 0 ≤ castInt build.intBits L.offDiag.csr.values.length

/-- All arrays of the import can be allocated, also the one for the remote columns. -/
structure ArraysAllocate (build : Build) (L : LocalMatrix P V) : Prop
    extends BlocksAllocate build L where
  offdCols : 0 ≤ castInt build.intBits L.imap.remote.length

/-- What a rank checks after the scan: its arrays can be allocated, and every non-empty row of its
diagonal block stores its diagonal. -/
structure PassesLocal (build : Build) (L : LocalMatrix P V) : Prop
    extends ArraysAllocate build L where
  diagonals : DiagonalsStored L.diag.csr

/-- `hypre_CSRMatrixReorder`, which runs if the copies of the blocks can be allocated, fails on this
rank exactly if some non-empty row of the rank's diagonal block stores no diagonal. -/
def ReorderReports (build : Build) (lib : Lib V) (mem : RankMemory L) (result : ParCsr)
    (rowEnd : ℤ) : Prop :=
  let (matrix, blocks) := setBlocks build L mem result (rowEnd - L.diag.csr.numRows) rowEnd
  let diag := setRownnz lib matrix.diag blocks.offdCols.heap
  BlocksAllocate build L →
    ((lib.kernels.reorder diag.rownnz (diag.view blocks.offdCols.heap)).2 = 0 ↔
      DiagonalsStored L.diag.csr)

omit [Inhabited V] in
/-- Sizes that fit stay what they are. -/
theorem SizesFit.arraysAllocate (h : SizesFit build L) : ArraysAllocate build L where
  diagNnz := (h.diagNnz.castInt build.intBits_pos).symm ▸ Int.natCast_nonneg _
  offdNnz := .inr ((h.offdNnz.castInt build.intBits_pos).symm ▸ Int.natCast_nonneg _)
  offdCols := (h.offdCols.castInt build.intBits_pos).symm ▸ Int.natCast_nonneg _

theorem LocalFits.passesLocal (h : LocalFits build L) (hdiag : DiagonalsStored L.diag.csr) :
    PassesLocal build L := ⟨h.sizes.arraysAllocate, hdiag⟩

theorem LocalFits.passesLocal_iff (h : LocalFits build L) :
    PassesLocal build L ↔ DiagonalsStored L.diag.csr :=
  ⟨fun hpasses => hpasses.diagonals, h.passesLocal⟩

/-- hypre's routines report this of every block whose sizes fit. -/
theorem reorderReports_of_fits (hwf : LocalWf L) (hfits : LocalFits build L) :
    ReorderReports build lib mem result rowEnd := by
  have hB := setBlocks_holdsDiag mem hwf hfits.diagNnz result (rowEnd - L.diag.csr.numRows) rowEnd
  unfold ReorderReports
  rcases hset : setBlocks build L mem result (rowEnd - L.diag.csr.numRows) rowEnd with ⟨matrix, B⟩
  have hat := setBlocks_pointsAt hset
  rw [hset] at hB
  have hseen := Build.seen_eq_of_fits (colIdxs_fit hwf.diag hfits.cols)
  have hmem : ∀ i, i ∈ (setRownnz lib matrix.diag B.offdCols.heap).rownnz ↔
      i < L.diag.csr.numRows ∧ L.diag.csr.row i ≠ [] := fun i => by
    rw [hat.mem_rownnz hB, hseen]
  refine fun _ => (lib.kernels.reorder_code (hat.diag_rowWf hB hwf)).trans ?_
  rw [hat.diag_view hB, hseen]
  exact ⟨fun hall i hi hne => hall i ((hmem i).mpr ⟨hi, hne⟩),
    fun hall i hi => hall i ((hmem i).mp hi).1 ((hmem i).mp hi).2⟩

/-- When the local part returns, all its arrays have been allocated. -/
theorem localParCsr_allocates {out : ParCsr × ParCsrMatrix × Heap (Buffer V)}
    (h : localParCsr build lib L mem result rowEnd = .ok out) : ArraysAllocate build L := by
  unfold localParCsr at h
  obtain ⟨_, -, h⟩ := bind_eq_ok.mp h
  obtain ⟨_, -, h⟩ := bind_eq_ok.mp h
  obtain ⟨_, hdiag, h⟩ := bind_eq_ok.mp h
  obtain ⟨_, hoffd, h⟩ := bind_eq_ok.mp h
  obtain ⟨_, -, h⟩ := bind_eq_ok.mp h
  obtain ⟨_, -, h⟩ := bind_eq_ok.mp h
  obtain ⟨_, hremote, -⟩ := bind_eq_ok.mp h
  exact ⟨⟨allocateArray_eq_ok.mp hdiag, allocateConverted_eq_ok.mp hoffd⟩,
    allocateArray_eq_ok.mp hremote⟩

/-- On the host, the local part returns if all its arrays can be allocated and every non-empty row
of the diagonal block stores its diagonal, and otherwise fails. -/
theorem localParCsr_returns (hlib : lib.Succeeds) (hhost : result.memoryLocation = .host)
    (hstart : IntFits build.bigBits (rowEnd - L.diag.csr.numRows))
    (hend : IntFits build.bigBits rowEnd)
    (hremote : ∀ g ∈ L.imap.remote, IntFits build.bigBits g)
    (hreports : ReorderReports build lib mem result rowEnd) :
    (∃ out, localParCsr build lib L mem result rowEnd = .ok out) ↔ PassesLocal build L := by
  rcases hset : setBlocks build L mem result (rowEnd - L.diag.csr.numRows) rowEnd with ⟨matrix, B⟩
  have hat := setBlocks_pointsAt hset
  simp only [ReorderReports, hset] at hreports
  constructor
  · rintro ⟨out, h⟩
    have harrays := localParCsr_allocates h
    obtain ⟨matrix', B', heap', hset', hreorder, -⟩ := localParCsr_eq_ok h
    cases hset.symm.trans hset'
    exact ⟨harrays, (hreports harrays.toBlocksAllocate).mp ((reorderDiagFirst_host build).mp
      ⟨heap', hhost ▸ hreorder⟩)⟩
  · intro hpasses
    obtain ⟨heap', hreorder⟩ := (reorderDiagFirst_host build).mpr
      ((hreports hpasses.toBlocksAllocate).mpr hpasses.diagonals)
    obtain ⟨c, rfl⟩ := reorderDiagFirst_store hreorder
    have hcols : allocateArray (castInt build.intBits L.imap.getNonLocalSize) = .ok () :=
      allocateArray_eq_ok.mpr hpasses.offdCols
    unfold localParCsr
    rw [toHypreBigInt_eq_ok.mpr ⟨hstart, rfl⟩, toHypreBigInt_eq_ok.mpr ⟨hend, rfl⟩,
      allocateArray_eq_ok.mpr hpasses.diagNnz, allocateConverted_eq_ok.mpr hpasses.offdNnz]
    simp only [bind, Except.bind, hset, hlib.check, hhost, hreorder, hcols, hat.remote_eq]
    have hfit : ∀ x ∈ (L.imap.remote.map ((↑) : ℕ → ℤ)).take
        (castSize (castInt build.intBits L.imap.getNonLocalSize)), IntFits build.bigBits x := by
      intro x hx
      obtain ⟨g, hg, rfl⟩ := List.mem_map.mp (List.mem_of_mem_take hx)
      exact hremote g hg
    rw [mapM_toHypreBigInt_eq_ok.mpr ⟨hfit, rfl⟩]
    exact ⟨_, rfl⟩

/-- The local part keeps the communicator and the location, and makes no communication package. -/
theorem localParCsr_keeps {out : ParCsr × ParCsrMatrix × Heap (Buffer V)}
    (h : localParCsr build lib L mem result rowEnd = .ok out) : out.1.comm = result.comm ∧
      out.1.memoryLocation = result.memoryLocation ∧ out.2.1.hasCommPkg = false := by
  obtain ⟨matrix, B, heap, hset, -, rfl⟩ := localParCsr_eq_ok h
  exact ⟨rfl, rfl, (setBlocks_pointsAt hset).hasCommPkg⟩

end

/-! ## The rounds of the import -/

/-- The round of the scan: every rank gives its number of rows. -/
def scanRound (M : DistMatrix P V) : Round (mpi P) :=
  ⟨MpiOp.scan, fun s => (M.rowPart.partSize s : ℤ)⟩

/-- What a rank checks before the scan, apart from the policy. -/
structure PassesChecks (build : Build) (M : DistMatrix P V) (r : Fin P) : Prop where
  ordered : M.rowPart.hasOrderedParts
  diag : (M.rank r).diag.isCsr
  offDiag : (M.rank r).offDiag.isCsr
  size : IntFits build.bigBits M.n

instance (build : Build) (M : DistMatrix P V) (r : Fin P) : Decidable (PassesChecks build M r) :=
  decidable_of_iff (M.rowPart.hasOrderedParts ∧ (M.rank r).diag.isCsr ∧ (M.rank r).offDiag.isCsr ∧
      IntFits build.bigBits M.n)
    ⟨fun ⟨h1, h2, h3, h4⟩ => ⟨h1, h2, h3, h4⟩, fun ⟨h1, h2, h3, h4⟩ => ⟨h1, h2, h3, h4⟩⟩

/-- What is left of `build_distributed_par_csr` after the scan. -/
def afterScan (build : Build) (lib : Lib V) (location : MemoryLocation) (M : DistMatrix P V)
    (r : Fin P) (mem : RankMemory (M.rank r)) (policy : PolicyState) :
    Program (mpi P) A Error (ParCsr × PolicyState × Heap (Buffer V)) := do
  let (result, matrix, heap) ← Program.ofExcept
    (localParCsr build lib (M.rank r) mem (beforeScan build location (M.rank r) mem M.n)
      (M.rowPart.start r + M.rowPart.partSize r))
  let result ← finishParCsr lib result matrix
  return (result, policy, heap)

section
variable {M : DistMatrix P V} {r : Fin P} {lib : Lib V} {location : MemoryLocation}
  {mem : RankMemory (M.rank r)} {policy policy' : PolicyState}

/-- A rank whose checks pass takes part in the scan. -/
theorem buildDistributedParCsr_leads_scan (hchecks : PassesChecks build M r)
    (hpolicy : lib.setProcessPolicy build location policy = .ok policy') :
    Leads r (buildDistributedParCsr (A := A) build lib location (M.rank r) mem policy)
      [scanRound M] [] (afterScan build lib location M r mem policy') := by
  have hsize : toHypreBigInt build.bigBits (M.rank r).size.1 = .ok (M.n : ℤ) := by
    refine toHypreBigInt_eq_ok.mpr ?_
    rw [(M.read r).size, M.rowPart_size]
    exact ⟨hchecks.size, rfl⟩
  simp only [buildDistributedParCsr, (M.read r).rowPartition, Option.any_some, hchecks.ordered,
    hchecks.diag, hchecks.offDiag, hsize, hpolicy, Program.ofExcept_ok, Program.ret_bind,
    Bool.not_true, Bool.and_self, Bool.false_eq_true, if_false]
  refine leads_mpiScan _ (congrArg Nat.cast (M.read r).diag_rows.symm) ?_
  rw [scanSum_partSize]
  exact .refl

/-- A rank whose checks do not pass throws before the scan. -/
theorem buildDistributedParCsr_raises (lib : Lib V) (location : MemoryLocation)
    (mem : RankMemory (M.rank r)) (policy : PolicyState) (hchecks : ¬ PassesChecks build M r) :
    ∃ e, buildDistributedParCsr (A := A) build lib location (M.rank r) mem policy = .raise e := by
  unfold buildDistributedParCsr
  split
  · exact ⟨_, rfl⟩
  rename_i hord
  split
  · exact ⟨_, rfl⟩
  rename_i hblocks
  have hsize : ¬ IntFits build.bigBits (M.rank r).size.1 := by
    intro hfits
    rw [(M.read r).size, M.rowPart_size] at hfits
    simp only [(M.read r).rowPartition, Option.any_some, Bool.not_eq_true', Bool.not_eq_false]
      at hord
    simp only [Bool.not_eq_true', Bool.not_eq_false, Bool.and_eq_true] at hblocks
    exact hchecks ⟨hord, hblocks.1, hblocks.2, hfits⟩
  cases hrows : toHypreBigInt build.bigBits (M.rank r).size.1 with
  | error e => exact ⟨e, rfl⟩
  | ok v => exact absurd (toHypreBigInt_eq_ok.mp hrows).1 hsize

theorem finishParCsr_leads (hlib : lib.Succeeds) {result : ParCsr} {matrix : ParCsrMatrix}
    (hpkg : matrix.hasCommPkg = false) :
    Leads r (finishParCsr (A := A) lib result matrix)
      [libraryRound .hypreParCsrMatrixSetNumNonzeros, libraryRound .hypreMatvecCommPkgCreate] []
      (.ret { result with matrix := some { matrix with hasCommPkg := true } }) := by
  simp only [finishParCsr, hlib.check, Program.ofExcept_ok, Program.ret_bind, hpkg,
    Bool.false_eq_true, if_false]
  exact leads_enterLibrary (leads_enterLibrary .refl)

/-- `ReorderReports` on rank `r`. -/
def RankReports (build : Build) (lib : Lib V) (M : DistMatrix P V) (r : Fin P)
    (mem : RankMemory (M.rank r)) : Prop :=
  ReorderReports build lib mem (beforeScan build .host (M.rank r) mem M.n)
    (M.rowPart.start r + M.rowPart.partSize r)

theorem localParCsr_host (hlib : lib.Succeeds) (hreports : RankReports build lib M r mem)
    (hsize : IntFits build.bigBits M.n) :
    (∃ out, localParCsr build lib (M.rank r) mem (beforeScan build .host (M.rank r) mem M.n)
      (M.rowPart.start r + M.rowPart.partSize r) = .ok out) ↔ PassesLocal build (M.rank r) := by
  have hle := M.rowPart.start_add_partSize_le r.isLt
  rw [M.rowPart_size] at hle
  have hrows := (M.read r).diag_rows
  refine localParCsr_returns hlib rfl (hsize.of_le ?_ ?_) (hsize.of_le ?_ ?_)
    (fun g hg => hsize.of_le (Int.natCast_nonneg g) ?_) hreports
  · omega
  · omega
  · omega
  · omega
  · have := (M.rank r).imap.remote_lt g hg
    rw [(M.read r).imap_partition, M.colPart_size] at this
    omega

/-- After the scan, on the host, a rank either comes to the end together with the others or
throws at once, depending on its own blocks. -/
theorem afterScan_leads (policy : PolicyState) (hlib : lib.Succeeds)
    (hreports : RankReports build lib M r mem)
    (hsize : IntFits build.bigBits M.n) (hpasses : PassesLocal build (M.rank r)) :
    ∃ out, Leads r (afterScan (A := A) build lib .host M r mem policy)
        [libraryRound .hypreParCsrMatrixSetNumNonzeros, libraryRound .hypreMatvecCommPkgCreate] []
        (.ret out) ∧
      out.1.comm = .matrix ∧ out.1.memoryLocation = .host ∧ out.2.1 = policy := by
  obtain ⟨⟨result, matrix, heap⟩, hlocal⟩ := (localParCsr_host hlib hreports hsize).mpr hpasses
  simp only [afterScan, hlocal, Program.ofExcept_ok, Program.ret_bind]
  obtain ⟨hcomm, hlocation, hpkg⟩ := localParCsr_keeps hlocal
  exact ⟨_, (finishParCsr_leads hlib hpkg).bind, hcomm, hlocation, rfl⟩

theorem afterScan_raises (policy : PolicyState) (hlib : lib.Succeeds)
    (hreports : RankReports build lib M r mem)
    (hsize : IntFits build.bigBits M.n) (hpasses : ¬ PassesLocal build (M.rank r)) :
    ∃ e, afterScan (A := A) build lib .host M r mem policy = .raise e := by
  unfold afterScan
  cases hlocal : localParCsr build lib (M.rank r) mem (beforeScan build .host (M.rank r) mem M.n)
      (M.rowPart.start r + M.rowPart.partSize r) with
  | error e => exact ⟨e, rfl⟩
  | ok out => exact absurd ((localParCsr_host hlib hreports hsize).mp ⟨out, hlocal⟩) hpasses

end

/-- The import returns on all ranks if all checks pass and no rank misses a diagonal. -/
theorem buildDistributedParCsr_returns (A : Type) {M : DistMatrix P V} {lib : Fin P → Lib V}
    (mem : (r : Fin P) → RankMemory (M.rank r)) (policy : Fin P → PolicyState)
    (hlib : ∀ r, (lib r).Succeeds) (hchecks : ∀ r, PassesChecks build M r)
    (hpolicy : ∀ r, ¬ (policy r).Conflicts .host) (hfits : ∀ r, LocalFits build (M.rank r))
    (hdiag : ∀ r, DiagonalsStored (M.rank r).diag.csr) :
    ∃ out, Returns (fun r => buildDistributedParCsr (A := A) build (lib r) .host (M.rank r) (mem r)
      (policy r)) out := by
  choose policy' hpolicy' _ using fun r =>
    (hlib r).setProcessPolicy_host build (hpolicy r)
  choose out hout _ _ _ using fun r => afterScan_leads (A := A) (policy' r)
    (hlib r) (reorderReports_of_fits (localWf_rank M r) (hfits r)) (hchecks r).size
    ((hfits r).passesLocal (hdiag r))
  exact ⟨out, _, fun _ => [], fun r =>
    (buildDistributedParCsr_leads_scan (hchecks r) (hpolicy' r)).trans (hout r)⟩

/-! ## Serial matrices -/

/-- On the host, the serial import returns exactly if hypre's routine accepts the converted
arrays. -/
theorem buildSerialParCsr_returns {c : Csr V} {lib : Lib V} {policy : PolicyState}
    (mem : SerialMemory c) (name : String) (hlib : lib.Succeeds)
    (hpolicy : ¬ policy.Conflicts .host) (hn : IntFits build.bigBits c.numRows)
    (hptrs : c.rowPtrs.length = c.numRows + 1) (hvalues : c.values.length = c.colIdxs.length) :
    (∃ out, buildSerialParCsr build lib .host ⟨name, true, c⟩ mem policy = .ok out) ↔
      (lib.kernels.reorder (lib.kernels.setRownnz (build.handed c)) (build.handed c)).2 = 0 := by
  obtain ⟨policy', hset, -⟩ := hlib.setProcessPolicy_host build hpolicy
  have hB := handSerial_holds build mem hptrs hvalues
  have hrownnz : (setRownnz lib ((handSerial build mem).block build c)
      (handSerial build mem).heap).rownnz = lib.kernels.setRownnz (build.handed c) :=
    congrArg lib.kernels.setRownnz (hB.view lib)
  rw [← hrownnz, ← hB.view lib, ← reorderDiagFirst_host build]
  constructor
  · rintro ⟨out, h⟩
    obtain ⟨_, heap, hreorder, -⟩ := buildSerialParCsr_eq_ok h
    exact ⟨heap, hreorder⟩
  · rintro ⟨heap, hreorder⟩
    unfold buildSerialParCsr
    simp only [Bool.not_true, Bool.false_eq_true, if_false, toHypreBigInt_eq_ok.mpr ⟨hn, rfl⟩,
      hset, hlib.check, ok_bind]
    change ∃ out, (reorderDiagFirst build lib (setRownnz lib ((handSerial build mem).block build c)
      (handSerial build mem).heap) .host (handSerial build mem).heap >>= _) = .ok out
    rw [hreorder]
    exact ⟨_, rfl⟩

/-- With the documented routines, it returns if all recorded rows of the converted arrays have
their diagonal entry. -/
theorem buildSerialParCsr_documented (build : Build) {c : Csr V} (name : String) (hc : c.Wf)
    (hn : IntFits build.bigBits c.numRows)
    (hdiag : ∀ i ∈ (Kernels.documented V).setRownnz (build.handed c),
      HasDiagonal (build.handed c) i) :
    ∃ out, buildSerialParCsr build (.documented V) .host ⟨name, true, c⟩ (.new c)
      ⟨none, .host, .host⟩ = .ok out := by
  have hpolicy : ¬ (⟨none, .host, .host⟩ : PolicyState).Conflicts .host := by decide
  exact (buildSerialParCsr_returns (.new c) name Lib.documented_succeeds hpolicy hn
    hc.rowPtrs_length hc.values_length).mpr (documented_reorder_code hdiag)

end GinkgoTpl.Hypre
