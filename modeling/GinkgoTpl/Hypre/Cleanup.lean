import GinkgoTpl.Hypre.Borrowed

/-!
# A generation cleans up exactly once

Wherever the constructor of `Pcg` throws, and also if it returns and the state is destroyed later,
everything that hypre has made is destroyed exactly once, the solvers before the matrix, and
nothing that is only borrowed: `generate_cleansUp`. What remains after `Tracked` are the importers,
which fill their own object before the state takes it over.
-/

namespace GinkgoTpl.Hypre

open Sparse Memory Ginkgo Spmd Transition

variable {P : ℕ} {V : Type}

/-! ## The importers -/

/-- The arrays that hypre has allocated for a matrix of this kind. -/
def ParCsrMatrix.ownArrays (matrix : ParCsrMatrix) (distributed : Bool) : List ℕ :=
  (if distributed then [] else matrix.offd.i.toList) ++ matrix.colMapOffd.toList

def ParCsrMatrix.held (matrix : ParCsrMatrix) (distributed : Bool) : List Resource :=
  (matrix.ownArrays distributed).map (⟨.array, ·⟩) ++ [⟨.parCsrMatrix, matrix.handle⟩]

def ParCsrMatrix.borrowed (matrix : ParCsrMatrix) (distributed : Bool) : List ℕ :=
  matrix.diag.arrays ++ if distributed then matrix.offd.arrays else []

/-- An importer has created a matrix, and there is nothing else. The off-diagonal block of a serial
matrix has row pointers only. -/
structure Importing (matrix : ParCsrMatrix) (s : Construction V) : Prop where
  accounted : Accounted s.log (matrix.held s.result.distributed) s.heap.next
    (matrix.borrowed s.result.distributed)
  offd : s.result.distributed = false → matrix.offd.j = none ∧ matrix.offd.data = none
  matrix_eq : s.result.matrix = some matrix
  state : s.state = .new
  vector : s.vector = .empty
  dummyB : s.dummyB = none
  dummyX : s.dummyX = none

namespace Importing

variable {matrix matrix' : ParCsrMatrix} {s : Construction V} {heap : Heap (Buffer V)}
  {log : List (ResourceEvent Resource)}

theorem settled (h : Importing matrix s) : Settled s := by
  have hoffd := h.offd
  have hheld : s.held = matrix.held s.result.distributed := by
    cases hdist : s.result.distributed <;>
      simp_all [Construction.held, PcgState.held, PcgState.solvers, PcgState.new, ParCsr.held,
        ParCsr.ownArrays, ParCsrMatrix.held, ParCsrMatrix.ownArrays, ParCsr.new, h.vector, h.dummyB,
        h.dummyX, h.state, h.matrix_eq, PlacedVector.held, PlacedVector.empty, HypreCsr.frees]
  have hborrowed : s.borrowed = matrix.borrowed s.result.distributed := by
    simp [Construction.borrowed, ParCsr.borrowed, ParCsrMatrix.borrowed, h.matrix_eq, h.state,
      PcgState.new, ParCsr.new]
  refine ⟨⟨?_, .inr ?_⟩, h.vector⟩
  · rw [hheld, hborrowed]
    exact h.accounted
  · rw [h.state]
    rfl

theorem update (h : Importing matrix s)
    (haccounted : Accounted log (matrix'.held s.result.distributed) heap.next
      (matrix'.borrowed s.result.distributed))
    (hoffd : s.result.distributed = false → matrix'.offd.j = none ∧ matrix'.offd.data = none) :
    Importing matrix' (Construction.setMatrix matrix' { s with heap, log }) :=
  ⟨haccounted, hoffd, rfl, h.state, h.vector, h.dummyB, h.dummyX⟩

/-- hypre makes an array, and the matrix points at it. -/
theorem alloc (h : Importing matrix s) (contents : Buffer V)
    (hheld : (⟨.array, s.heap.next⟩ :: matrix.held s.result.distributed).Perm
      (matrix'.held s.result.distributed))
    (hborrowed : matrix'.borrowed s.result.distributed = matrix.borrowed s.result.distributed)
    (hoffd : s.result.distributed = false → matrix'.offd.j = none ∧ matrix'.offd.data = none) :
    Importing matrix' ((s.create .array contents).setMatrix matrix') := by
  refine h.update ?_ hoffd
  rw [hborrowed]
  exact (h.accounted.create .array).weaken hheld (by simp) (List.Subset.refl _)

theorem allocRowPtrs (h : Importing matrix s)
    (hrows : s.result.distributed = true → matrix.offd.i.isSome) :
    Importing (Construction.allocRowPtrs matrix s).1
      ((Construction.allocRowPtrs matrix s).2.setMatrix
        (Construction.allocRowPtrs matrix s).1) := by
  unfold Construction.allocRowPtrs
  split
  · rename_i hnone
    have hdist : s.result.distributed = false := by
      cases hdist : s.result.distributed with
      | false => rfl
      | true => simp_all
    refine h.alloc _ ?_ ?_ h.offd
    · simp_all [ParCsrMatrix.held, ParCsrMatrix.ownArrays]
    · simp [ParCsrMatrix.borrowed, hdist]
  · exact h.update h.accounted h.offd

theorem allocColMap (h : Importing matrix s) (hnone : matrix.colMapOffd = none) :
    Importing (Construction.allocColMap matrix s).1
      ((Construction.allocColMap matrix s).2.setMatrix (Construction.allocColMap matrix s).1) := by
  refine h.alloc _ ?_ rfl h.offd
  simp only [ParCsrMatrix.held, ParCsrMatrix.ownArrays, hnone, Option.toList_none, List.append_nil,
    List.map_append, List.append_assoc]
  exact List.perm_middle.symm

end Importing

section
variable [Inhabited V] {build : Build} {hypre : Lib V} {faults : Faults} {s : Construction V}
  {matrix : ParCsrMatrix} {α : Type} {Q : α → Construction V → Prop}

omit [Inhabited V] in
theorem Construction.allocRowPtrs_frame (hnone : matrix.colMapOffd = none) :
    (allocRowPtrs matrix s).1.diag = matrix.diag ∧ s.heap.Keeps (allocRowPtrs matrix s).2.heap ∧
      (allocRowPtrs matrix s).1.colMapOffd = none := by
  unfold allocRowPtrs
  split
  · exact ⟨rfl, (Heap.Keeps.refl _).alloc, hnone⟩
  · exact ⟨rfl, .refl _, hnone⟩

/-- The initialization leaves the diagonal block as it is, and the memory but for its arrays. -/
theorem ends_initializeMatrix_bind {f : ParCsrMatrix → Constructing V α} (h : Importing matrix s)
    (hrows : s.result.distributed = true → matrix.offd.i.isSome) (hnone : matrix.colMapOffd = none)
    (hf : ∀ matrix' s', Importing matrix' s' → matrix'.diag = matrix.diag →
      s.heap.Keeps s'.heap → Ends (f matrix') s' Q Settled) :
    Ends (Construction.initializeMatrix hypre faults matrix >>= f) s Q Settled := by
  refine ends_bind.mpr (ends_bind.mpr (ends_get.mpr ?_))
  let rows := if decide (hypre.code .parCsrMatrixInitialize = 0) || faults.rowPtrs then
    Construction.allocRowPtrs matrix s else (matrix, s)
  let cols := if decide (hypre.code .parCsrMatrixInitialize = 0) || faults.colMap then
    Construction.allocColMap rows.1 rows.2 else rows
  have hrowPtrs : Importing rows.1 (rows.2.setMatrix rows.1) ∧ rows.1.diag = matrix.diag ∧
      s.heap.Keeps rows.2.heap ∧ rows.1.colMapOffd = none := by
    dsimp only [rows]
    split
    · exact ⟨h.allocRowPtrs hrows, Construction.allocRowPtrs_frame hnone⟩
    · exact ⟨h.update h.accounted h.offd, rfl, .refl _, hnone⟩
  have hcols : Importing cols.1 (cols.2.setMatrix cols.1) ∧ cols.1.diag = matrix.diag ∧
      s.heap.Keeps cols.2.heap := by
    obtain ⟨hrowPtrs, hdiag, hkeeps, hnone'⟩ := hrowPtrs
    dsimp only [cols]
    split
    · exact ⟨hrowPtrs.allocColMap hnone', hdiag, hkeeps.alloc⟩
    · exact ⟨hrowPtrs, hdiag, hkeeps⟩
  obtain ⟨hcols, hdiag, hkeeps⟩ := hcols
  exact ends_bind.mpr (ends_set.mpr (ends_check_bind hcols.settled (hf _ _ hcols hdiag hkeeps)))

theorem ends_reorderDiagFirst_bind {location : MemoryLocation} {f : Unit → Constructing V α}
    (h : Importing matrix s)
    (hf : ∀ c, Importing matrix { s with heap := storeBlock matrix.diag c s.heap } →
      Ends (f ()) { s with heap := storeBlock matrix.diag c s.heap } Q Settled) :
    Ends (Construction.reorderDiagFirst build hypre matrix location >>= f) s Q Settled := by
  refine ends_bind.mpr (ends_bind.mpr (ends_get.mpr (ends_ofExcept_bind h.settled ?_)))
  intro heap hheap
  obtain ⟨c, rfl⟩ := reorderDiagFirst_store hheap
  refine ends_modify.mpr (hf c ⟨?_, h.offd, h.matrix_eq, h.state, h.vector, h.dummyB, h.dummyX⟩)
  refine h.accounted.weaken (.refl _) ?_ (List.Subset.refl _)
  unfold storeBlock
  cases matrix.diag.j <;> cases matrix.diag.data <;> simp

theorem ends_finishParCsr (h : Importing matrix s) :
    Ends (Construction.finishParCsr hypre matrix) s (fun _ s' => ∃ matrix', Importing matrix' s')
      Settled := by
  refine ends_check_bind h.settled ?_
  split
  · exact ends_check_bind h.settled (ends_modify.mpr ⟨_, h.update h.accounted h.offd⟩)
  · exact ⟨matrix, h⟩

omit [Inhabited V] in
/-- The new map of the columns is held before the old one is freed. The range checks cannot fail
there. -/
theorem ends_replaceColMap_bind {remote : ℕ} {numColsOffd : ℤ}
    {f : ParCsrMatrix → Constructing V α} (h : Importing matrix s)
    (hfits : ∀ g ∈ ints s.heap remote, IntFits build.bigBits g)
    (hf : ∀ matrix' s', Importing matrix' s' → Ends (f matrix') s' Q Settled) :
    Ends (Construction.replaceColMap build remote numColsOffd matrix >>= f) s Q Settled := by
  refine ends_bind.mpr (ends_ofExcept_bind h.settled fun _ _ => ?_)
  refine ends_bind.mpr (ends_get.mpr (ends_bind.mpr (ends_set.mpr ?_)))
  have hglobals : ((ints s.heap remote).take (castSize numColsOffd)).mapM
      (toHypreBigInt build.bigBits) = .ok ((ints s.heap remote).take (castSize numColsOffd)) :=
    mapM_toHypreBigInt_eq_ok.mpr ⟨fun g hg => hfits g (List.mem_of_mem_take hg), rfl⟩
  rw [hglobals]
  refine hf _ _ ?_
  let freed : List Resource := matrix.colMapOffd.toList.map (⟨.array, ·⟩)
  let matrix' : ParCsrMatrix := { matrix with colMapOffd := some s.heap.next }
  have hheld : ((⟨.array, s.heap.next⟩ : Resource) :: matrix.held s.result.distributed).Perm
      (freed ++ matrix'.held s.result.distributed) := by
    refine List.perm_iff_count.mpr fun r => ?_
    simp only [ParCsrMatrix.held, ParCsrMatrix.ownArrays, matrix', freed, List.map_append,
      List.count_append, List.count_cons, Option.toList_some, List.map_cons, List.map_nil,
      List.count_nil]
    omega
  have haccounted := ((h.accounted.create .array).weaken hheld le_rfl (List.Subset.refl _)).free
    (by simp [freed])
  rw [show freed.map ResourceEvent.destroy = _ from List.map_map] at haccounted
  exact h.update (haccounted.weaken (.refl _) (by simp [Construction.create])
    (List.Subset.refl _)) h.offd

end

/-! ## The importers -/

/-- hypre has made nothing yet. -/
structure Untouched (s : Construction V) : Prop where
  log : s.log = []
  result : s.result.matrix = none
  state : s.state = .new
  vector : s.vector = .empty
  dummyB : s.dummyB = none
  dummyX : s.dummyX = none

namespace Untouched

variable {s : Construction V}

theorem settled (h : Untouched s) : Settled s := by
  have hheld : s.held = [] := by
    simp [Construction.held, PcgState.held, PcgState.solvers, h.result, h.state, h.vector, h.dummyB,
      h.dummyX, PcgState.new, ParCsr.held, ParCsr.ownArrays, ParCsr.new, PlacedVector.held,
      PlacedVector.empty]
  have hborrowed : s.borrowed = [] := by
    simp [Construction.borrowed, ParCsr.borrowed, h.result, h.state, PcgState.new, ParCsr.new]
  refine ⟨⟨?_, .inl h.result⟩, h.vector⟩
  rw [h.log, hheld, hborrowed]
  exact .nil _

/-- The matrix is created, and may point at borrowed arrays. -/
theorem importing (h : Untouched s) (matrix : ParCsrMatrix) {heap : Heap (Buffer V)}
    {result : ParCsr} {next : ℕ} (hhandle : matrix.handle = next) (hnext : next < heap.next)
    (hmatrix : result.matrix = some matrix) (hcol : matrix.colMapOffd = none)
    (hserial : result.distributed = false → matrix.offd.i = none ∧ matrix.offd.j = none ∧
      matrix.offd.data = none)
    (hborrowed : ∀ a ∈ matrix.borrowed result.distributed, a < heap.next) :
    Importing matrix { s with heap, log := s.log ++ [.create ⟨.parCsrMatrix, next⟩], result } := by
  refine ⟨?_, fun hdist => (hserial hdist).2, hmatrix, h.state, h.vector, h.dummyB, h.dummyX⟩
  have hcreate : Accounted [] [] next [] := .nil _
  have hheld : matrix.held result.distributed = [⟨.parCsrMatrix, next⟩] := by
    cases hdist : result.distributed <;>
      simp_all [ParCsrMatrix.held, ParCsrMatrix.ownArrays]
  simp only [h.log, hheld]
  exact { (hcreate.create .parCsrMatrix).weaken (.refl _) hnext (List.Subset.refl _) with
    borrowed := fun a ha => ⟨hborrowed a ha, by simp⟩ }

theorem handSerial (h : Untouched s) (build : Build) {mtx : Csr V} (mem : SerialMemory mtx)
    (globalRows : ℤ) (hheap : mem.heap.Keeps s.heap) :
    Importing (Construction.handSerial build mtx mem globalRows s).1
      (Construction.handSerial build mtx mem globalRows s).2 := by
  unfold Construction.handSerial
  extract_lets nnz matrix s' rowPtrs colIdxs diagValues matrix'
  have hstored : s'.heap.Live mem.arrays.rowPtrs :=
    ⟨_, (Heap.Keeps.refl s.heap).alloc.read (hheap.read mem.stored.rowPtrs)⟩
  have hrows : rowPtrs.Placed s'.heap mem.arrays.rowPtrs := asHypreInt_placed _
  have hcols : colIdxs.Copied rowPtrs.heap := copyAsHypreInt_copied _
  have hvalues : diagValues.Copied colIdxs.heap := copyValues_copied _
  have hcolsValues := hvalues.allocates.keeps.next_le
  have hrowsCols := hcols.allocates.keeps.next_le
  have hnext : s.heap.next + 1 ≤ rowPtrs.heap.next := by
    simpa [s', Construction.create] using hrows.allocates.keeps.next_le
  refine h.importing matrix' rfl (by omega) rfl rfl (fun _ => ⟨rfl, rfl, rfl⟩) fun a ha => ?_
  have ha' : a = rowPtrs.addr ∨ a = colIdxs.addr ∨ a = diagValues.addr := by
    simpa [ParCsrMatrix.borrowed, HypreCsr.arrays, matrix', matrix, HypreCsr.setBlock,
      ParCsrMatrix.create, HypreCsr.new] using ha
  have := (hrows.live hstored).lt_next
  have := (hcols.allocates.live _ (List.mem_singleton_self _)).lt_next
  have := (hvalues.allocates.live _ (List.mem_singleton_self _)).lt_next
  omega

theorem createDistributed (h : Untouched s) (build : Build) (L : LocalMatrix P V)
    (rowStart rowStop : ℤ) :
    Importing (Construction.createDistributed build L rowStart rowStop s).1
      (Construction.createDistributed build L rowStart rowStop s).2 := by
  refine h.importing _ rfl ?_ rfl rfl (fun _ => ⟨rfl, rfl, rfl⟩) ?_
  · simp [Construction.create]
  · simp [ParCsrMatrix.borrowed, Construction.createDistributed, ParCsrMatrix.create,
      HypreCsr.arrays, HypreCsr.new]

end Untouched

/-- The blocks of a matrix that hypre has just created are set. -/
theorem Importing.handDistributed {s : Construction V} {matrix : ParCsrMatrix}
    (h : Importing matrix s) (build : Build) {L : LocalMatrix P V} (mem : RankMemory L)
    (hheap : mem.heap.Keeps s.heap) (hlog : ∀ a, .create ⟨.array, a⟩ ∉ s.log)
    (hdist : s.result.distributed = true) :
    Importing (Construction.handDistributed build L mem matrix s).1
      (Construction.handDistributed build L mem matrix s).2 := by
  have hplaced := handBlocks_placed build mem (castInt build.intBits L.diag.csr.values.length)
    (castInt build.intBits L.offDiag.csr.values.length) s.heap
  have hkeeps := hplaced.allocates.keeps
  refine ⟨?_, fun hd => absurd (hdist.symm.trans hd) (by decide), rfl, h.state, h.vector, h.dummyB,
    h.dummyX⟩
  have hheld : matrix.held s.result.distributed =
      (Construction.handDistributed build L mem matrix s).1.held s.result.distributed := by
    simp [ParCsrMatrix.held, ParCsrMatrix.ownArrays, Construction.handDistributed, hdist]
  exact { h.accounted.weaken (hheld ▸ .refl _) hkeeps.next_le (List.Subset.refl _) with
    borrowed := fun a ha => by
      refine ⟨?_, hlog a⟩
      have hmem := hplaced.addr a (by
        simpa [Construction.handDistributed, ParCsrMatrix.borrowed, HypreCsr.arrays,
          HypreCsr.setBlock, HandedBlocks.addrs, hdist] using ha)
      rcases hmem with hmem | hmem
      · exact (hplaced.allocates.live a hmem).lt_next
      · exact (hkeeps.live (hheap.live (mem.live a hmem))).lt_next }

section
variable [Inhabited V] {build : Build} {hypre : Lib V} {faults : Faults} {s : Construction V}

/-- Wherever the serial importer throws, its result is in order. -/
theorem ends_buildSerialParCsr {location : MemoryLocation} {systemMatrix : Block V}
    {mem : SerialMemory systemMatrix.csr} (h : Untouched s) (hheap : mem.heap.Keeps s.heap) :
    Ends (Construction.buildSerialParCsr build hypre faults location systemMatrix mem) s
      (fun _ s' => ∃ matrix, Importing matrix s') Settled := by
  unfold Construction.buildSerialParCsr
  split
  · exact h.settled
  refine ends_ofExcept_bind h.settled fun globalRows _ => ends_bind.mpr (ends_modify.mpr ?_)
  generalize hresult : { ParCsr.new with
    comm := .self
    numLocalRows := castInt build.intBits systemMatrix.csr.numRows
    globalRows
    memoryLocation := location
    systemMatrix := some mem.systemMatrix } = result
  have hstart (policy : PolicyState) : Untouched { s with policy, result } :=
    ⟨h.log, hresult ▸ rfl, h.state, h.vector, h.dummyB, h.dummyX⟩
  refine ends_setProcessPolicy_bind (hstart s.policy).settled fun policy => ?_
  refine ends_bind.mpr (ends_modifyGet.mpr ?_)
  have himporting := (hstart policy).handSerial build mem globalRows hheap
  have hserial : ¬ result.distributed := hresult ▸ Bool.false_ne_true
  refine ends_initializeMatrix_bind himporting (fun h => absurd h hserial) rfl
    fun matrix s₁ h₁ _ _ => ?_
  refine ends_bind.mpr (ends_get.mpr (ends_bind.mpr (ends_set.mpr ?_)))
  refine ends_reorderDiagFirst_bind (h₁.update h₁.accounted h₁.offd) fun c h₂ => ?_
  exact ends_finishParCsr h₂

/-- Wherever the distributed importer throws, its result is in order. The remote columns are columns
of the matrix, so they fit once its size does. -/
theorem ends_buildDistributedParCsr {answer : (op : MpiOp) → op.Data → op.Data}
    {location : MemoryLocation} {L : LocalMatrix P V} {mem : RankMemory L} (h : Untouched s)
    (hheap : s.heap = mem.heap) (hremote : ∀ g ∈ L.imap.remote, g < L.size.1) :
    Ends (Construction.buildDistributedParCsr build hypre faults answer location L mem) s
      (fun _ s' => ∃ matrix, Importing matrix s') Settled := by
  unfold Construction.buildDistributedParCsr
  split
  · exact h.settled
  split
  · exact h.settled
  refine ends_ofExcept_bind h.settled fun globalRows hsize => ends_bind.mpr (ends_modify.mpr ?_)
  have hfits : ∀ g ∈ L.imap.remote.map ((↑) : ℕ → ℤ), IntFits build.bigBits g := by
    obtain ⟨hlow, hhigh⟩ := (toHypreBigInt_eq_ok.mp hsize).1
    intro g hg
    obtain ⟨g, hmem, rfl⟩ := List.mem_map.mp hg
    have := hremote g hmem
    exact ⟨by omega, by omega⟩
  generalize hresult : beforeScan build location L mem globalRows = result
  have hstart (policy : PolicyState) : Untouched { s with policy, result } :=
    ⟨h.log, hresult ▸ rfl, h.state, h.vector, h.dummyB, h.dummyX⟩
  refine ends_setProcessPolicy_bind (hstart s.policy).settled fun policy => ?_
  refine ends_ofExcept_bind (hstart policy).settled fun _ _ => ?_
  refine ends_ofExcept_bind (hstart policy).settled fun rowStart _ => ?_
  refine ends_ofExcept_bind (hstart policy).settled fun rowStop _ => ?_
  refine ends_bind.mpr (ends_modifyGet.mpr ?_)
  have hcreated := (hstart policy).createDistributed build L rowStart rowStop
  refine ends_ofExcept_bind hcreated.settled fun _ _ => ?_
  refine ends_ofExcept_bind hcreated.settled fun _ _ => ?_
  refine ends_bind.mpr (ends_modifyGet.mpr ?_)
  have himporting := hcreated.handDistributed build mem (hheap ▸ (Heap.Keeps.refl s.heap).alloc)
    (by simp [Construction.createDistributed, Construction.create, h.log])
    (hresult ▸ rfl)
  refine ends_initializeMatrix_bind himporting (fun _ => rfl) rfl
    fun matrix s₁ h₁ hdiag hkeeps => ?_
  refine ends_bind.mpr (ends_get.mpr (ends_bind.mpr (ends_set.mpr ?_)))
  refine ends_reorderDiagFirst_bind (h₁.update h₁.accounted h₁.offd) fun c h₂ => ?_
  -- only the copies of the diagonal block have been written since, so the remote columns are there
  have hfresh : (handBlocks build L mem (castInt build.intBits L.diag.csr.values.length)
    (castInt build.intBits L.offDiag.csr.values.length) (s.heap.alloc .object)).Fresh mem :=
    hheap ▸ handBlocks_fresh _ _ _
  have hstored : mem.heap.Keeps (storeBlock (setRownnz hypre matrix.diag s₁.heap) c s₁.heap) := by
    refine storeBlock_keeps (hfresh.keeps.trans hkeeps) ?_ ?_ <;> rw [hdiag]
    · rintro a ⟨⟩
      exact hfresh.cols_new
    · rintro a ⟨⟩
      exact hfresh.values_new
  refine ends_replaceColMap_bind h₂ ?_ fun matrix' s₃ h₃ => ends_finishParCsr h₃
  intro g (hg : g ∈ ints (storeBlock (setRownnz hypre matrix.diag s₁.heap) c s₁.heap) mem.remote)
  rw [ints_eq (hstored.read mem.remote_stored)] at hg
  exact hfits g hg

/-! ## The constructor -/

/-- Ginkgo numbers the columns of a distributed matrix by an index map for them. -/
def SystemMatrix.WellFormed : SystemMatrix P V → Prop
  | .distributed L _ => L.imap.partition.size = L.size.2
  | _ => True

omit [Inhabited V] in
/-- The state takes over the imported matrix. -/
theorem Importing.adopt {matrix : ParCsrMatrix} (h : Importing matrix s) :
    Imported { s with result := s.state.matrix, state := { s.state with matrix := s.result } } := by
  have hstate := h.state
  refine ⟨⟨⟨⟨⟨?_, .inl ?_⟩, h.vector⟩, ?_, ?_, ?_⟩, h.dummyB, h.dummyX⟩, ?_, ?_⟩ <;>
    simp only [hstate, PcgState.new, ParCsr.new]
  refine h.settled.accounted.weaken ?_ le_rfl ?_
  · simp [Construction.held, PcgState.held, PcgState.solvers, hstate, PcgState.new, ParCsr.new,
      ParCsr.held, ParCsr.ownArrays]
  · simp [Construction.borrowed, hstate, PcgState.new, ParCsr.new, ParCsr.borrowed]

theorem ends_importMatrix {answer : (op : MpiOp) → op.Data → op.Data} {location : MemoryLocation}
    {systemMatrix : SystemMatrix P V} (h : Untouched s) (hwf : systemMatrix.WellFormed)
    (hsquare : systemMatrix.size.1 = systemMatrix.size.2) (hheap : s.heap = systemMatrix.heap) :
    Ends (Construction.importMatrix build hypre faults answer location systemMatrix) s
      (fun _ => Imported) Settled := by
  have hadopt (x : Constructing V Unit)
      (hx : Ends x s (fun _ s' => ∃ matrix, Importing matrix s') Settled) :
      Ends (x >>= fun _ => modify fun s => { s with
        result := s.state.matrix, state := { s.state with matrix := s.result } }) s
        (fun _ => Imported) Settled :=
    hx.bind fun _ s' ⟨_, h'⟩ => ends_modify.mpr h'.adopt
  cases systemMatrix with
  | csr mtx mem => exact hadopt _ (ends_buildSerialParCsr h (hheap ▸ .refl _))
  | distributed L mem =>
    refine hadopt _ (ends_buildDistributedParCsr h hheap fun g hg => ?_)
    have := L.imap.remote_lt g hg
    rw [show L.imap.partition.size = L.size.2 from hwf] at this
    exact this.trans_eq hsquare.symm
  | other typeName size => exact h.settled

theorem ends_generate [Zero V] {p : Process} {answer : (op : MpiOp) → op.Data → op.Data}
    {location : MemoryLocation} {params : Parameters} {systemMatrix : SystemMatrix P V}
    (hp : Running p) (h : Untouched s) (hwf : systemMatrix.WellFormed)
    (hheap : s.heap = systemMatrix.heap) :
    Ends (Construction.generate build hypre faults answer p location params systemMatrix) s
      (fun _ => Settled) Settled := by
  unfold Construction.generate
  split
  · exact h.settled
  split
  · exact h.settled
  rename_i hsquare
  refine ends_setProcessPolicy_bind h.settled fun policy => ?_
  have hpolicy : Untouched { s with policy } :=
    ⟨h.log, h.result, h.state, h.vector, h.dummyB, h.dummyX⟩
  exact (ends_importMatrix hpolicy hwf (not_not.mp hsquare) hheap).bind fun _ s₁ h₁ =>
    ends_setUp hp h₁

/-! ## The end -/

section
omit [Inhabited V]

theorem pairwise_of_not_used {l : List Resource} (h : ∀ r ∈ l, r.kind ≠ .parCsrMatrix) :
    l.Pairwise fun r r' => ¬ Uses r' r :=
  List.Pairwise.imp_of_mem (R := fun _ _ => True) (fun hr _ _ huses => h _ hr huses.2)
    (List.pairwise_of_forall fun _ _ => trivial)

theorem pairwise_of_not_user {l : List Resource}
    (h : ∀ r ∈ l, ¬ (r.kind = .boomerAmg ∨ r.kind = .pcg)) : l.Pairwise fun r r' => ¬ Uses r' r :=
  List.Pairwise.imp_of_mem (R := fun _ _ => True) (fun _ hr _ huses => h _ hr huses.1)
    (List.pairwise_of_forall fun _ _ => trivial)

theorem PlacedVector.kind_of_mem_held {v : PlacedVector} {r : Resource} (h : r ∈ v.held) :
    r.kind = .vector := by
  rcases v.held_cases with hv | ⟨a, hv⟩ <;> simp [hv] at h
  simp [h]

theorem PlacedVector.kind_of_mem_elim {v : Option PlacedVector} {r : Resource}
    (h : r ∈ v.elim [] PlacedVector.held) : r.kind = .vector := by
  cases v with
  | none => cases h
  | some v => exact PlacedVector.kind_of_mem_held h

theorem ParCsr.kind_of_mem_held {result : ParCsr} {r : Resource} (h : r ∈ result.held) :
    r.kind = .array ∨ r.kind = .parCsrMatrix := by
  simp only [ParCsr.held, List.mem_append, List.mem_map, Option.mem_toList,
    Option.map_eq_some_iff] at h
  rcases h with ⟨a, -, rfl⟩ | ⟨matrix, -, rfl⟩
  · exact .inl rfl
  · exact .inr rfl

theorem PcgState.kind_of_mem_solvers {s : PcgState} {r : Resource} (h : r ∈ s.solvers) :
    r.kind = .pcg ∨ r.kind = .boomerAmg := by
  simp only [PcgState.solvers, List.mem_append, Option.mem_toList, Option.map_eq_some_iff] at h
  rcases h with ⟨a, -, rfl⟩ | ⟨a, -, rfl⟩
  · exact .inl rfl
  · exact .inr rfl

/-- The destructors destroy the solvers before the matrix. -/
theorem Settled.pairwise (h : Settled s) : s.held.Pairwise fun r r' => ¬ Uses r' r := by
  rcases h.apart with hresult | hsolvers
  · -- the only matrix is the last one
    have hheld : s.held = (s.vector.held ++ s.dummyX.elim [] PlacedVector.held ++
        s.dummyB.elim [] PlacedVector.held ++ s.state.solvers ++
        s.state.setupX.elim [] PlacedVector.held ++ s.state.setupB.elim [] PlacedVector.held) ++
        s.state.matrix.held := by
      simp [Construction.held, PcgState.held, ParCsr.held_of_none hresult]
    have hfront : ∀ r ∈ s.vector.held ++ s.dummyX.elim [] PlacedVector.held ++
        s.dummyB.elim [] PlacedVector.held ++ s.state.solvers ++
        s.state.setupX.elim [] PlacedVector.held ++ s.state.setupB.elim [] PlacedVector.held,
        r.kind ≠ .parCsrMatrix := by
      intro r hr
      simp only [List.mem_append] at hr
      rcases hr with ((((hr | hr) | hr) | hr) | hr) | hr
      · simp [PlacedVector.kind_of_mem_held hr]
      · simp [PlacedVector.kind_of_mem_elim hr]
      · simp [PlacedVector.kind_of_mem_elim hr]
      · rcases PcgState.kind_of_mem_solvers hr with hk | hk <;> simp [hk]
      · simp [PlacedVector.kind_of_mem_elim hr]
      · simp [PlacedVector.kind_of_mem_elim hr]
    rw [hheld, List.pairwise_append]
    refine ⟨pairwise_of_not_used hfront, pairwise_of_not_user fun r hr => ?_,
      fun r hr r' _ huses => hfront r hr huses.2⟩
    rcases ParCsr.kind_of_mem_held hr with hk | hk <;> simp [hk]
  · refine pairwise_of_not_user fun r hr => ?_
    simp only [Construction.held, PcgState.held, hsolvers, List.nil_append, List.mem_append] at hr
    rcases hr with hr | ((hr | hr) | hr) | (hr | hr) | hr
    · simp [PlacedVector.kind_of_mem_held hr]
    · simp [PlacedVector.kind_of_mem_elim hr]
    · simp [PlacedVector.kind_of_mem_elim hr]
    · rcases ParCsr.kind_of_mem_held hr with hk | hk <;> simp [hk]
    · simp [PlacedVector.kind_of_mem_elim hr]
    · simp [PlacedVector.kind_of_mem_elim hr]
    · rcases ParCsr.kind_of_mem_held hr with hk | hk <;> simp [hk]

theorem Settled.owned_lifetime {p : Process} (hp : Running p) (h : Settled s) :
    Owned Uses (s.lifetime p) [] := by
  have howned := h.accounted.owned
  rw [← List.append_nil s.held] at howned
  have hall := howned.destroyAll h.pairwise ?_ (by simp)
  · rwa [← Construction.unwind_destroys hp h.vector] at hall
  · rintro r ⟨hr | hr, hr'⟩ <;> rw [hr] at hr' <;> cases hr'

end

/-- Wherever the constructor throws, and if it returns and the state is destroyed later, all that
hypre has made is destroyed exactly once, the solvers before the matrix. hypre frees none of the
arrays that it borrows, and frees the row pointers of the off-diagonal block that it has allocated
for a serial matrix. -/
theorem generate_cleansUp [Zero V] {p p' : Process} (hp : Running p) (hp' : Running p')
    {systemMatrix : SystemMatrix P V} (hwf : systemMatrix.WellFormed) (build : Build)
    (hypre : Lib V) (faults : Faults) (answer : (op : MpiOp) → op.Data → op.Data)
    (location : MemoryLocation) (params : Parameters) (policy : PolicyState) :
    let s := Construction.left build hypre faults answer p location params systemMatrix policy
    CleansUp Uses (s.lifetime p') ∧
      ∀ result ∈ [s.result, s.state.matrix],
        (∀ a ∈ result.borrowed, .destroy ⟨.array, a⟩ ∉ s.lifetime p') ∧
        ∀ matrix, result.matrix = some matrix → result.distributed = false →
          ∀ a, matrix.offd.i = some a → .destroy ⟨.array, a⟩ ∈ s.lifetime p' := by
  intro s
  have huntouched : Untouched (Construction.new systemMatrix.heap policy) :=
    ⟨rfl, rfl, rfl, rfl, rfl, rfl⟩
  have hsettled : Settled s := (ends_generate hp huntouched hwf rfl).stateAfter
  have hclean : CleansUp Uses (s.lifetime p') := (hsettled.owned_lifetime hp').cleansUp
  have hmem (result : ParCsr) (hresult : result ∈ [s.result, s.state.matrix]) :
      result = s.result ∨ result = s.state.matrix := by simpa using hresult
  refine ⟨hclean, fun result hresult => ⟨fun a ha => ?_, fun matrix hmatrix hserial a ha => ?_⟩⟩
  · have hborrowed : a ∈ s.borrowed := by
      rcases hmem result hresult with rfl | rfl
      · exact List.mem_append_left _ ha
      · exact List.mem_append_right _ ha
    rw [hclean.destroy_mem_iff, Construction.lifetime, List.mem_append, not_or]
    exact ⟨(hsettled.accounted.borrowed a hborrowed).2, by simp [destroyEvents]⟩
  · have hown : (⟨.array, a⟩ : Resource) ∈ result.held := by
      simp [ParCsr.held, ParCsr.ownArrays, hmatrix, hserial, HypreCsr.frees, ha]
    have hheld : (⟨.array, a⟩ : Resource) ∈ s.held := by
      rcases hmem result hresult with rfl | rfl <;>
        simp [Construction.held, PcgState.held, hown]
    refine List.mem_append_right _ (List.mem_map.mpr ⟨_, ?_, rfl⟩)
    rwa [Construction.unwind_destroys hp' hsettled.vector]

/-- The setup of the solver fails for a serial matrix with one row: by then hypre has made the
matrix with two arrays, both solvers and both vectors. -/
theorem generate_cleansUp_setup_fails :
    let mtx : Csr ℤ := ⟨1, 1, [0, 1], [0], [5]⟩
    let hypre : Lib ℤ := { Lib.documented ℤ with
      code := fun call => if call = .pcgSetup then 1 else 0 }
    let p : Process := ⟨.running, .initialized, []⟩
    let s := Construction.left (P := 1) .host hypre .none (fun _ d => d) p .host {}
      (.csr mtx (.new mtx)) ⟨none, .device, .device⟩
    CleansUp Uses (s.lifetime p) ∧ (s.lifetime p).length = 14 ∧
      s.state.matrix.matrix.bind (·.offd.i) = some 7 ∧ .destroy ⟨.array, 7⟩ ∈ s.lifetime p := by
  intro mtx hypre p s
  have hp : Running p := ⟨rfl, rfl⟩
  have hwf : SystemMatrix.WellFormed (P := 1) (.csr mtx (.new mtx)) := trivial
  obtain ⟨hclean, harrays⟩ := generate_cleansUp hp hp hwf .host hypre .none (fun _ d => d)
    .host {} ⟨none, .device, .device⟩
  have hlength : (s.lifetime p).length = 14 := by decide
  have hrows : s.state.matrix.matrix.bind (·.offd.i) = some 7 := by decide
  have hserial : s.state.matrix.distributed = false := by decide
  obtain ⟨matrix, hmatrix, hoffd⟩ := Option.bind_eq_some_iff.mp hrows
  have hmem : s.state.matrix ∈ [s.result, s.state.matrix] := .tail _ (.head _)
  have hdestroy := (harrays s.state.matrix hmem).2 matrix hmatrix hserial 7 hoffd
  exact ⟨hclean, hlength, hrows, hdestroy⟩

end

end GinkgoTpl.Hypre
