import GinkgoTpl.Hypre.Borrowed
import GinkgoTpl.Spmd.Outcome
import GinkgoTpl.Transition.Throwing

/-!
# Both models of the constructor end alike

`Construction.generate` follows the objects of the scopes and `generate` the calls that the ranks
enter together. For the same answers of the collective calls, both throw the same exception, or
both return with the same policy, sizes and hierarchy: `generate_endsLike`. They place what hypre
allocates at different addresses, so nothing that sees an address may depend on it.
-/

namespace GinkgoTpl.Hypre

open Sparse Memory Ginkgo Spmd Transition

variable {P : ℕ} {A V : Type} [Inhabited V]

/-- The two records agree on everything but addresses. -/
structure ParCsr.Like (r r' : ParCsr) : Prop where
  comm : r.comm = r'.comm
  distributed : r.distributed = r'.distributed
  numLocalRows : r.numLocalRows = r'.numLocalRows
  rowStart : r.rowStart = r'.rowStart
  globalRows : r.globalRows = r'.globalRows
  memoryLocation : r.memoryLocation = r'.memoryLocation
  systemMatrix : r.systemMatrix = r'.systemMatrix

/-- MPI does not fail, and the synchronization returns what hypre's call returns. -/
structure Faults.OfHypre (faults : Faults) (build : Build) (hypre : Lib V) : Prop where
  mpi : ∀ call, faults.mpi call = .ok ()
  sync : ∀ phase, faults.sync phase =
    hypre.code (if build.release ≥ 23300 then .syncDevice else .syncCudaDevice)

/-- Nothing that is given an address depends on it. -/
structure AddressesAlike (hypre : Lib V) (params : Parameters) : Prop where
  setData : ∀ v a a', hypre.check (.ijVectorSetData v a) = hypre.check (.ijVectorSetData v a')
  amgSetup : ∀ a a', callBack params.amgSetup a = callBack params.amgSetup a'
  krylovSetup : ∀ a a', callBack params.krylovSetup a = callBack params.krylovSetup a'

variable {build : Build} {hypre : Lib V} {faults : Faults} {s : Construction V}
  {answer : (op : MpiOp) → op.Data → op.Data} {α β : Type} {Q : α → Construction V → β → Prop}

/-! ## The importers -/

/-- What has been imported on a communicator, next to what the other model returns. -/
structure ImportedLike (comm : Comm) (s : Construction V)
    (out : ParCsr × PolicyState × Heap (Buffer V)) : Prop where
  policy : s.policy = out.2.1
  result : s.result.Like out.1
  state : s.state = .new
  comm : out.1.comm = comm

namespace Construction

theorem endsLike_setProcessPolicy_bind {location : MemoryLocation} {policy : PolicyState}
    {f : Unit → Constructing V α} {g : PolicyState → Except Error β} (hs : s.policy = policy)
    (hf : ∀ policy', EndsLike (f ()) { s with policy := policy' } (g policy') Q) :
    EndsLike (setProcessPolicy build hypre location >>= f) s
      (hypre.setProcessPolicy build location policy >>= g) Q := by
  subst hs
  simp only [setProcessPolicy, bind_assoc]
  exact .get_bind (.ofExcept_bind fun policy' _ => .modify_bind (hf policy'))

/-- The initialization may allocate arrays, and leaves the rest as it is. -/
theorem endsLike_initializeMatrix_bind {matrix : ParCsrMatrix}
    {f : ParCsrMatrix → Constructing V α} {g : Unit → Except Error β}
    (hf : ∀ matrix' s', matrix'.diag = matrix.diag → matrix'.hasCommPkg = matrix.hasCommPkg →
      s.heap.Keeps s'.heap → s'.policy = s.policy → s'.state = s.state →
      s'.result = { s.result with matrix := some matrix' } → EndsLike (f matrix') s' (g ()) Q) :
    EndsLike (initializeMatrix hypre faults matrix >>= f) s
      (hypre.check .parCsrMatrixInitialize >>= g) Q := by
  simp only [initializeMatrix, bind_assoc]
  refine .get_bind ?_
  let rows := if decide (hypre.code .parCsrMatrixInitialize = 0) || faults.rowPtrs then
    allocRowPtrs matrix s else (matrix, s)
  let cols := if decide (hypre.code .parCsrMatrixInitialize = 0) || faults.colMap then
    allocColMap rows.1 rows.2 else rows
  have hrows : rows.1.diag = matrix.diag ∧ rows.1.hasCommPkg = matrix.hasCommPkg ∧
      s.heap.Keeps rows.2.heap ∧ rows.2.policy = s.policy ∧ rows.2.state = s.state ∧
      rows.2.result = s.result := by
    dsimp only [rows, allocRowPtrs, create]
    split
    · split
      · exact ⟨rfl, rfl, (Heap.Keeps.refl _).alloc, rfl, rfl, rfl⟩
      · exact ⟨rfl, rfl, .refl _, rfl, rfl, rfl⟩
    · exact ⟨rfl, rfl, .refl _, rfl, rfl, rfl⟩
  have hcols : cols.1.diag = matrix.diag ∧ cols.1.hasCommPkg = matrix.hasCommPkg ∧
      s.heap.Keeps cols.2.heap ∧ cols.2.policy = s.policy ∧ cols.2.state = s.state ∧
      cols.2.result = s.result := by
    obtain ⟨hdiag, hpkg, hkeeps, hrest⟩ := hrows
    dsimp only [cols, allocColMap, create]
    split
    · exact ⟨hdiag, hpkg, hkeeps.alloc, hrest⟩
    · exact ⟨hdiag, hpkg, hkeeps, hrest⟩
  obtain ⟨hdiag, hpkg, hkeeps, hpolicy, hstate, hresult⟩ := hcols
  refine .set_bind (.ofExcept_bind fun _ _ => hf cols.1 (cols.2.setMatrix cols.1) hdiag hpkg hkeeps
    hpolicy hstate ?_)
  rw [← hresult]
  rfl

/-- The same rows are recorded in a memory that keeps the other one. -/
theorem setRownnz_keeps {block : HypreCsr} {heap heap' : Heap (Buffer V)}
    (hkeeps : heap.Keeps heap') (hlive : ∀ a ∈ block.arrays, heap.Live a) :
    setRownnz hypre block heap' = setRownnz hypre block heap := by
  rw [setRownnz, setRownnz, HypreCsr.view_keeps hkeeps hlive]

/-- The diagonal block is permuted alike in a memory that keeps the other one. -/
theorem endsLike_reorderDiagFirst_bind {location : MemoryLocation} {matrix : ParCsrMatrix}
    {diag : HypreCsr} {heap : Heap (Buffer V)} {f : Unit → Constructing V α}
    {g : Heap (Buffer V) → Except Error β} (hdiag : matrix.diag = diag)
    (hkeeps : heap.Keeps s.heap) (hlive : ∀ a ∈ diag.arrays, heap.Live a)
    (hf : ∀ c, (storeBlock diag c heap).Keeps (storeBlock diag c s.heap) →
      EndsLike (f ()) { s with heap := storeBlock diag c s.heap } (g (storeBlock diag c heap)) Q) :
    EndsLike (reorderDiagFirst build hypre matrix location >>= f) s
      (Hypre.reorderDiagFirst build hypre diag location heap >>= g) Q := by
  have hview : diag.view s.heap = diag.view heap := HypreCsr.view_keeps hkeeps hlive
  have hstore := fun c => storeBlock_keeps_storeBlock hkeeps hlive c
  simp only [reorderDiagFirst, Hypre.reorderDiagFirst, bind_assoc]
  refine .get_bind ?_
  rw [hdiag, hview]
  split
  · cases assertNoHypreErrors hypre.describe (hypre.kernels.moveDiagFirstDevice (diag.view heap)).2
      "hypre_CSRMatrixMoveDiagFirstDevice(diag)" with
    | ok => exact hf _ (hstore _)
    | error e => rfl
  · cases assertNoHypreErrors hypre.describe (hypre.kernels.reorder diag.rownnz (diag.view heap)).2
      "hypre_CSRMatrixReorder(diag)" with
    | ok => exact hf _ (hstore _)
    | error e => rfl

theorem endsLike_finishParCsr {matrix : ParCsrMatrix} {Q : Unit → Construction V → β → Prop}
    {out : β} (hpkg : matrix.hasCommPkg = false)
    (hQ : Q () (s.setMatrix { matrix with hasCommPkg := true }) out) :
    EndsLike (finishParCsr hypre matrix) s (do
      hypre.check .parCsrMatrixSetNumNonzeros
      hypre.check .matvecCommPkgCreate
      return out) Q := by
  unfold finishParCsr
  refine .ofExcept_bind fun _ _ => ?_
  rw [hpkg]
  exact .ofExcept_bind fun _ _ => hQ

omit [Inhabited V] in
theorem handSerial_live (build : Build) {c : Csr V} (mem : SerialMemory c) :
    ∀ a ∈ ((Hypre.handSerial build mem).block build c).arrays,
      (Hypre.handSerial build mem).heap.Live a := by
  have hplaced := handSerial_placed build mem
  intro a ha
  have ha : a = (Hypre.handSerial build mem).rowPtrs.addr ∨
      a = (Hypre.handSerial build mem).colIdxs.addr ∨
      a = (Hypre.handSerial build mem).values.addr := by
    simpa [HypreCsr.arrays, SerialArrays.block, HypreCsr.setBlock] using ha
  rcases ha with rfl | rfl | rfl
  · rcases hplaced.rowPtrs.addr_mem with hmem | hmem
    · exact hplaced.allocates.live _ (by simp [hmem])
    · rw [hmem]
      exact hplaced.allocates.keeps.live (mem.stored.live _ (by simp [CsrArrays.all]))
  · exact hplaced.allocates.live _ (by simp)
  · exact hplaced.allocates.live _ (by simp)

/-- The serial importers. -/
theorem endsLike_buildSerialParCsr {location : MemoryLocation} {systemMatrix : Block V}
    {mem : SerialMemory systemMatrix.csr} (hheap : s.heap = mem.heap) (hstate : s.state = .new) :
    EndsLike (buildSerialParCsr build hypre faults location systemMatrix mem) s
      (Hypre.buildSerialParCsr build hypre location systemMatrix mem s.policy)
      fun _ => ImportedLike .self := by
  obtain ⟨heap, policy, log, result, vector, dummyB, dummyX, state⟩ := s
  subst hheap hstate
  unfold buildSerialParCsr Hypre.buildSerialParCsr
  by_cases hcsr : systemMatrix.isCsr
  case neg =>
    simp only [hcsr, Bool.not_false, if_true]
    rfl
  simp only [hcsr, Bool.not_true, Bool.false_eq_true, if_false]
  refine .ofExcept_bind fun globalRows hrows => .modify_bind ?_
  obtain ⟨-, rfl⟩ := toHypreBigInt_eq_ok.mp hrows
  refine endsLike_setProcessPolicy_bind rfl fun policy => .modifyGet_bind ?_
  refine endsLike_initializeMatrix_bind fun matrix s₁ hdiag hpkg hkeeps hpolicy hstate hresult => ?_
  have hlive := handSerial_live build mem
  have hrownnz : setRownnz hypre matrix.diag s₁.heap = setRownnz hypre
      ((Hypre.handSerial build mem).block build systemMatrix.csr)
      (Hypre.handSerial build mem).heap :=
    (congrArg (setRownnz hypre · s₁.heap) hdiag).trans (setRownnz_keeps hkeeps hlive)
  refine .get_bind (.set_bind (endsLike_reorderDiagFirst_bind hrownnz hkeeps hlive fun c _ => ?_))
  refine endsLike_finishParCsr hpkg ⟨hpolicy, ?_, hstate, rfl⟩
  constructor <;> simp only [setMatrix, hresult] <;> rfl

/-- The end of the distributed importer, for a matrix without a communication package. -/
theorem outcome_finishParCsr_bind {result : ParCsr} {matrix : ParCsrMatrix}
    {g : ParCsr → Except Error β} (hpkg : matrix.hasCommPkg = false) :
    ((Hypre.finishParCsr hypre result matrix :
        Program (mpi P) A Error ParCsr).outcome answer >>= g) =
      (do
        hypre.check .parCsrMatrixSetNumNonzeros
        hypre.check .matvecCommPkgCreate
        g { result with matrix := some { matrix with hasCommPkg := true } }) := by
  unfold Hypre.finishParCsr
  simp only [Program.outcome_bind, Program.outcome_ofExcept, hpkg, Bool.false_eq_true, if_false,
    bind_assoc]
  rfl

omit [Inhabited V] in
/-- The diagonal block points at arrays in memory. -/
theorem handBlocks_live (build : Build) {L : LocalMatrix P V} (mem : RankMemory L) (diag : HypreCsr)
    (diagNnz offdNnz : ℤ) :
    let blocks := handBlocks build L mem diagNnz offdNnz (mem.heap.alloc .object)
    ∀ a ∈ (diag.setBlock blocks.diagRows.addr blocks.diagCols.addr blocks.diagValues.addr
      diagNnz).arrays, blocks.offdCols.heap.Live a := by
  intro blocks a ha
  have hplaced := handBlocks_placed build mem diagNnz offdNnz (mem.heap.alloc .object)
  have ha : a = blocks.diagRows.addr ∨ a = blocks.diagCols.addr ∨ a = blocks.diagValues.addr := by
    simpa [HypreCsr.arrays, HypreCsr.setBlock] using ha
  have hmem : a ∈ blocks.addrs mem := by
    rcases ha with rfl | rfl | rfl <;> simp [HandedBlocks.addrs]
  rcases hplaced.addr a hmem with hstorage | harray
  · exact hplaced.allocates.live a hstorage
  · exact hplaced.allocates.keeps.live ((Heap.Keeps.refl _).alloc.live (mem.live a harray))

omit [Inhabited V] in
/-- The remote columns are replaced alike in a memory that keeps the other one. -/
theorem endsLike_replaceColMap_bind {remote : ℕ} {numColsOffd : ℤ} {matrix : ParCsrMatrix}
    {heap : Heap (Buffer V)} {f : ParCsrMatrix → Constructing V α} {g : List ℤ → Except Error β}
    (hkeeps : heap.Keeps s.heap) (hlive : heap.Live remote)
    (hf : ∀ matrix' s' globals, matrix'.hasCommPkg = matrix.hasCommPkg → s'.policy = s.policy →
      s'.state = s.state → s'.result = { s.result with matrix := some matrix' } →
      EndsLike (f matrix') s' (g globals) Q) :
    EndsLike (replaceColMap build remote numColsOffd matrix >>= f) s (do
      allocateArray numColsOffd
      let globals ← ((ints heap remote).take (castSize numColsOffd)).mapM
        (toHypreBigInt build.bigBits)
      g globals) Q := by
  have hremote : ints s.heap remote = ints heap remote := ints_congr (by
    obtain ⟨b, hb⟩ := hlive
    rw [hb, hkeeps.read hb])
  simp only [replaceColMap, bind_assoc, pure_bind]
  refine .ofExcept_bind fun _ _ => .get_bind (.set_bind ?_)
  rw [hremote]
  exact .ofExcept_bind fun globals _ => .modify_bind (hf _ _ globals rfl rfl rfl rfl)

/-- The distributed importers. -/
theorem endsLike_buildDistributedParCsr {location : MemoryLocation} {L : LocalMatrix P V}
    {mem : RankMemory L} (hfaults : faults.OfHypre build hypre) (hheap : s.heap = mem.heap)
    (hstate : s.state = .new) :
    EndsLike (buildDistributedParCsr build hypre faults answer location L mem) s
      ((Hypre.buildDistributedParCsr build hypre location L mem s.policy :
        Program (mpi P) A Error _).outcome answer) fun _ => ImportedLike .matrix := by
  obtain ⟨heap, policy, log, result, vector, dummyB, dummyX, state⟩ := s
  subst hheap hstate
  unfold buildDistributedParCsr Hypre.buildDistributedParCsr
  by_cases hparts : L.rowPartition.any (·.hasOrderedParts)
  case neg =>
    simp only [hparts, Bool.not_false, if_true]
    rfl
  by_cases hcsr : L.diag.isCsr && L.offDiag.isCsr
  case neg =>
    simp only [hparts, hcsr, Bool.not_false, Bool.not_true, Bool.false_eq_true, if_true, if_false]
    rfl
  simp only [hparts, hcsr, Bool.not_true, Bool.false_eq_true, if_false, Program.outcome_bind,
    Program.outcome_ofExcept, localParCsr, bind_assoc]
  refine .ofExcept_bind fun globalRows hrows => .modify_bind ?_
  refine endsLike_setProcessPolicy_bind rfl fun policy => ?_
  refine .ofExcept_ok_bind (hfaults.mpi .scan) ?_
  refine .ofExcept_bind fun rowStart _ => .ofExcept_bind fun rowStop _ => .modifyGet_bind ?_
  refine .ofExcept_bind fun _ _ => .ofExcept_bind fun _ _ => .modifyGet_bind ?_
  refine endsLike_initializeMatrix_bind fun matrix s₁ hdiag hpkg hkeeps hpolicy hstate hresult => ?_
  let nnz (block : Block V) : ℤ := castInt build.intBits block.csr.values.length
  let blocks := handBlocks build L mem (nnz L.diag) (nnz L.offDiag) (mem.heap.alloc .object)
  have hlive := handBlocks_live build mem (HypreCsr.new (rowStop - rowStart) (rowStop - rowStart)
    (nnz L.diag)) (nnz L.diag) (nnz L.offDiag)
  have hrownnz := (congrArg (setRownnz hypre · s₁.heap) hdiag).trans
    (setRownnz_keeps hkeeps hlive)
  refine .get_bind (.set_bind (endsLike_reorderDiagFirst_bind hrownnz hkeeps hlive
    fun c hstore => ?_))
  have hfresh : blocks.Fresh mem := handBlocks_fresh _ _ _
  have hremote : mem.heap.Keeps (storeBlock (setRownnz hypre ((HypreCsr.new (rowStop - rowStart)
      (rowStop - rowStart) (nnz L.diag)).setBlock blocks.diagRows.addr blocks.diagCols.addr
      blocks.diagValues.addr (nnz L.diag)) blocks.offdCols.heap) c blocks.offdCols.heap) := by
    refine storeBlock_keeps hfresh.keeps ?_ ?_
    · rintro a ⟨⟩
      exact hfresh.cols_new
    · rintro a ⟨⟩
      exact hfresh.values_new
  refine endsLike_replaceColMap_bind hstore ⟨_, hremote.read mem.remote_stored⟩
    fun matrix' s₂ globals hpkg' hpolicy' hstate' hresult' => ?_
  simp only [pure_bind]
  rw [outcome_finishParCsr_bind rfl]
  refine endsLike_finishParCsr (hpkg'.trans hpkg)
    ⟨hpolicy'.trans hpolicy, ?_, hstate'.trans hstate, rfl⟩
  constructor <;> simp only [setMatrix, hresult', hresult] <;> rfl

/-! ## The setup -/

/-- The state of a setup, next to the policy and the matrix of the other model. -/
structure SettingUp (s : Construction V) (policy : PolicyState) (matrix : ParCsr) (device : Bool) :
    Prop where
  policy : s.policy = policy
  matrix : s.state.matrix.Like matrix
  device : s.state.device = device
  hierarchyInfo : s.state.hierarchyInfo = none

variable {policy : PolicyState} {matrix : ParCsr} {device : Bool} {f : Unit → Constructing V α}

omit [Inhabited V] in
/-- Only the program enters the collective call. -/
theorem endsLike_collective {comm : Comm} {op : MpiOp} {v : op.Data} {x : Constructing V α}
    {g : op.Data → Except Error β}
    (h : EndsLike x s (g (if comm = .matrix then answer op v
      else MpiOp.combine op (fun _ : Fin 1 => v) 0)) Q) :
    EndsLike x s ((collective comm op v : Program (mpi P) A Error op.Data).outcome answer >>= g)
      Q := by
  rw [outcome_collective]
  exact h

/-- A checked call that may make an object. -/
theorem endsLike_make_bind {call : HypreCall} {kind : ResourceKind}
    {hold : ℕ → Construction V → Construction V} {g : Unit → Except Error β}
    (h : SettingUp s policy matrix device)
    (hhold : ∀ a s, SettingUp s policy matrix device → SettingUp (hold a s) policy matrix device)
    (hf : ∀ s', SettingUp s' policy matrix device → EndsLike (f ()) s' (g ()) Q) :
    EndsLike (make hypre faults call kind hold >>= f) s (hypre.check call >>= g) Q := by
  by_cases hmake : hypre.code call = 0 ∨ faults.makes call
  · simp only [make, hmake, if_true, bind_assoc]
    exact .modify_bind (.ofExcept_bind fun _ _ => hf _ (hhold _ _
      ⟨h.policy, h.matrix, h.device, h.hierarchyInfo⟩))
  · simp only [make, hmake, if_false]
    exact .ofExcept_bind fun _ _ => hf _ h

theorem endsLike_placedVector (matrix : ParCsr) (device : Bool) {p : Process} {v : Operand}
    {comm : Comm} {rowStart localSize : ℤ} {values values' : ℕ} {location : MemoryLocation}
    {heap : Heap (Buffer V)}
    (hdata : ∀ v a a', hypre.check (.ijVectorSetData v a) = hypre.check (.ijVectorSetData v a'))
    (h : SettingUp s policy matrix device) :
    EndsLike (placedVector build hypre faults p v rowStart localSize values location) s
      ((PlacedVector.new build hypre v comm rowStart localSize values' location policy heap :
        Program (mpi P) A Error _).outcome answer) fun _ s' out =>
        SettingUp s' out.2.1 matrix device := by
  have hvector : ∀ {policy' : PolicyState} {s' : Construction V} (vector : PlacedVector),
      SettingUp s' policy' matrix device → SettingUp { s' with vector } policy' matrix device :=
    fun _ h => ⟨h.policy, h.matrix, h.device, h.hierarchyInfo⟩
  unfold placedVector PlacedVector.new
  simp only [Program.outcome_bind, Program.outcome_ofExcept]
  refine endsLike_setProcessPolicy_bind h.policy fun policy' => .onThrow ?_
  have h' : SettingUp { s with policy := policy' } policy' matrix device :=
    ⟨rfl, h.matrix, h.device, h.hierarchyInfo⟩
  unfold placeVector
  by_cases hrelease : build.release ≥ 23300
  · simp only [hrelease, if_true, Program.outcome_bind, Program.outcome_ofExcept]
    refine endsLike_make_bind h' (fun a s hs => hvector _ hs) fun s' hs => ?_
    refine .ofExcept_bind fun _ _ => .ofExcept_bind fun _ _ => ?_
    rw [hdata v values' values]
    refine .ofExcept_bind fun _ _ => endsLike_collective ?_
    refine .ofExcept_bind fun _ _ => .ofExcept_bind fun _ _ => ?_
    exact ⟨hs.policy, hs.matrix, hs.device, hs.hierarchyInfo⟩
  · simp only [hrelease, if_false]
    by_cases hnull : hypre.parVectorNull v
    · simp only [hnull, if_true]
      rfl
    · simp only [hnull, Bool.false_eq_true, if_false, Program.outcome_bind,
        Program.outcome_ofExcept]
      refine .modify_bind (.ofExcept_bind fun _ _ => ?_)
      unfold check
      cases hypre.check (.parVectorInitialize v) with
      | ok => exact ⟨rfl, h.matrix, h.device, h.hierarchyInfo⟩
      | error e => rfl

/-- MPI and the synchronization end a phase alike. -/
theorem endsLike_endOfPhase_bind {comm : Comm} {phase : ConstructorPhase}
    {g : Unit → Except Error β} (hfaults : faults.OfHypre build hypre)
    (hf : EndsLike (f ()) s (g ()) Q) :
    EndsLike (endOfPhase build hypre faults device phase >>= f) s
      ((Hypre.endOfPhase build hypre comm device : Program (mpi P) A Error _).outcome answer >>= g)
      Q := by
  unfold endOfPhase Hypre.endOfPhase
  by_cases hsync : build.gpu ∧ device
  · rw [if_pos hsync, if_pos hsync]
    simp only [bind_assoc, Program.outcome_bind, Program.outcome_ofExcept, hfaults.sync]
    exact .ofExcept_bind fun _ _ => .ofExcept_ok_bind (hfaults.mpi _) (endsLike_collective hf)
  · rw [if_neg hsync, if_neg hsync]
    exact .ofExcept_ok_bind (hfaults.mpi _) (endsLike_collective hf)

/-- The hierarchy is the same if the communicator of the matrix answers. -/
theorem endsLike_gridHierarchy {comm : Comm} {localRows : ℕ} (hfaults : faults.OfHypre build hypre)
    (hanswer : comm ≠ .matrix → ∀ op v, answer op v = MpiOp.combine op (fun _ : Fin 1 => v) 0) :
    EndsLike (gridHierarchy hypre faults answer localRows) s
      ((Hypre.gridHierarchy hypre comm localRows : Program (mpi P) A Error _).outcome answer)
      fun hierarchy s' hierarchy' => s' = s ∧ hierarchy = hierarchy' := by
  have hcomm : ∀ op v, (if comm = .matrix then answer op v
      else MpiOp.combine op (fun _ : Fin 1 => v) 0) = answer op v := by
    intro op v
    split
    · rfl
    · next h => exact (hanswer h op v).symm
  unfold gridHierarchy Hypre.gridHierarchy
  simp only [Program.outcome_bind]
  refine .ofExcept_ok_bind (hfaults.mpi _) (endsLike_collective ?_)
  rw [hcomm]
  split
  · rfl
  · simp only [Program.outcome_bind]
    refine .ofExcept_ok_bind (hfaults.mpi _) (endsLike_collective ?_)
    rw [hcomm]
    exact ⟨rfl, rfl⟩

variable {params : Parameters}

theorem endsLike_createSolvers_bind {y : Except Error β} (halike : AddressesAlike hypre params)
    (h : SettingUp s policy matrix device) {amg pcg : ℕ}
    (hf : ∀ s', SettingUp s' policy matrix device → EndsLike (f ()) s' y Q) :
    EndsLike (createSolvers hypre faults params device >>= f) s (do
      hypre.check .amgCreate
      configureAmg hypre params device
      callBack params.amgSetup amg
      hypre.check .pcgCreate
      configurePcg hypre params
      callBack params.krylovSetup pcg
      y) Q := by
  have hhold : ∀ {s' : Construction V} (amg pcg : Option ℕ), SettingUp s' policy matrix device →
      SettingUp { s' with state := { s'.state with amg, pcg } } policy matrix device :=
    fun _ _ h => ⟨h.policy, h.matrix, h.device, h.hierarchyInfo⟩
  simp only [createSolvers, bind_assoc]
  refine .get_bind (endsLike_make_bind h (fun a s' hs => hhold _ _ hs) fun s₁ h₁ => ?_)
  rw [halike.amgSetup amg s.heap.next]
  refine .ofExcept_bind fun _ _ => .ofExcept_bind fun _ _ => .get_bind ?_
  refine endsLike_make_bind h₁ (fun a s' hs => hhold _ _ hs) fun s₂ h₂ => ?_
  rw [halike.krylovSetup pcg s₁.heap.next]
  exact .ofExcept_bind fun _ _ => .ofExcept_bind fun _ _ => hf s₂ h₂

section
variable [Zero V] {p : Process}

/-- What the constructor has made of the state, next to what the other model returns. -/
structure GeneratedLike (s : Construction V) (out : PcgState × PolicyState × Heap (Buffer V)) :
    Prop where
  policy : s.policy = out.2.1
  matrix : s.state.matrix.Like out.1.matrix
  device : s.state.device = out.1.device
  hierarchyInfo : s.state.hierarchyInfo = out.1.hierarchyInfo

theorem endsLike_setUp {heap : Heap (Buffer V)} (hfaults : faults.OfHypre build hypre)
    (halike : AddressesAlike hypre params) (h : SettingUp s policy matrix false)
    (hanswer : matrix.comm ≠ .matrix →
      ∀ op v, answer op v = MpiOp.combine op (fun _ : Fin 1 => v) 0) :
    EndsLike (setUp build hypre faults answer p params) s
      ((Hypre.setUp build hypre params matrix policy heap :
        Program (mpi P) A Error _).outcome answer) fun _ => GeneratedLike := by
  unfold setUp Hypre.setUp
  refine .get_bind (.set_bind ?_)
  simp only [h.matrix.memoryLocation, h.matrix.numLocalRows, Program.outcome_bind,
    Program.outcome_ofExcept]
  generalize hdevice : decide (matrix.memoryLocation = .device) = device
  have hset : SettingUp { s with state := { s.state with device } } policy matrix device :=
    ⟨h.policy, h.matrix, rfl, h.hierarchyInfo⟩
  refine endsLike_createSolvers_bind halike hset fun s₁ h₁ => ?_
  simp only [createVectors, bind_assoc, h.matrix.memoryLocation, h.matrix.numLocalRows,
    h.matrix.rowStart]
  refine .get_bind (.set_bind (.bind (endsLike_placedVector matrix device halike.setData ?_) ?_))
  · exact ⟨h₁.policy, h₁.matrix, h₁.device, h₁.hierarchyInfo⟩
  rintro ⟨⟩ s₂ ⟨dummyB, policy₂, heap₂⟩ h₂
  refine .modify_bind (.bind (endsLike_placedVector matrix device halike.setData ?_) ?_)
  · exact ⟨h₂.policy, h₂.matrix, h₂.device, h₂.hierarchyInfo⟩
  rintro ⟨⟩ s₃ ⟨dummyX, policy₃, heap₃⟩ h₃
  refine .modify_bind ?_
  refine endsLike_endOfPhase_bind hfaults (endsLike_collective (.ofExcept_bind fun _ _ => ?_))
  refine endsLike_endOfPhase_bind hfaults (.modify_bind ?_)
  split
  · simp only [Program.outcome_bind]
    refine (endsLike_gridHierarchy hfaults hanswer).bind ?_
    rintro hierarchy s₄ hierarchy' ⟨rfl, rfl⟩
    exact ⟨h₃.policy, h₃.matrix, h₃.device, rfl⟩
  · exact ⟨h₃.policy, h₃.matrix, h₃.device, h₃.hierarchyInfo⟩

omit [Zero V] in
theorem endsLike_importMatrix {location : MemoryLocation} {systemMatrix : SystemMatrix P V}
    (hfaults : faults.OfHypre build hypre) (hheap : s.heap = systemMatrix.heap)
    (hstate : s.state = .new) :
    EndsLike (importMatrix build hypre faults answer location systemMatrix) s
      ((Hypre.importMatrix build hypre location s.policy systemMatrix :
        Program (mpi P) A Error _).outcome answer) fun _ s' out =>
        SettingUp s' out.2.1 out.1 false ∧
          ((∀ mtx mem, systemMatrix ≠ .csr mtx mem) → out.1.comm = .matrix) := by
  -- the state takes over what the importer has filled
  have hadopt : ∀ {comm : Comm} {s' : Construction V}
      {out : ParCsr × PolicyState × Heap (Buffer V)}, ImportedLike comm s' out → SettingUp
        { s' with
          result := s'.state.matrix
          state := { s'.state with matrix := s'.result } } out.2.1 out.1 false := by
    rintro comm s' out ⟨hpolicy, hresult, hstate, -⟩
    refine ⟨hpolicy, hresult, ?_, ?_⟩ <;> simp only [hstate] <;> rfl
  cases systemMatrix with
  | csr mtx mem =>
    unfold importMatrix Hypre.importMatrix
    rw [Program.outcome_ofExcept, ← bind_pure (Hypre.buildSerialParCsr ..)]
    refine (endsLike_buildSerialParCsr hheap hstate).bind fun _ s' out h => ?_
    exact ⟨hadopt h, fun hcsr => absurd rfl (hcsr mtx mem)⟩
  | distributed L mem =>
    unfold importMatrix Hypre.importMatrix
    rw [← bind_pure (Program.outcome ..)]
    refine (endsLike_buildDistributedParCsr hfaults hheap hstate).bind fun _ s' out h => ?_
    exact ⟨hadopt h, fun _ => h.comm⟩
  | other typeName size => rfl

/-- For the same answers, both models of the constructor throw the same exception, or both return
and have made of the state the same, but for addresses. A serial matrix is alone on its
communicator. -/
theorem generate_endsLike {location : MemoryLocation} {systemMatrix : SystemMatrix P V}
    (hfaults : faults.OfHypre build hypre) (halike : AddressesAlike hypre params)
    (hanswer : ∀ mtx mem, systemMatrix = .csr mtx mem →
      ∀ op v, answer op v = MpiOp.combine op (fun _ : Fin 1 => v) 0) :
    EndsLike (generate build hypre faults answer p location params systemMatrix)
      (.new systemMatrix.heap policy)
      ((Hypre.generate build hypre p location params systemMatrix policy :
        Program (mpi P) A Error _).outcome answer) fun _ => GeneratedLike := by
  unfold generate Hypre.generate
  by_cases hinit : p.libraryInitialized
  case neg =>
    simp only [hinit, Bool.not_false, if_true]
    rfl
  by_cases hsquare : systemMatrix.size.1 = systemMatrix.size.2
  case neg =>
    simp only [hinit, hsquare, Bool.not_true, Bool.false_eq_true, if_false, if_true, ne_eq,
      not_false_eq_true]
    rfl
  simp only [hinit, hsquare, Bool.not_true, Bool.false_eq_true, if_false, ne_eq, not_true_eq_false,
    Program.outcome_bind, Program.outcome_ofExcept]
  refine endsLike_setProcessPolicy_bind rfl fun policy' => ?_
  refine (endsLike_importMatrix hfaults rfl rfl).bind ?_
  rintro ⟨⟩ s' ⟨matrix, policy'', heap⟩ ⟨h, hcomm⟩
  refine endsLike_setUp hfaults halike h fun hself => ?_
  by_cases hcsr : ∃ mtx mem, systemMatrix = .csr mtx mem
  · obtain ⟨mtx, mem, rfl⟩ := hcsr
    exact hanswer mtx mem rfl
  · exact absurd (hcomm fun mtx mem h => hcsr ⟨mtx, mem, h⟩) hself

end

end Construction

end GinkgoTpl.Hypre
