import GinkgoTpl.Hypre.ImportContents
import GinkgoTpl.Hypre.Tracked

/-!
# The arrays that an imported matrix borrows

A matrix that an importer has built points at arrays of Ginkgo and at copies in the importer's
result, and all of them are in memory: `BuiltOver`.
-/

namespace GinkgoTpl.Hypre

open Sparse Memory Ginkgo Spmd

variable {P : ℕ} {V : Type}

/-! ## Ginkgo's arrays -/

def CsrArrays.all (a : CsrArrays) : List ℕ := [a.rowPtrs, a.colIdxs, a.values]

theorem CsrArrays.Stored.live {a : CsrArrays} {c : Csr V} {heap : Heap (Buffer V)}
    (h : a.Stored c heap) : ∀ x ∈ a.all, heap.Live x := by
  simp only [CsrArrays.all, List.forall_mem_cons, List.not_mem_nil, false_imp_iff, implies_true,
    and_true]
  exact ⟨⟨_, h.rowPtrs⟩, ⟨_, h.colIdxs⟩, ⟨_, h.values⟩⟩

/-- The arrays of both blocks. -/
def RankMemory.arrays {L : LocalMatrix P V} (mem : RankMemory L) : List ℕ :=
  mem.diag.all ++ mem.offDiag.all

theorem RankMemory.live {L : LocalMatrix P V} (mem : RankMemory L) :
    ∀ a ∈ mem.arrays, mem.heap.Live a := fun a ha =>
  (List.mem_append.mp ha).elim (mem.diag_stored.live a) (mem.offDiag_stored.live a)

/-! ## What a block reads -/

section
variable {heap heap' : Heap (Buffer V)}

theorem ints_congr {a : ℕ} (h : heap'.read a = heap.read a) : ints heap' a = ints heap a := by
  rw [ints, ints, h]

theorem reals_congr {a : ℕ} (h : heap'.read a = heap.read a) : reals heap' a = reals heap a := by
  rw [reals, reals, h]

theorem HypreCsr.view_congr {block : HypreCsr}
    (h : ∀ a ∈ block.arrays, heap'.read a = heap.read a) : block.view heap' = block.view heap := by
  simp only [HypreCsr.arrays, List.mem_append, Option.mem_toList, or_imp, forall_and] at h
  obtain ⟨⟨hi, hj⟩, hdata⟩ := h
  have harray : ∀ {β : Type} {read read' : ℕ → List β} {p : Option ℕ},
      (∀ a ∈ p, read' a = read a) → p.elim [] read' = p.elim [] read := by
    intro β read read' p h
    cases p with
    | none => rfl
    | some a => exact h a rfl
  rw [view, view, harray fun a ha => ints_congr (hi a ha),
    harray fun a ha => ints_congr (hj a ha), harray fun a ha => reals_congr (hdata a ha)]

/-- A memory that keeps the arrays of a block keeps what it describes. -/
theorem HypreCsr.view_keeps {block : HypreCsr} (hkeeps : heap.Keeps heap')
    (hlive : ∀ a ∈ block.arrays, heap.Live a) : block.view heap' = block.view heap :=
  view_congr fun a ha => by
    obtain ⟨b, hb⟩ := hlive a ha
    rw [hb, hkeeps.read hb]

end

/-! ## Copies in memory -/

/-- An array handed to hypre is a new copy in the wrapper's storage. -/
structure Handed.Copied (H : Handed V) (heap : Heap (Buffer V)) : Prop where
  allocates : heap.Allocates H.heap [H.addr]
  storage : H.storage = some H.addr

/-- An array handed to hypre is the one in the wrapper's storage, if there is one, and otherwise
the array at `data` itself. -/
def Handed.From (H : Handed V) (data : ℕ) : Prop :=
  H.storage = some H.addr ∨ H.storage = none ∧ H.addr = data

structure Handed.Placed (H : Handed V) (heap : Heap (Buffer V)) (data : ℕ) : Prop where
  allocates : heap.Allocates H.heap H.storage.toList
  addr : H.From data

section
variable {build : Build} {data : ℕ} {heap : Heap (Buffer V)}

theorem Handed.Copied.placed {H : Handed V} (h : H.Copied heap) (data : ℕ) :
    H.Placed heap data := by
  refine ⟨?_, .inl h.storage⟩
  simpa [h.storage] using h.allocates

theorem Handed.From.addr_mem {H : Handed V} (h : H.From data) :
    H.addr ∈ H.storage.toList ∨ H.addr = data :=
  h.imp (fun hstorage => by simp [hstorage]) And.right

/-- What is in the storage is handed to hypre. -/
theorem Handed.From.storage {H : Handed V} (h : H.From data) :
    ∀ a ∈ H.storage.toList, a = H.addr := by
  rcases h with hstorage | ⟨hstorage, -⟩ <;> simp [hstorage]

theorem Handed.Placed.live {H : Handed V} (h : H.Placed heap data) (hdata : heap.Live data) :
    H.heap.Live H.addr := by
  rcases h.addr.addr_mem with hstorage | hdata'
  · exact h.allocates.live _ hstorage
  · exact hdata' ▸ h.allocates.keeps.live hdata

theorem asHypreInt_copied (h : ¬ build.sameInt) (size : ℕ) :
    (asHypreInt build data size heap).Copied heap := by
  rw [asHypreInt, if_neg h]
  exact ⟨.alloc, rfl⟩

theorem asHypreInt_placed (size : ℕ) : (asHypreInt build data size heap).Placed heap data := by
  by_cases h : build.sameInt
  · rw [asHypreInt, if_pos h]
    exact ⟨.refl heap, .inr ⟨rfl, rfl⟩⟩
  · exact (asHypreInt_copied h size).placed data

theorem copyAsHypreInt_copied (size : ℕ) : (copyAsHypreInt build data size heap).Copied heap := by
  unfold copyAsHypreInt
  split
  · exact ⟨.alloc, rfl⟩
  · rename_i h
    exact asHypreInt_copied h size

theorem copyValues_copied (size : ℕ) : (copyValues data size heap).Copied heap :=
  ⟨.alloc, rfl⟩

end

/-! ## The blocks of a rank -/

/-- The copies of a rank in the order in which they are made. -/
def HandedBlocks.storages (B : HandedBlocks V) : List ℕ :=
  B.diagValues.storage.toList ++ B.diagRows.storage.toList ++ B.diagCols.storage.toList ++
    B.offdRows.storage.toList ++ B.offdCols.storage.toList

/-- Where the arrays of a rank are. -/
structure HandedBlocks.Placed {L : LocalMatrix P V} (B : HandedBlocks V) (mem : RankMemory L)
    (heap : Heap (Buffer V)) : Prop where
  allocates : heap.Allocates B.offdCols.heap B.storages
  diagValues : B.diagValues.storage = some B.diagValues.addr
  diagCols : B.diagCols.storage = some B.diagCols.addr
  diagRows : B.diagRows.From mem.diag.rowPtrs
  offdRows : B.offdRows.From mem.offDiag.rowPtrs
  offdCols : B.offdCols.From mem.offDiag.colIdxs

theorem handBlocks_placed (build : Build) {L : LocalMatrix P V} (mem : RankMemory L)
    (diagNnz offdNnz : ℤ) (heap : Heap (Buffer V)) :
    (handBlocks build L mem diagNnz offdNnz heap).Placed mem heap := by
  unfold handBlocks
  extract_lets numLocalRows diagValues diagRows diagCols offdRows offdCols
  have h₀ : diagValues.Copied heap := copyValues_copied _
  have h₁ : diagRows.Placed diagValues.heap mem.diag.rowPtrs := asHypreInt_placed _
  have h₂ : diagCols.Copied diagRows.heap := copyAsHypreInt_copied _
  have h₃ : offdRows.Placed diagCols.heap mem.offDiag.rowPtrs := asHypreInt_placed _
  have h₄ : offdCols.Placed offdRows.heap mem.offDiag.colIdxs := asHypreInt_placed _
  exact {
    allocates := ((((h₀.placed 0).allocates.trans h₁.allocates).trans (h₂.placed 0).allocates).trans
      h₃.allocates).trans h₄.allocates
    diagValues := h₀.storage
    diagCols := h₂.storage
    diagRows := h₁.addr
    offdRows := h₃.addr
    offdCols := h₄.addr }

/-- The arrays that the blocks of the matrix point at. -/
def HandedBlocks.addrs {L : LocalMatrix P V} (B : HandedBlocks V) (mem : RankMemory L) : List ℕ :=
  [B.diagRows.addr, B.diagCols.addr, B.diagValues.addr, B.offdRows.addr, B.offdCols.addr,
    mem.offDiag.values]

/-- These are the copies and arrays of Ginkgo. -/
theorem HandedBlocks.Placed.addr {L : LocalMatrix P V} {B : HandedBlocks V} {mem : RankMemory L}
    {heap : Heap (Buffer V)} (h : B.Placed mem heap) :
    ∀ a ∈ B.addrs mem, a ∈ B.storages ∨ a ∈ mem.arrays := by
  simp only [HandedBlocks.addrs, List.forall_mem_cons, List.not_mem_nil, false_imp_iff,
    implies_true, and_true, HandedBlocks.storages, RankMemory.arrays, CsrArrays.all]
  refine ⟨?_, ?_, ?_, ?_, ?_, ?_⟩
  · exact h.diagRows.addr_mem.imp (by simp +contextual) (by simp +contextual)
  · simp [h.diagCols]
  · simp [h.diagValues]
  · exact h.offdRows.addr_mem.imp (by simp +contextual) (by simp +contextual)
  · exact h.offdCols.addr_mem.imp (by simp +contextual) (by simp +contextual)
  · simp

theorem HandedBlocks.Placed.storages_subset {L : LocalMatrix P V} {B : HandedBlocks V}
    {mem : RankMemory L} {heap : Heap (Buffer V)} (h : B.Placed mem heap) :
    ∀ a ∈ B.storages, a ∈ B.addrs mem := by
  intro a ha
  simp only [HandedBlocks.storages, h.diagValues, h.diagCols, List.mem_append] at ha
  simp only [HandedBlocks.addrs]
  rcases ha with (((ha | ha) | ha) | ha) | ha
  · simp_all
  · simp [h.diagRows.storage a ha]
  · simp_all
  · simp [h.offdRows.storage a ha]
  · simp [h.offdCols.storage a ha]

/-- Where the arrays of the serial import are. -/
structure SerialArrays.Placed {c : Csr V} (B : SerialArrays V) (mem : SerialMemory c) : Prop where
  allocates : mem.heap.Allocates B.heap
    ([mem.heap.next] ++ B.rowPtrs.storage.toList ++ [B.colIdxs.addr] ++ [B.values.addr])
  rowPtrs : B.rowPtrs.From mem.arrays.rowPtrs
  colIdxs : B.colIdxs.storage = some B.colIdxs.addr
  values : B.values.storage = some B.values.addr

theorem handSerial_placed (build : Build) {c : Csr V} (mem : SerialMemory c) :
    (handSerial build mem).Placed mem := by
  unfold handSerial
  extract_lets rowPtrs colIdxs values
  have h₀ : mem.heap.Allocates (mem.heap.alloc .object) [mem.heap.next] := .alloc
  have h₁ : rowPtrs.Placed (mem.heap.alloc .object) mem.arrays.rowPtrs := asHypreInt_placed _
  have h₂ : colIdxs.Copied rowPtrs.heap := copyAsHypreInt_copied _
  have h₃ : values.Copied colIdxs.heap := copyValues_copied _
  exact {
    allocates := ((h₀.trans h₁.allocates).trans h₂.allocates).trans h₃.allocates
    rowPtrs := h₁.addr
    colIdxs := h₂.storage
    values := h₃.storage }

theorem storeBlock_keeps {before heap : Heap (Buffer V)} {block : HypreCsr} {c : Csr V}
    (hkeeps : before.Keeps heap) (hj : ∀ a, block.j = some a → before.next ≤ a)
    (hdata : ∀ a, block.data = some a → before.next ≤ a) :
    before.Keeps (storeBlock block c heap) := by
  have hcols : before.Keeps (block.j.elim heap fun a => heap.write a (.ints c.colIdxs)) := by
    cases hblock : block.j with
    | none => exact hkeeps
    | some a => exact hkeeps.write (hj a hblock)
  unfold storeBlock
  cases hblock : block.data with
  | none => exact hcols
  | some a => exact hcols.write (hdata a hblock)

/-- Storing a block in two memories, one of which keeps the other. -/
theorem storeBlock_keeps_storeBlock {heap heap' : Heap (Buffer V)} {block : HypreCsr}
    (hkeeps : heap.Keeps heap') (hlive : ∀ a ∈ block.arrays, heap.Live a) (c : Csr V) :
    (storeBlock block c heap).Keeps (storeBlock block c heap') := by
  unfold storeBlock
  cases hj : block.j with
  | none =>
    cases hdata : block.data with
    | none => exact hkeeps
    | some a => exact hkeeps.write_both (hlive a (by simp [HypreCsr.arrays, hdata])).lt_next
  | some a =>
    have hcols := hkeeps.write_both (b := .ints c.colIdxs)
      (hlive a (by simp [HypreCsr.arrays, hj])).lt_next
    cases hdata : block.data with
    | none => exact hcols
    | some a' =>
      exact hcols.write_both (hlive a' (by simp [HypreCsr.arrays, hdata])).write.lt_next

theorem storeBlock_live {heap : Heap (Buffer V)} {a : ℕ} (block : HypreCsr) (c : Csr V)
    (ha : heap.Live a) : (storeBlock block c heap).Live a := by
  have hcols : (block.j.elim heap fun a => heap.write a (.ints c.colIdxs)).Live a := by
    cases block.j with
    | none => exact ha
    | some a' => exact ha.write
  unfold storeBlock
  cases block.data with
  | none => exact hcols
  | some a' => exact hcols.write

theorem storeBlock_allocates {before heap : Heap (Buffer V)} {l : List ℕ} {block : HypreCsr}
    {c : Csr V} (h : before.Allocates heap l) (hj : ∀ a, block.j = some a → a ∈ l)
    (hdata : ∀ a, block.data = some a → a ∈ l) :
    before.Allocates (storeBlock block c heap) l where
  keeps := storeBlock_keeps h.keeps (fun a ha => h.fresh a (hj a ha))
    fun a ha => h.fresh a (hdata a ha)
  nodup := h.nodup
  fresh := h.fresh
  live a ha := storeBlock_live block c (h.live a ha)

/-! ## What an importer has built -/

/-- The buffers of the wrapper's own arrays. -/
def ParCsr.buffers (result : ParCsr) : List ℕ :=
  result.diagRowPtrs.toList ++ result.diagColIdxs.toList ++ result.diagValues.toList ++
    result.offdRowPtrs.toList ++ result.offdColIdxs.toList

theorem ParCsr.matrix_of_borrowed {result : ParCsr} {a : ℕ} (h : a ∈ result.borrowed) :
    result.matrix.isSome := by
  unfold ParCsr.borrowed at h
  split at h
  · rename_i hmatrix
    rw [hmatrix]
    rfl
  · cases h

/-- What is freed with the object: the matrix, the arrays that hypre frees with it, and the
buffers. -/
def ParCsr.owns (result : ParCsr) : List ℕ :=
  (result.matrix.map ParCsrMatrix.handle).toList ++ result.ownArrays ++ result.buffers

/-- An importer has built a matrix over the system matrix at `system`, which is stored in
`arrays`. -/
structure ParCsr.BuiltOver (result : ParCsr) (distributed : Bool) (system : ℕ) (arrays : List ℕ)
    (before heap : Heap (Buffer V)) : Prop where
  distributed : result.distributed = distributed
  systemMatrix : result.systemMatrix = some system
  matrix : result.matrix.isSome
  allocates : before.Allocates heap result.owns
  borrowed : ∀ a ∈ result.borrowed, a ∈ result.buffers ∨ a ∈ arrays
  buffers : ∀ a ∈ result.buffers, a ∈ result.borrowed

section
variable [Inhabited V] {build : Build} {hypre : Lib V} {location : MemoryLocation}

theorem buildSerialParCsr_builtOver {systemMatrix : Block V} {mem : SerialMemory systemMatrix.csr}
    {policy : PolicyState} {out : ParCsr × PolicyState × Heap (Buffer V)}
    (h : buildSerialParCsr build hypre location systemMatrix mem policy = .ok out) :
    out.1.BuiltOver false mem.systemMatrix mem.arrays.all mem.heap out.2.2 := by
  obtain ⟨policy', heap, hreorder, rfl⟩ := buildSerialParCsr_eq_ok h
  generalize hset : handSerial build mem = B at hreorder ⊢
  have hB := hset ▸ handSerial_placed build mem
  obtain ⟨c, rfl⟩ := reorderDiagFirst_store hreorder
  have hstore : mem.heap.Allocates (storeBlock (setRownnz hypre (B.block build systemMatrix.csr)
      B.heap) c B.heap) ([mem.heap.next] ++ B.rowPtrs.storage.toList ++ [B.colIdxs.addr] ++
        [B.values.addr]) := by
    refine storeBlock_allocates hB.allocates ?_ ?_ <;>
    · rintro a ⟨⟩
      simp
  refine ⟨rfl, rfl, rfl, ?_, ?_, ?_⟩
  · refine hstore.perm (.of_eq ?_)
    simp [ParCsr.owns, ParCsr.ownArrays, ParCsr.buffers, ParCsrMatrix.create,
      HypreCsr.frees, HypreCsr.new, hB.colIdxs, hB.values]
  · intro a ha
    have ha : a = B.rowPtrs.addr ∨ a = B.colIdxs.addr ∨ a = B.values.addr := by
      simpa [ParCsr.borrowed, HypreCsr.arrays, SerialArrays.block, setRownnz, HypreCsr.setBlock]
        using ha
    simp only [ParCsr.buffers, hB.colIdxs, hB.values, CsrArrays.all]
    rcases ha with rfl | rfl | rfl
    · exact hB.rowPtrs.addr_mem.imp (by simp +contextual) (by simp +contextual)
    · simp
    · simp
  · intro a ha
    have ha : a = B.rowPtrs.addr ∨ a = B.colIdxs.addr ∨ a = B.values.addr := by
      simp only [ParCsr.buffers, hB.colIdxs, hB.values, List.mem_append] at ha
      rcases ha with (((ha | ha) | ha) | ha) | ha
      · exact .inl (hB.rowPtrs.storage a ha)
      all_goals simp_all
    simpa [ParCsr.borrowed, HypreCsr.arrays, SerialArrays.block, setRownnz, HypreCsr.setBlock]
      using ha

variable {A : Type} {L : LocalMatrix P V} {mem : RankMemory L}
  {answer : (op : (mpi P).Op) → (mpi P).In op → (mpi P).Out op}

omit [Inhabited V] in
theorem setBlocks_placed {result : ParCsr} {rowStart rowStop : ℤ} {matrix : ParCsrMatrix}
    {B : HandedBlocks V} (h : setBlocks build L mem result rowStart rowStop = (matrix, B)) :
    matrix.handle = mem.heap.next ∧ B.Placed mem (mem.heap.alloc .object) := by
  cases h
  exact ⟨rfl, handBlocks_placed ..⟩

theorem localParCsr_builtOver {globalRows rowEnd : ℤ} {result : ParCsr} {matrix : ParCsrMatrix}
    {heap : Heap (Buffer V)} (pkg : Bool)
    (h : localParCsr build hypre L mem (beforeScan build location L mem globalRows) rowEnd =
      .ok (result, matrix, heap)) :
    ParCsr.BuiltOver { result with matrix := some { matrix with hasCommPkg := pkg } } true
      mem.systemMatrix mem.arrays mem.heap heap := by
  obtain ⟨matrix₀, B, heap', hset, hreorder, hout⟩ := localParCsr_eq_ok h
  have hat : PointsAt build mem matrix₀ B := setBlocks_pointsAt hset
  obtain ⟨hhandle, hB⟩ := setBlocks_placed hset
  cases hout
  obtain ⟨c, rfl⟩ := reorderDiagFirst_store hreorder
  generalize hdiag : setRownnz hypre matrix₀.diag B.offdCols.heap = diag
  generalize hoffd : setRownnz hypre matrix₀.offd B.offdCols.heap = offd
  have hi : diag.i = some B.diagRows.addr := hdiag ▸ hat.diag_i
  have hj : diag.j = some B.diagCols.addr := hdiag ▸ hat.diag_j
  have hdata : diag.data = some B.diagValues.addr := hdiag ▸ hat.diag_data
  have hoi : offd.i = some B.offdRows.addr := hoffd ▸ hat.offd_i
  have hoj : offd.j = some B.offdCols.addr := hoffd ▸ hat.offd_j
  have hodata : offd.data = some mem.offDiag.values := hoffd ▸ hat.offd_data
  have hstore : mem.heap.Allocates (storeBlock diag c B.offdCols.heap)
      ([mem.heap.next] ++ B.storages) := by
    refine storeBlock_allocates (Heap.Allocates.alloc.trans hB.allocates) ?_ ?_
    · rintro a ha
      cases hj.symm.trans ha
      simp [HandedBlocks.storages, hB.diagCols]
    · rintro a ha
      cases hdata.symm.trans ha
      simp [HandedBlocks.storages, hB.diagValues]
  have hstorages (a : ℕ) : a ∈ B.storages ↔ a ∈ ParCsr.buffers { beforeScan build location L mem
      globalRows with diagRowPtrs := B.diagRows.storage, diagColIdxs := B.diagCols.storage,
                      diagValues := B.diagValues.storage, offdRowPtrs := B.offdRows.storage,
                      offdColIdxs := B.offdCols.storage } := by
    simp only [HandedBlocks.storages, ParCsr.buffers, List.mem_append]
    tauto
  refine ⟨rfl, rfl, rfl, ?_, fun a ha => ?_, fun a ha => ?_⟩
  · refine (hstore.trans .alloc).perm (List.perm_iff_count.mpr fun a => ?_)
    simp only [ParCsr.owns, ParCsr.ownArrays, ParCsr.buffers, HandedBlocks.storages, hhandle,
      beforeScan, if_true, Option.map_some, Option.toList_some, List.count_append, List.count_nil]
    omega
  · refine (hB.addr a ?_).imp_left (hstorages a).mp
    simpa [ParCsr.borrowed, HypreCsr.arrays, HandedBlocks.addrs, hi, hj, hdata, hoi, hoj, hodata,
      beforeScan] using ha
  · have hmem := hB.storages_subset a ((hstorages a).mpr ha)
    simpa [ParCsr.borrowed, HypreCsr.arrays, HandedBlocks.addrs, hi, hj, hdata, hoi, hoj, hodata,
      beforeScan] using hmem

theorem buildDistributedParCsr_builtOver {policy : PolicyState}
    {out : ParCsr × PolicyState × Heap (Buffer V)}
    (h : (buildDistributedParCsr build hypre location L mem policy :
      Program (mpi P) A Error _).outcome answer = .ok out) :
    out.1.BuiltOver true mem.systemMatrix mem.arrays mem.heap out.2.2 := by
  unfold buildDistributedParCsr at h
  split at h
  · cases h
  split at h
  · cases h
  simp only [Program.outcome_bind, Program.outcome_ofExcept] at h
  obtain ⟨globalRows, -, h⟩ := bind_eq_ok.mp h
  obtain ⟨policy', -, h⟩ := bind_eq_ok.mp h
  obtain ⟨rowEnd, -, h⟩ := bind_eq_ok.mp h
  obtain ⟨⟨result, matrix, heap⟩, hlocal, h⟩ := bind_eq_ok.mp h
  obtain ⟨result', hfinish, h⟩ := bind_eq_ok.mp h
  obtain ⟨pkg, rfl⟩ := ((wp_finishParCsr _ _ _).trace answer).2 _ hfinish
  cases h
  exact localParCsr_builtOver pkg hlocal

end

end GinkgoTpl.Hypre
