import GinkgoTpl.Ginkgo.Read
import GinkgoTpl.Petsc.Import

/-!
# The PETSc import is faithful

All ranks together import the stored entries of the matrix: `buildDistributedCoo_faithful` shows
that the triplets of all ranks are a permutation of the entries, that each rank has the triplets
of its rows, and that the ranges of rows that the scan yields are the parts of the partition.
-/

namespace GinkgoTpl.Petsc

open Sparse Ginkgo Spmd

variable {P : ℕ} {A V : Type} [Inhabited V] {bits : ℕ}

/-- With global columns that a map of the local columns gives, a block's triplets are its entries
in global numbers. -/
theorem blockTriplets_map {block : Csr V} (h : block.Wf) (rowOffset : ℤ) (f : ℤ → ℤ) :
    blockTriplets block rowOffset (block.colIdxs.map f) =
      block.entries.map fun e => (rowOffset + e.1, f e.2.1, e.2.2) := by
  simp only [blockTriplets, Csr.entries, List.map_map]
  refine List.map_congr_left fun p hp => ?_
  obtain ⟨hi, hk⟩ := Csr.mem_positions.mp hp
  have hlt := h.span_lt hi hk
  simp [Csr.entryAt, hlt]

/-- The triplets of both blocks of a rank whose first row is `rowStart`. -/
def rankTriplets (L : LocalMatrix P V) (rowStart : ℤ) : List (ℤ × ℤ × V) :=
  blockTriplets L.diag.csr rowStart (L.imap.mapToGlobal L.diag.csr.colIdxs .«local») ++
    blockTriplets L.offDiag.csr rowStart (L.imap.mapToGlobal L.offDiag.csr.colIdxs .nonLocal)

theorem cooFromRow_eq_ok {L : LocalMatrix P V} {rowStart : ℤ} {coo : CooData V} :
    cooFromRow bits L rowStart = .ok coo ↔ IntFits bits L.diag.csr.numRows ∧
      (∀ t ∈ rankTriplets L rowStart, TripletFits bits t) ∧
      coo = CooData.append ⟨.matrix, true, L.diag.csr.numRows, [], [], []⟩
        (rankTriplets L rowStart) := by
  simp only [cooFromRow, bind_eq_ok, toPetscInt_eq_ok, appendBlock_eq_ok, rankTriplets,
    List.forall_mem_append, ← CooData.append_append]
  constructor
  · rintro ⟨_, ⟨h, rfl⟩, _, ⟨h1, rfl⟩, h2, rfl⟩
    exact ⟨h, ⟨h1, h2⟩, rfl⟩
  · rintro ⟨h, ⟨h1, h2⟩, rfl⟩
    exact ⟨_, ⟨h, rfl⟩, _, ⟨h1, rfl⟩, h2, rfl⟩

/-! ## One rank -/

section
variable {M : DistMatrix P V}

/-- The blocks of a rank hold the entries of its rows in global numbers. -/
theorem rankTriplets_perm (h : M.rowPart.hasOrderedParts) (r : Fin P) :
    (rankTriplets (M.rank r) (M.rowPart.start r)).Perm
      ((rowsOf M.entries M.rowPart r).map Entry.triplet) := by
  have hread := M.read r
  let shift (e : ℕ × ℤ × V) : ℤ × ℤ × V := ((M.rowPart.start r : ℤ) + e.1, e.2.1, e.2.2)
  have hblocks := (M.globalize_perm r).map shift
  rw [List.map_append, List.map_map, List.map_map, List.map_map] at hblocks
  refine .trans (.of_eq ?_) (hblocks.trans (.of_eq ?_))
  · simp only [rankTriplets, IndexMap.mapToGlobal, blockTriplets_map hread.diag_wf,
      blockTriplets_map hread.offDiag_wf]
    rfl
  · refine List.map_congr_left fun e he => ?_
    obtain ⟨he, ho⟩ := List.mem_filter.mp he
    have hrow := M.rowPart.start_add_localIndex h (M.rowPart_size ▸ (M.entries_lt e he).1)
    rw [of_decide_eq_true ho] at hrow
    simp only [Function.comp_apply, shift, Entry.localize, Entry.triplet]
    rw [← Nat.cast_add, hrow]

/-- If the import returns on all ranks, the partition is ordered, the ranks have met in one scan
of the numbers of rows, and each has appended its blocks from its first row. -/
theorem buildDistributedCoo_cooFromRow {Rs : List (Round (mpi P))} {as : Fin P → List A}
    {coos : Fin P → CooData V}
    (h : Together (fun r => buildDistributedCoo bits (M.rank r)) Rs as fun r => .ret (coos r))
    (r : Fin P) : M.rowPart.hasOrderedParts ∧
      Rs = [⟨MpiOp.scan, fun s => (M.rowPart.partSize s : ℤ)⟩] ∧
      cooFromRow bits (M.rank r) (M.rowPart.start r) = .ok (coos r) := by
  have key : ∀ s, M.rowPart.hasOrderedParts ∧ ∃ vs, Rs = [⟨MpiOp.scan, vs⟩] ∧
      vs s = (M.rowPart.partSize s : ℤ) ∧ cooFromRow bits (M.rank s)
        (MpiOp.scanSum vs s - M.rowPart.partSize s) = .ok (coos s) := by
    intro s
    have hs := h s
    simp only [buildDistributedCoo, (M.read s).rowPartition, (M.read s).diag_rows,
      Option.any_some] at hs
    by_cases hord : M.rowPart.hasOrderedParts
    · simp only [hord, Bool.not_true, Bool.false_eq_true, if_false, mpiScan_bind] at hs
      obtain ⟨vs, Rs', rfl, hvs, hs⟩ := hs.call_inv .ret
      obtain ⟨hcoo, rfl, -⟩ := hs.ofExcept_inv
      exact ⟨hord, vs, rfl, hvs, hcoo⟩
    · simp only [hord, Bool.not_false, if_true] at hs
      exact absurd hs Leads.not_raise_ret
  obtain ⟨hord, vs, hRs, -, hcoo⟩ := key r
  have hvs : vs = fun s : Fin P => (M.rowPart.partSize s : ℤ) := by
    funext s
    obtain ⟨-, vs', hRs', hs, -⟩ := key s
    rw [hRs] at hRs'
    cases hRs'
    exact hs
  refine ⟨hord, hvs ▸ hRs, ?_⟩
  rw [hvs, MpiOp.scanSum_eq_sum_range fun s => (M.rowPart.partSize s : ℤ),
    ← Ginkgo.Partition.start_eq_sum, Ginkgo.Partition.start_succ] at hcoo
  simpa using hcoo

end

/-! ## All ranks -/

/-- The triplets of the ranks describe the matrix with the given entries, and each rank has those
of the rows that the partition gives to it. -/
structure CooFaithful (rowPart : Ginkgo.Partition P) (entries : List (Entry V))
    (coos : Fin P → CooData V) : Prop where
  perm : ((List.finRange P).flatMap fun r => (coos r).triplets).Perm (entries.map Entry.triplet)
  owned : ∀ r, ∀ t ∈ (coos r).triplets, ∃ g < rowPart.size, t.1 = g ∧ rowPart.owner g = r
  /-- The ranges of rows that the scan of the numbers of rows yields. -/
  tiles : rowPart.Tiles
    (fun r => MpiOp.scanSum (fun s => (coos s).numLocalRows) r - (coos r).numLocalRows)
    fun r => (coos r).numLocalRows
  lengths : ∀ r, (coos r).rows.length = (coos r).cols.length ∧
    (coos r).cols.length = (coos r).values.length

omit [Inhabited V] in
/-- Triplets that on every rank are those of its rows are faithful. -/
theorem CooFaithful.of_ranks {rowPart : Ginkgo.Partition P} {entries : List (Entry V)}
    {coos : Fin P → CooData V} {header : Fin P → CooData V} {ts : Fin P → List (ℤ × ℤ × V)}
    (hord : rowPart.hasOrderedParts) (hlt : ∀ e ∈ entries, e.row < rowPart.size)
    (hcoos : ∀ r, coos r = (header r).append (ts r))
    (hheader : ∀ r, (header r).rows = [] ∧ (header r).cols = [] ∧ (header r).values = [] ∧
      (header r).numLocalRows = rowPart.partSize r)
    (hts : ∀ r, (ts r).Perm ((rowsOf entries rowPart r).map Entry.triplet)) :
    CooFaithful rowPart entries coos := by
  have htriplets : ∀ r, (coos r).triplets = ts r := fun r => by
    obtain ⟨hr, hc, hv, -⟩ := hheader r
    rw [hcoos, CooData.triplets_append hr hc hv]
  have hrows : ∀ r, (coos r).numLocalRows = rowPart.partSize r := fun r => by
    rw [hcoos]; exact (hheader r).2.2.2
  refine ⟨?_, fun r t ht => ?_, ?_, fun r => ?_⟩
  · simp only [htriplets]
    refine (List.Perm.flatMap_left _ fun r _ => hts r).trans ?_
    rw [← List.map_flatMap]
    exact (rowsOf_perm entries rowPart hlt).map _
  · rw [htriplets] at ht
    obtain ⟨e, he, rfl⟩ := List.mem_map.mp ((hts r).mem_iff.mp ht)
    obtain ⟨he, ho⟩ := List.mem_filter.mp he
    exact ⟨e.row, hlt e he, rfl, of_decide_eq_true ho⟩
  · have hstart : (fun r => MpiOp.scanSum (fun s => (coos s).numLocalRows) r -
        (coos r).numLocalRows) = fun r : Fin P => (rowPart.start r : ℤ) := by
      funext r
      simp only [hrows]
      rw [MpiOp.scanSum_eq_sum_range fun s => (rowPart.partSize s : ℤ),
        ← Ginkgo.Partition.start_eq_sum,
        Ginkgo.Partition.start_succ]
      simp
    rw [hstart, show (fun r => (coos r).numLocalRows) = _ from funext hrows]
    exact Ginkgo.Partition.tiles hord
  · obtain ⟨hr, hc, hv, -⟩ := hheader r
    simp [hcoos, CooData.append, hr, hc, hv]

omit [Inhabited V] in
/-- The entries of a matrix whose size fits into `PetscInt` fit. -/
theorem tripletFits_of_lt {n : ℕ} (h : IntFits bits n) {e : Entry V}
    (he : e.row < n ∧ e.col < n) : TripletFits bits e.triplet :=
  ⟨h.of_le (Int.natCast_nonneg _) (Int.ofNat_le.mpr he.1.le),
    h.of_le (Int.natCast_nonneg _) (Int.ofNat_le.mpr he.2.le)⟩

/-- What the ranks return is faithful. -/
theorem buildDistributedCoo_faithful {M : DistMatrix P V} {Rs : List (Round (mpi P))}
    {as : Fin P → List A}
    {coos : Fin P → CooData V}
    (h : Together (fun r => buildDistributedCoo bits (M.rank r)) Rs as fun r => .ret (coos r)) :
    CooFaithful M.rowPart M.entries coos := by
  rcases Nat.eq_zero_or_pos P with rfl | hP
  · have hnil : M.entries = [] := List.eq_nil_iff_forall_not_mem.mpr fun e he =>
      absurd (M.rowPart.owner_lt e.row (M.rowPart_size ▸ (M.entries_lt e he).1)) (Nat.not_lt_zero _)
    exact ⟨by simp [hnil], nofun, ⟨nofun, nofun, nofun, nofun, nofun⟩, nofun⟩
  have hord := (buildDistributedCoo_cooFromRow h ⟨0, hP⟩).1
  have hcoo := fun r => cooFromRow_eq_ok.mp (buildDistributedCoo_cooFromRow h r).2.2
  exact .of_ranks hord (fun e he => M.rowPart_size ▸ (M.entries_lt e he).1)
    (fun r => (hcoo r).2.2) (fun r => ⟨rfl, rfl, rfl, by rw [(M.read r).diag_rows]⟩)
    (fun r => rankTriplets_perm hord r)

/-- What a rank returns are its own entries in global numbers. -/
theorem buildDistributedCoo_triplets {M : DistMatrix P V} {Rs : List (Round (mpi P))}
    {as : Fin P → List A} {coos : Fin P → CooData V}
    (h : Together (fun r => buildDistributedCoo bits (M.rank r)) Rs as fun r => .ret (coos r))
    (r : Fin P) :
    (coos r).triplets.Perm ((rowsOf M.entries M.rowPart r).map Entry.triplet) := by
  obtain ⟨hord, -, hcoo⟩ := buildDistributedCoo_cooFromRow h r
  rw [(cooFromRow_eq_ok.mp hcoo).2.2, CooData.triplets_append rfl rfl rfl]
  exact rankTriplets_perm hord r

/-- The numbers of rows of the ranks and the indices of the entries fit into `PetscInt`. -/
structure InRange (bits : ℕ) (M : DistMatrix P V) : Prop where
  rows : ∀ r : Fin P, IntFits bits (M.rowPart.partSize r)
  entries : ∀ e ∈ M.entries, TripletFits bits e.triplet

theorem inRange_of_size {M : DistMatrix P V} (hn : IntFits bits M.n) : InRange bits M where
  rows r := hn.of_le (Int.natCast_nonneg _) (by
    have := M.rowPart.start_add_partSize_le r.isLt
    rw [M.rowPart_size] at this
    omega)
  entries e he := tripletFits_of_lt hn (M.entries_lt e he)

/-- The ranks return exactly if the partition is ordered and no range check fails. -/
theorem buildDistributedCoo_returns_iff (A : Type) (M : DistMatrix P V)
    (hord : M.rowPart.hasOrderedParts) :
    (∃ coos, Returns (fun r => buildDistributedCoo (A := A) bits (M.rank r)) coos) ↔
      InRange bits M := by
  constructor
  · rintro ⟨coos, Rs, as, h⟩
    have hcoo := fun r => cooFromRow_eq_ok.mp (buildDistributedCoo_cooFromRow h r).2.2
    refine ⟨fun r => (M.read r).diag_rows ▸ (hcoo r).1, fun e he => ?_⟩
    have howner := M.rowPart.owner_lt e.row (M.rowPart_size ▸ (M.entries_lt e he).1)
    let r : Fin P := ⟨M.rowPart.owner e.row, howner⟩
    have hmem : e ∈ rowsOf M.entries M.rowPart r := List.mem_filter.mpr ⟨he, decide_eq_true rfl⟩
    exact (hcoo r).2.1 _ ((rankTriplets_perm hord r).mem_iff.mpr (List.mem_map_of_mem hmem))
  · intro hrange
    let ts (r : Fin P) := rankTriplets (M.rank r) (M.rowPart.start r)
    let coos (r : Fin P) : CooData V :=
      CooData.append ⟨.matrix, true, (M.rank r).diag.csr.numRows, [], [], []⟩ (ts r)
    refine ⟨coos, [⟨MpiOp.scan, fun s => (M.rowPart.partSize s : ℤ)⟩], fun _ => [], fun r => ?_⟩
    have hcoo : cooFromRow bits (M.rank r) (M.rowPart.start r) = .ok (coos r) := by
      refine cooFromRow_eq_ok.mpr ⟨(M.read r).diag_rows ▸ hrange.rows r, fun t ht => ?_, rfl⟩
      obtain ⟨e, he, rfl⟩ := List.mem_map.mp ((rankTriplets_perm hord r).mem_iff.mp ht)
      exact hrange.entries e (List.mem_filter.mp he).1
    simp only [buildDistributedCoo, (M.read r).rowPartition, (M.read r).diag_rows, Option.any_some,
      hord, Bool.not_true, Bool.false_eq_true, if_false, mpiScan_bind]
    refine .call' _ rfl ?_
    simp only [mpi, MpiOp.combine]
    rw [MpiOp.scanSum_eq_sum_range fun s => (M.rowPart.partSize s : ℤ),
      ← Ginkgo.Partition.start_eq_sum,
      Ginkgo.Partition.start_succ]
    simp only [Nat.cast_add, Int.add_sub_cancel, hcoo, Program.ofExcept_ok]
    exact .refl

/-- The ranks return if the partition is ordered and the size of the matrix fits. -/
theorem buildDistributedCoo_returns (A : Type) (M : DistMatrix P V)
    (hord : M.rowPart.hasOrderedParts) (hn : IntFits bits M.n) :
    ∃ coos, Returns (fun r => buildDistributedCoo (A := A) bits (M.rank r)) coos :=
  (buildDistributedCoo_returns_iff A M hord).mpr (inRange_of_size hn)

/-! ## One rank alone -/

theorem buildSerialCoo_eq_ok {hostCsr : Csr V} {coo : CooData V} :
    buildSerialCoo bits hostCsr = .ok coo ↔ IntFits bits hostCsr.numRows ∧
      (∀ t ∈ blockTriplets hostCsr 0 hostCsr.colIdxs, TripletFits bits t) ∧
      coo = CooData.append ⟨.self, false, hostCsr.numRows, [], [], []⟩
        (blockTriplets hostCsr 0 hostCsr.colIdxs) := by
  simp only [buildSerialCoo, bind_eq_ok, toPetscInt_eq_ok, appendBlock_eq_ok]
  constructor
  · rintro ⟨_, ⟨h, rfl⟩, h1, rfl⟩
    exact ⟨h, h1, rfl⟩
  · rintro ⟨h, h1, rfl⟩
    exact ⟨_, ⟨h, rfl⟩, h1, rfl⟩

theorem blockTriplets_serial (S : SerialMatrix V) :
    (blockTriplets S.csr 0 S.csr.colIdxs).Perm (S.entries.map Entry.triplet) := by
  have h := blockTriplets_map S.wf 0 id
  rw [List.map_id] at h
  rw [h]
  refine (S.read.map _).trans (.of_eq ?_)
  rw [List.map_map]
  exact List.map_congr_left fun e _ => by simp [Entry.triplet]

theorem buildSerialCoo_faithful {S : SerialMatrix V} {coo : CooData V}
    (h : buildSerialCoo bits S.csr = .ok coo) :
    CooFaithful (.single S.n) S.entries fun _ => coo := by
  have hcoo := (buildSerialCoo_eq_ok.mp h).2.2
  refine .of_ranks (Ginkgo.Partition.single_ordered _) (fun e he => (S.entries_lt e he).1)
    (fun _ => hcoo) (fun r => ⟨rfl, rfl, rfl, ?_⟩) fun r => ?_
  · rw [Fin.fin_one_eq_zero r]
    simp [S.rows]
  · have : rowsOf S.entries (.single S.n) r = S.entries :=
      List.filter_eq_self.mpr fun e _ => by rw [Fin.fin_one_eq_zero r]; rfl
    rw [this]
    exact blockTriplets_serial S

theorem buildSerialCoo_returns (S : SerialMatrix V) (hn : IntFits bits S.n) :
    ∃ coo, buildSerialCoo bits S.csr = .ok coo := by
  refine ⟨_, buildSerialCoo_eq_ok.mpr ⟨S.rows ▸ hn, fun t ht => ?_, rfl⟩⟩
  obtain ⟨e, he, rfl⟩ := List.mem_map.mp ((blockTriplets_serial S).mem_iff.mp ht)
  exact tripletFits_of_lt hn (S.entries_lt e he)

/-! ## The imports -/

/-- Whatever the partitions and the entries, the distributed import meets in one scan of the
numbers of rows and is faithful, and so is the serial one; both return if the size of the matrix
fits into `PetscInt`. -/
theorem buildCoo_faithful (A : Type) (bits : ℕ) (M : DistMatrix P V) (S : SerialMatrix V) :
    (∀ Rs as coos,
      Together (fun r => buildDistributedCoo (A := A) bits (M.rank r)) Rs as
        (fun r => .ret (coos r)) →
      CooFaithful M.rowPart M.entries coos ∧
        ∀ _ : Fin P, Rs = [⟨MpiOp.scan, fun s => (coos s).numLocalRows⟩]) ∧
    (M.rowPart.hasOrderedParts → IntFits bits M.n →
      ∃ coos, Returns (fun r => buildDistributedCoo (A := A) bits (M.rank r)) coos) ∧
    (∀ coo, buildSerialCoo bits S.csr = .ok coo →
      CooFaithful (.single S.n) S.entries fun _ => coo) ∧
    (IntFits bits S.n → ∃ coo, buildSerialCoo bits S.csr = .ok coo) := by
  refine ⟨fun Rs as coos h => ⟨buildDistributedCoo_faithful h, fun r => ?_⟩,
    buildDistributedCoo_returns A M,
    fun coo h => buildSerialCoo_faithful h, buildSerialCoo_returns S⟩
  have hrows : (fun s => (coos s).numLocalRows) = fun s : Fin P => (M.rowPart.partSize s : ℤ) := by
    funext s
    rw [(cooFromRow_eq_ok.mp (buildDistributedCoo_cooFromRow h s).2.2).2.2, ← (M.read s).diag_rows]
    rfl
  rw [hrows]
  exact (buildDistributedCoo_cooFromRow h r).2.1

/-- Two ranks, of which the first has no rows. -/
theorem buildCoo_faithful_two :
    ∃ (M : DistMatrix 2 ℤ) (S : SerialMatrix ℤ), M.entries.length = 3 ∧
      (∃ coos, Returns (fun r => buildDistributedCoo (A := Unit) 32 (M.rank r)) coos ∧
        CooFaithful M.rowPart M.entries coos) ∧
      ∃ coo, buildSerialCoo 32 S.csr = .ok coo ∧
        CooFaithful (.single S.n) S.entries fun _ => coo := by
  let p : Ginkgo.Partition 2 := ⟨2, fun _ => 1, by decide⟩
  let entries : List (Entry ℤ) := [⟨0, 1, 5⟩, ⟨1, 0, 7⟩, ⟨0, 1, 5⟩]
  let M : DistMatrix 2 ℤ := .ofEntries p p rfl entries (by decide)
  let S : SerialMatrix ℤ := .ofEntries 2 entries (by decide)
  obtain ⟨h1, h2, h3, h4⟩ := buildCoo_faithful Unit 32 M S
  obtain ⟨coos, Rs, as, hcoos⟩ := h2 (by decide) (by decide : IntFits 32 2)
  obtain ⟨coo, hcoo⟩ := h4 (by decide : IntFits 32 2)
  exact ⟨M, S, rfl, ⟨coos, ⟨Rs, as, hcoos⟩, (h1 Rs as coos hcoos).1⟩, coo, hcoo, h3 coo hcoo⟩

end GinkgoTpl.Petsc
