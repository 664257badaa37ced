import Mathlib.Data.Finset.Image
import Mathlib.Data.Fintype.EquivFin
import Mathlib.Order.WellFounded
import GinkgoTpl.Hypre.ImportReturns
import GinkgoTpl.Petsc.ImportFaithful

/-!
# When the two importers agree

PETSc's importer asks the index map for the global number of every column, while hypre numbers
the columns of the diagonal block from the first row of the rank. Besides, PETSc's importer checks
the range of every index, and hypre's converts the row pointers and sizes without a check. The two
yield the same triplets if the integers fit and the row and the column partition number the stored
columns alike: `importers_agree_iff`.
-/

namespace GinkgoTpl

open Sparse Memory Ginkgo Spmd Hypre Petsc

variable {P : ℕ} {V : Type} [Inhabited V] {M : DistMatrix P V} {r : Fin P}

/-- A strictly increasing map of a finite set of numbers into itself moves nothing. -/
theorem eq_self_of_increasing {s : Finset ℕ} {f : ℕ → ℕ} (hmaps : ∀ x ∈ s, f x ∈ s)
    (hmono : ∀ x ∈ s, ∀ y ∈ s, x < y → f x < f y) {x : ℕ} (hx : x ∈ s) : f x = x := by
  let g (x : s) : s := ⟨f x, hmaps x x.2⟩
  have hg : StrictMono g := fun x y hxy => hmono x x.2 y y.2 hxy
  exact Nat.le_antisymm (hg.apply_le (x := ⟨x, hx⟩)) (hg.le_apply (x := ⟨x, hx⟩))

/-- The entries of rank `r` in the columns that the column partition gives to it. -/
def ownColumns (M : DistMatrix P V) (r : Fin P) : List (Entry V) :=
  (rowsOf M.entries M.rowPart r).filter fun e => M.colPart.owner e.col = r

/-- The global column that hypre reads for an entry of the diagonal block. -/
def diagColumn (M : DistMatrix P V) (r : Fin P) (e : Entry V) : ℕ :=
  M.rowPart.start r + M.colPart.localIndex e.col

/-- Every stored entry of a diagonal block is in the column that hypre reads for it. -/
def Aligned (M : DistMatrix P V) : Prop := ∀ r, ∀ e ∈ ownColumns M r, diagColumn M r e = e.col

instance (M : DistMatrix P V) : Decidable (Aligned M) := by
  unfold Aligned
  infer_instance

/-! ## One rank -/

theorem mem_ownColumns {e : Entry V} (he : e ∈ ownColumns M r) :
    e ∈ M.entries ∧ M.rowPart.owner e.row = r ∧ M.colPart.owner e.col = r := by
  obtain ⟨he, hc⟩ := List.mem_filter.mp he
  obtain ⟨he, hr⟩ := List.mem_filter.mp he
  exact ⟨he, of_decide_eq_true hr, of_decide_eq_true hc⟩

/-- The numbering that hypre uses on a rank is increasing. -/
theorem diagColumn_increasing {e e' : Entry V} (he : e ∈ ownColumns M r)
    (he' : e' ∈ ownColumns M r) (h : e.col < e'.col) : diagColumn M r e < diagColumn M r e' := by
  have ho := (mem_ownColumns he).2.2.trans (mem_ownColumns he').2.2.symm
  have := Ginkgo.Partition.localIndex_lt_localIndex h ho
  unfold diagColumn
  omega

/-- Renumbering the columns keeps the multiset of triplets only if it changes no column. -/
theorem renumbered_perm_iff :
    ((ownColumns M r).map fun e => ((e.row : ℤ), (diagColumn M r e : ℤ), e.value)).Perm
      ((ownColumns M r).map Entry.triplet) ↔ ∀ e ∈ ownColumns M r, diagColumn M r e = e.col := by
  constructor
  · intro h e he
    have hcols := h.map fun t => t.2.1
    rw [List.map_map, List.map_map] at hcols
    let cols := ((ownColumns M r).map (·.col)).toFinset
    let f (g : ℕ) : ℕ := M.rowPart.start r + M.colPart.localIndex g
    have hmem : ∀ {g}, g ∈ cols ↔ ∃ e ∈ ownColumns M r, e.col = g := by simp [cols]
    refine eq_self_of_increasing (s := cols) (f := f) ?_ ?_ (hmem.mpr ⟨e, he, rfl⟩)
    · intro g hg
      obtain ⟨e, he, rfl⟩ := hmem.mp hg
      have := hcols.mem_iff.mp (List.mem_map_of_mem he)
      obtain ⟨e', he', heq⟩ := List.mem_map.mp this
      exact hmem.mpr ⟨e', he', Int.ofNat_inj.mp heq⟩
    · intro g hg g' hg' hlt
      obtain ⟨e, he, rfl⟩ := hmem.mp hg
      obtain ⟨e', he', rfl⟩ := hmem.mp hg'
      exact diagColumn_increasing he he' hlt
  · intro h
    exact .of_eq (List.map_congr_left fun e he => by rw [h e he, Entry.triplet])

/-- The triplets that the hypre blocks describe on a rank: those of the off-diagonal block are in
their own columns. -/
theorem hypre_triplets_perm {before heap : Heap (Buffer V)} {result : ParCsr}
    (h : RankContents M r before result heap) (hord : M.rowPart.hasOrderedParts) :
    (result.triplets heap).Perm
      (((ownColumns M r).map fun e => ((e.row : ℤ), (diagColumn M r e : ℤ), e.value)) ++
        ((rowsOf M.entries M.rowPart r).filter fun e => !decide (M.colPart.owner e.col = r)).map
          Entry.triplet) := by
  have hread := M.read r
  have hrow : ∀ e ∈ rowsOf M.entries M.rowPart r,
      (M.rowPart.start r + M.rowPart.localIndex e.row : ℤ) = e.row := by
    intro e he
    obtain ⟨he, ho⟩ := List.mem_filter.mp he
    have hlt : e.row < M.rowPart.size := M.rowPart_size ▸ (M.entries_lt e he).1
    have := M.rowPart.start_add_localIndex hord hlt
    rw [of_decide_eq_true ho] at this
    omega
  refine .append ?_ ?_
  · refine ((h.diag.entries.trans hread.diag_entries).map _).trans (.of_eq ?_)
    rw [List.map_map]
    refine List.map_congr_left fun e he => ?_
    simp only [Function.comp_apply, h.rowStart, hrow e (List.mem_filter.mp he).1, diagColumn,
      Nat.cast_add]
  · rw [h.offd]
    refine (hread.offDiag_entries.map _).trans (.of_eq ?_)
    rw [List.map_map]
    simp only [ne_eq, decide_not]
    refine List.map_congr_left fun e he => ?_
    obtain ⟨he, ho⟩ := List.mem_filter.mp he
    have hmem := hread.remote e he (by simpa using ho)
    have hlt : ((M.rank r).imap.remote.idxOf e.col : ℤ) < (M.rank r).imap.remote.length :=
      Int.ofNat_lt.mpr (List.idxOf_lt_length_of_mem hmem)
    simp only [Function.comp_apply, h.rowStart, hrow e he, Entry.triplet,
      h.offdCol (Int.natCast_nonneg _) hlt, IndexMap.globalOf_idxOf hmem]

/-- On one rank, the two importers agree exactly if hypre numbers the stored columns of the
diagonal block as the column partition does. -/
theorem triplets_perm_iff {before heap : Heap (Buffer V)} {result : ParCsr} {coo : CooData V}
    (h : RankContents M r before result heap) (hord : M.rowPart.hasOrderedParts)
    (hcoo : coo.triplets.Perm ((rowsOf M.entries M.rowPart r).map Entry.triplet)) :
    (result.triplets heap).Perm coo.triplets ↔
      ∀ e ∈ ownColumns M r, diagColumn M r e = e.col := by
  have hsplit : coo.triplets.Perm ((ownColumns M r).map Entry.triplet ++
      ((rowsOf M.entries M.rowPart r).filter fun e => !decide (M.colPart.owner e.col = r)).map
        Entry.triplet) := by
    rw [← List.map_append]
    exact hcoo.trans ((List.filter_append_perm _ _).symm.map _)
  rw [← renumbered_perm_iff, (hypre_triplets_perm h hord).congr_left, hsplit.congr_right,
    List.perm_append_right_iff]

/-! ## Numbers of entries -/

section
variable {build : Build} {L : LocalMatrix P V}

/-- The numbers of rows and columns of a rank fit into `HYPRE_Int`, and the last row pointers of its
blocks, which count their entries, are values of Ginkgo's index type. -/
structure DimsFit (build : Build) (L : LocalMatrix P V) : Prop where
  rows : IntFits build.intBits L.diag.csr.numRows
  cols : ColumnsFit build L.diag.csr
  offdCols : IntFits build.intBits L.imap.remote.length
  diagStored : IntFits build.localBits L.diag.csr.values.length
  offdStored : IntFits build.localBits L.offDiag.csr.values.length

/-- A block never gains entries by the conversion of its row pointers, and it loses some if their
number does not fit. -/
theorem length_entries_of_asInts {c d : Csr V} (hc : c.RowWf) (hrows : d.numRows = c.numRows)
    (hptrs : d.rowPtrs = build.asInts c.rowPtrs)
    (hstored : IntFits build.localBits c.values.length) :
    d.entries.length ≤ c.values.length ∧
      (d.entries.length = c.values.length → IntFits build.intBits c.values.length) := by
  have hzero : build.asInt 0 = 0 := by simp [Build.asInt, castInt]
  have hnarrow : ∀ a b, a ≤ b → build.asInt b - build.asInt a ≤ b - a := by
    intro a b hab
    unfold Build.asInt
    split
    · exact le_rfl
    · exact castInt_sub_le hab
  obtain ⟨hle, hkeeps⟩ :=
    hc.length_entries_of_narrowed hzero hnarrow hrows (rowPtr_of_asInts hptrs)
  refine ⟨hle, fun hlen => ?_⟩
  by_cases hsame : build.sameInt
  · exact build.sameInt_bits hsame ▸ hstored
  · have := hkeeps hlen
    rw [Build.asInt, if_neg hsame] at this
    exact (castInt_eq_iff build.intBits_pos).mp this

/-- A rank whose blocks have kept all their entries has kept all its integers. -/
theorem representable_of_length {mem : RankMemory L} {lib : Lib V} {result : ParCsr} {rowEnd : ℤ}
    {out : ParCsr × ParCsrMatrix × Heap (Buffer V)} (hwf : LocalWf L) (hdims : DimsFit build L)
    (hlocal : localParCsr build lib L mem result rowEnd = .ok out)
    (hlen : (out.2.1.diag.view out.2.2).entries.length +
      (out.2.1.offd.view out.2.2).entries.length =
      L.diag.csr.values.length + L.offDiag.csr.values.length) : RankRepresentable build L := by
  have hrows := localParCsr_rows hwf hlocal
  have hview : ∀ {block : HypreCsr} {n : ℕ}, block.numRows = n →
      (block.view out.2.2).numRows = n := fun h => by rw [HypreCsr.view, h, Int.toNat_natCast]
  obtain ⟨hdiag, hkeepsDiag⟩ := length_entries_of_asInts hwf.diag.toRowWf (hview hrows.diag_numRows)
    hrows.diag_asInts hdims.diagStored
  obtain ⟨hoffd, hkeepsOffd⟩ := length_entries_of_asInts hwf.offd.toRowWf
    ((hview hrows.offd_numRows).trans hwf.rows.symm) hrows.offd_asInts hdims.offdStored
  exact ⟨⟨hdims.rows, hkeepsDiag (by omega), hdims.offdCols, hkeepsOffd (by omega)⟩, hdims.cols⟩

end

/-! ## All ranks -/

/-- PETSc's import of the matrix returns on all ranks, with the triplets that the hypre blocks
describe. -/
def Agrees (B : Type) (bits : ℕ) (M : DistMatrix P V)
    (out : Fin P → ParCsr × PolicyState × Heap (Buffer V)) : Prop :=
  ∃ coos, Returns (fun r => buildDistributedCoo (A := B) bits (M.rank r)) coos ∧
    ∀ r, ((out r).1.triplets (out r).2.2).Perm (coos r).triplets

/-- All integers fit on both sides, and hypre numbers the columns as the column partition does. -/
structure SameMatrix (build : Build) (bits : ℕ) (M : DistMatrix P V) : Prop where
  representable : ∀ r, RankRepresentable build (M.rank r)
  inRange : InRange bits M
  aligned : Aligned M

/-- The number of triplets that PETSc's importer yields on a rank. -/
theorem length_triplets {coo : CooData V}
    (h : coo.triplets.Perm ((rowsOf M.entries M.rowPart r).map Entry.triplet)) :
    coo.triplets.length =
      (M.rank r).diag.csr.values.length + (M.rank r).offDiag.csr.values.length := by
  have hblocks := (M.globalize_perm r).length_eq
  rw [List.length_append, List.length_map, List.length_map, List.length_map,
    (localWf_rank M r).diag.length_entries, (localWf_rank M r).offd.length_entries] at hblocks
  rw [h.length_eq, List.length_map, hblocks]

/-- Whatever hypre's importer accepts, the two importers agree on it if all integers fit and all
stored entries of the diagonal blocks are in the columns that hypre reads for them. They agree on
nothing else, except by chance where a rank has more rows or columns than fit into `HYPRE_Int`. -/
theorem importers_agree_iff (A B : Type) (build : Build) (bits : ℕ) (location : MemoryLocation)
    (M : DistMatrix P V) (lib : Fin P → Lib V) (mem : (r : Fin P) → RankMemory (M.rank r))
    (policy : Fin P → PolicyState) (out : Fin P → ParCsr × PolicyState × Heap (Buffer V))
    (hhypre : Returns (fun r => buildDistributedParCsr (A := A) build (lib r) location (M.rank r)
      (mem r) (policy r)) out) :
    (SameMatrix build bits M → Agrees B bits M out) ∧
      ((∀ r, DimsFit build (M.rank r)) → Agrees B bits M out → SameMatrix build bits M) := by
  obtain ⟨_, _, hhypre⟩ := hhypre
  have hord : M.rowPart.hasOrderedParts := Ginkgo.Partition.hasOrderedParts_of_rank fun r =>
    (buildDistributedParCsr_local hhypre r).1
  constructor
  · intro h
    obtain ⟨coos, hcoos⟩ := (buildDistributedCoo_returns_iff B M hord).mpr h.inRange
    refine ⟨coos, hcoos, fun r => ?_⟩
    obtain ⟨_, _, hpetsc⟩ := hcoos
    obtain ⟨-, hcontents⟩ := buildDistributedParCsr_contents hhypre h.representable r
    exact (triplets_perm_iff hcontents hord (buildDistributedCoo_triplets hpetsc r)).mpr
      (h.aligned r)
  · rintro hdims ⟨coos, ⟨Rs, as, hpetsc⟩, hperm⟩
    have hcoo := buildDistributedCoo_triplets hpetsc
    have hrep : ∀ r, RankRepresentable build (M.rank r) := by
      intro r
      obtain ⟨-, result, matrix, pkg, hlocal, hout⟩ := buildDistributedParCsr_local hhypre r
      refine representable_of_length (localWf_rank M r) (hdims r) hlocal ?_
      rw [← length_triplets (hcoo r), ← (hperm r).length_eq, ParCsr.triplets, List.length_append,
        List.length_map, List.length_map, hout]
      rfl
    refine ⟨hrep, (buildDistributedCoo_returns_iff B M hord).mp ⟨coos, Rs, as, hpetsc⟩,
      fun r => ?_⟩
    obtain ⟨-, hcontents⟩ := buildDistributedParCsr_contents hhypre hrep r
    exact (triplets_perm_iff hcontents hord (hcoo r)).mp (hperm r)

/-- Both imports of a matrix with a diagonal entry in every row of its diagonal blocks return. -/
theorem imports_return {build : Build} {bits : ℕ} (hfits : ∀ r, LocalFits build (M.rank r))
    (hchecks : ∀ r, PassesChecks build M r) (hdiag : ∀ r, DiagonalsStored (M.rank r).diag.csr)
    (hord : M.rowPart.hasOrderedParts) (hn : IntFits bits M.n) :
    (∃ out, Returns (fun r => buildDistributedParCsr (A := Unit) build (.documented V) .host
      (M.rank r) (.new _) ⟨none, .host, .host⟩) out) ∧
    ∃ coos, Returns (fun r => buildDistributedCoo (A := Unit) bits (M.rank r)) coos :=
  ⟨buildDistributedParCsr_returns Unit (fun r => .new (M.rank r))
    (fun _ => ⟨none, .host, .host⟩) (fun _ => Lib.documented_succeeds) hchecks
    (fun _ => by decide) hfits hdiag, buildDistributedCoo_returns Unit M hord hn⟩

/-- One partition for rows and columns, of which each rank has one row. -/
theorem importers_agree_two : ∃ (M : DistMatrix 2 ℤ) (out : Fin 2 → _), M.entries.length = 4 ∧
    Returns (fun r => buildDistributedParCsr (A := Unit) .host (.documented ℤ) .host (M.rank r)
      (.new _) ⟨none, .host, .host⟩) out ∧ Agrees Unit 32 M out := by
  let p : Ginkgo.Partition 2 := ⟨2, fun g => if g = 0 then 0 else 1, by decide⟩
  let M : DistMatrix 2 ℤ :=
    .ofEntries p p rfl [⟨0, 0, 5⟩, ⟨0, 1, 7⟩, ⟨1, 1, 3⟩, ⟨1, 0, 6⟩] (by decide)
  have hfits : ∀ r, LocalFits .host (M.rank r) := by decide
  have hchecks : ∀ r, PassesChecks .host M r := by decide
  have hn : IntFits 32 M.n := by decide
  obtain ⟨⟨out, hout⟩, -⟩ := imports_return hfits hchecks (by decide) (by decide) hn
  have hsame : SameMatrix .host 32 M :=
    ⟨fun r => (hfits r).representable (localWf_rank M r), inRange_of_size hn, by decide⟩
  exact ⟨M, out, rfl, hout,
    (importers_agree_iff Unit Unit .host 32 .host M _ _ _ out hout).1 hsame⟩

/-- The rows in order, the columns the other way round: both imports return, and the matrix with
entries in row 0, column 1 and in row 1, column 0 is a diagonal one for hypre. -/
theorem importers_disagree : ∃ (M : DistMatrix 2 ℤ) (out : Fin 2 → _) (coos : Fin 2 → CooData ℤ),
    M.entries = [⟨0, 1, 5⟩, ⟨1, 0, 7⟩] ∧ M.rowPart.hasOrderedParts ∧
    Returns (fun r => buildDistributedParCsr (A := Unit) .host (.documented ℤ) .host (M.rank r)
      (.new _) ⟨none, .host, .host⟩) out ∧
    Returns (fun r => buildDistributedCoo (A := Unit) 32 (M.rank r)) coos ∧
    ∀ r, ¬ ((out r).1.triplets (out r).2.2).Perm (coos r).triplets := by
  let rows : Ginkgo.Partition 2 := ⟨2, fun g => if g = 0 then 0 else 1, by decide⟩
  let cols : Ginkgo.Partition 2 := ⟨2, fun g => if g = 0 then 1 else 0, by decide⟩
  let M : DistMatrix 2 ℤ := .ofEntries rows cols rfl [⟨0, 1, 5⟩, ⟨1, 0, 7⟩] (by decide)
  have hfits : ∀ r, LocalFits .host (M.rank r) := by decide
  have hchecks : ∀ r, PassesChecks .host M r := by decide
  obtain ⟨⟨out, hout⟩, coos, hcoos⟩ :=
    imports_return hfits hchecks (by decide) (by decide) (by decide : IntFits 32 2)
  refine ⟨M, out, coos, rfl, by decide, hout, hcoos, fun r hperm => ?_⟩
  obtain ⟨_, _, hhypre⟩ := hout
  obtain ⟨_, _, hpetsc⟩ := hcoos
  obtain ⟨hord, hcontents⟩ := buildDistributedParCsr_contents hhypre
    (fun r => (hfits r).representable (localWf_rank M r)) r
  have hcols := (triplets_perm_iff hcontents hord (buildDistributedCoo_triplets hpetsc r)).mp hperm
  have hothers : ∀ r, ¬ ∀ e ∈ ownColumns M r, diagColumn M r e = e.col := by decide
  exact hothers r hcols

end GinkgoTpl
