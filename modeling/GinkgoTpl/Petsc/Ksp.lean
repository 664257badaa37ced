import GinkgoTpl.Petsc.ImportFaithful
import GinkgoTpl.Spmd.Progress

/-!
# The generation of a Ksp solver

The constructor of `solver::Ksp` in `petsc/ksp.hpp` up to the triplets it hands to PETSc. It checks
the global size against `PetscInt` before the import, and `range_checks_unreachable` says what this
buys: no later check of an index can fail, so no rank throws while others wait for it.
-/

namespace GinkgoTpl.Petsc

open Sparse Ginkgo Spmd

variable {P : ℕ} {A V : Type} [Inhabited V] {bits : ℕ}

/-- A system matrix by its dynamic type; a serial one is already a Csr on the host. -/
inductive SystemMatrix (P : ℕ) (V : Type) where
  | csr (hostCsr : Csr V)
  | distributed (L : LocalMatrix P V)
  | other (typeName : String) (size : ℕ × ℕ)

def SystemMatrix.size : SystemMatrix P V → ℕ × ℕ
  | .csr hostCsr => (hostCsr.numRows, hostCsr.numCols)
  | .distributed L => L.size
  | .other _ size => size

/-- The constructor of `Ksp` up to the end of the import. `petscInitialized` is what
`PetscInitialized` says, which never fails. -/
def importSystemMatrix (bits : ℕ) (petscInitialized : Bool) (systemMatrix : SystemMatrix P V) :
    Program (mpi P) A Error (CooData V) :=
  if !petscInitialized then
    .raise (.invalidState ("PETSc is not initialized; create a gko::ext::petsc::environment " ++
      "before generating a gko::ext::petsc::solver::Ksp"))
  else if systemMatrix.size.1 ≠ systemMatrix.size.2 then
    .raise (.dimensionMismatch "expected square matrix")
  else do
    -- the global size is the same on every rank and bounds every index
    let _ ← Program.ofExcept (toPetscInt bits (castInt 64 systemMatrix.size.1))
    match systemMatrix with
    | .csr hostCsr => Program.ofExcept (buildSerialCoo bits hostCsr)
    | .distributed L => buildDistributedCoo bits L
    | .other typeName _ => .raise (.notSupported typeName)

/-- A global size is a value of `std::int64_t`. -/
theorem castInt_size {n : ℕ} (hn : n < 2 ^ 63) : castInt 64 n = n :=
  IntFits.castInt (by decide) ⟨by omega, by omega⟩

/-- Every index that is checked later passes, unchanged. -/
structure ChecksPass (bits numRows : ℕ) (ts : List (ℤ × ℤ × V)) : Prop where
  numLocalRows : toPetscInt bits numRows = .ok (numRows : ℤ)
  row : ∀ t ∈ ts, toPetscInt bits t.1 = .ok t.1
  col : ∀ t ∈ ts, toPetscInt bits t.2.1 = .ok t.2.1

omit [Inhabited V] in
/-- Rows and columns of a matrix whose size fits pass, and so do numbers of rows. -/
theorem checksPass_of_fits {n numRows : ℕ} (hn : IntFits bits n) (hrows : numRows ≤ n)
    {entries : List (Entry V)} {ts : List (ℤ × ℤ × V)}
    (hlt : ∀ e ∈ entries, e.row < n ∧ e.col < n) (hts : ts.Perm (entries.map Entry.triplet)) :
    ChecksPass bits numRows ts := by
  have hfits : ∀ t ∈ ts, TripletFits bits t := fun t ht => by
    obtain ⟨e, he, rfl⟩ := List.mem_map.mp (hts.mem_iff.mp ht)
    exact tripletFits_of_lt hn (hlt e he)
  exact ⟨toPetscInt_eq_ok.mpr ⟨hn.of_le (Int.natCast_nonneg _) (Int.ofNat_le.mpr hrows), rfl⟩,
    fun t ht => toPetscInt_eq_ok.mpr ⟨(hfits t ht).1, rfl⟩,
    fun t ht => toPetscInt_eq_ok.mpr ⟨(hfits t ht).2, rfl⟩⟩

/-! ## Distributed matrices -/

section
variable {M : DistMatrix P V}

/-- The constructor on rank `r`. -/
def importRank (A : Type) (bits : ℕ) (M : DistMatrix P V) (r : Fin P) :
    Program (mpi P) A Error (CooData V) :=
  importSystemMatrix bits true (.distributed (M.rank r))

theorem importRank_eq (hn : M.n < 2 ^ 63) (r : Fin P) : importRank A bits M r =
    (Program.ofExcept (toPetscInt bits M.n) >>= fun _ => buildDistributedCoo bits (M.rank r)) := by
  have hsize : (M.rank r).size = (M.n, M.n) := by
    rw [(M.read r).size, M.rowPart_size, M.colPart_size]
  simp only [importRank, importSystemMatrix, SystemMatrix.size, hsize, castInt_size hn,
    Bool.not_true, Bool.false_eq_true, ne_eq, not_true_eq_false, if_false]

theorem rankTriplets_checksPass (hord : M.rowPart.hasOrderedParts) (hfits : IntFits bits M.n)
    (r : Fin P) : ChecksPass bits (M.rank r).diag.csr.numRows
      (rankTriplets (M.rank r) (M.rowPart.start r)) := by
  have hle := M.rowPart.start_add_partSize_le r.isLt
  rw [M.rowPart_size] at hle
  refine checksPass_of_fits hfits ?_ (fun e he => M.entries_lt e (List.mem_filter.mp he).1)
    (rankTriplets_perm hord r)
  rw [(M.read r).diag_rows]
  omega

/-- If the size fits, every index passes on every rank, and in every interleaving all ranks return
their own entries. -/
structure ImportReturns (A : Type) (bits : ℕ) (M : DistMatrix P V) : Prop where
  checks : ∀ r, ChecksPass bits (M.rank r).diag.csr.numRows
    (rankTriplets (M.rank r) (M.rowPart.start r))
  returned : ∃ coos : Fin P → CooData V,
    (∀ r, (coos r).triplets = rankTriplets (M.rank r) (M.rowPart.start r) ∧
      (coos r).triplets.Perm ((rowsOf M.entries M.rowPart r).map Entry.triplet)) ∧
    ∀ st, Reach (start (importRank A bits M)) st →
      (∃ st', Reach st st' ∧ ∀ r, st'.Done r) ∧ ∀ r, st.Done r → (st r).phase = .run (.ret (coos r))

/-- If it does not, every rank throws before it enters the scan. -/
def ImportThrows (A : Type) (bits : ℕ) (M : DistMatrix P V) (e : Error) : Prop :=
  ∀ st, Reach (start (importRank A bits M)) st →
    ∀ r, (st r).entered = [] ∧ (st r).phase = .run (.raise e)

theorem importRank_returns (A : Type) (hord : M.rowPart.hasOrderedParts) (hn : M.n < 2 ^ 63)
    (hfits : IntFits bits M.n) : ImportReturns A bits M where
  checks := rankTriplets_checksPass hord hfits
  returned := by
    obtain ⟨coos, Rs, as, hcoos⟩ := buildDistributedCoo_returns A M hord hfits
    have heq : importRank A bits M = fun r => buildDistributedCoo bits (M.rank r) := by
      funext r
      rw [importRank_eq hn, toPetscInt_eq_ok.mpr ⟨hfits, rfl⟩]
      rfl
    refine ⟨coos, fun r => ⟨?_, buildDistributedCoo_triplets hcoos r⟩, fun st hst => ?_⟩
    · rw [(cooFromRow_eq_ok.mp (buildDistributedCoo_cooFromRow hcoos r).2.2).2.2,
        CooData.triplets_append rfl rfl rfl]
    rw [heq] at hst
    refine ⟨hcoos.completes (fun _ => .ret) hst, ?_⟩
    rintro r ⟨p, hp, hfinal⟩
    obtain ⟨rfl, -⟩ := hcoos.outcome hst .ret hp hfinal
    exact hp

theorem importRank_throws (A : Type) (hn : M.n < 2 ^ 63) {e : Error}
    (he : toPetscInt bits M.n = .error e) : ImportThrows A bits M e := by
  intro st hst r
  have heq : importRank A bits M = fun _ => .raise e := by
    funext r
    rw [importRank_eq hn, he]
    rfl
  rw [heq] at hst
  have htogether : Together (fun _ : Fin P => (.raise e : Program (mpi P) A Error (CooData V))) []
      (fun _ => []) fun _ => .raise e := fun _ => .refl
  rw [(htogether.onPath hst .raise).of_nil]
  exact ⟨rfl, rfl⟩

end

/-! ## Serial matrices -/

section
variable {S : SerialMatrix V}

theorem importSystemMatrix_csr (hn : S.n < 2 ^ 63) :
    importSystemMatrix (P := P) (A := A) bits true (.csr S.csr) =
      (Program.ofExcept (toPetscInt bits S.n) >>= fun _ =>
        Program.ofExcept (buildSerialCoo bits S.csr)) := by
  simp only [importSystemMatrix, SystemMatrix.size, S.rows, S.cols, castInt_size hn,
    Bool.not_true, Bool.false_eq_true, ne_eq, not_true_eq_false, if_false]

theorem serialTriplets_checksPass (hfits : IntFits bits S.n) :
    ChecksPass bits S.csr.numRows (blockTriplets S.csr 0 S.csr.colIdxs) :=
  checksPass_of_fits hfits S.rows.le S.entries_lt (blockTriplets_serial S)

/-- If the size fits, every index passes and the import returns the entries. -/
structure SerialReturns (A : Type) (P bits : ℕ) (S : SerialMatrix V) : Prop where
  checks : ChecksPass bits S.csr.numRows (blockTriplets S.csr 0 S.csr.colIdxs)
  returned : ∃ coo, importSystemMatrix (P := P) (A := A) bits true (.csr S.csr) = .ret coo ∧
    coo.triplets = blockTriplets S.csr 0 S.csr.colIdxs ∧
    coo.triplets.Perm (S.entries.map Entry.triplet)

theorem importSerial_returns (A : Type) (P : ℕ) (hn : S.n < 2 ^ 63) (hfits : IntFits bits S.n) :
    SerialReturns A P bits S where
  checks := serialTriplets_checksPass hfits
  returned := by
    obtain ⟨coo, hcoo⟩ := buildSerialCoo_returns S hfits
    have htriplets : coo.triplets = blockTriplets S.csr 0 S.csr.colIdxs := by
      rw [(buildSerialCoo_eq_ok.mp hcoo).2.2, CooData.triplets_append rfl rfl rfl]
    refine ⟨coo, ?_, htriplets, htriplets ▸ blockTriplets_serial S⟩
    rw [importSystemMatrix_csr hn, toPetscInt_eq_ok.mpr ⟨hfits, rfl⟩, hcoo]
    rfl

end

/-- The check of the global size decides. If it passes, no later range check fails on any rank,
and all indices are stored unchanged; if it fails, it fails on every rank before the scan. -/
theorem range_checks_unreachable (A : Type) (bits : ℕ) (M : DistMatrix P V) (S : SerialMatrix V)
    (hord : M.rowPart.hasOrderedParts) (hn : M.n < 2 ^ 63) (hS : S.n < 2 ^ 63) :
    (∀ v, toPetscInt bits (castInt 64 M.n) = .ok v → ImportReturns A bits M) ∧
    (∀ e, toPetscInt bits (castInt 64 M.n) = .error e → ImportThrows A bits M e) ∧
    (∀ v, toPetscInt bits (castInt 64 S.n) = .ok v → SerialReturns A P bits S) ∧
    (∀ e, toPetscInt bits (castInt 64 S.n) = .error e →
      importSystemMatrix (P := P) (A := A) bits true (.csr S.csr) = .raise e) := by
  rw [castInt_size hn, castInt_size hS]
  refine ⟨fun v hv => importRank_returns A hord hn (toPetscInt_eq_ok.mp hv).1,
    fun e he => importRank_throws A hn he,
    fun v hv => importSerial_returns A P hS (toPetscInt_eq_ok.mp hv).1, fun e he => ?_⟩
  rw [importSystemMatrix_csr hS, he]
  rfl

/-- Two ranks, of which the first has no rows. -/
theorem range_checks_unreachable_two :
    ∃ (M : DistMatrix 2 ℤ) (S : SerialMatrix ℤ), M.entries.length = 3 ∧
      ImportReturns Unit 32 M ∧ SerialReturns Unit 2 32 S := by
  let p : Ginkgo.Partition 2 := ⟨2, fun _ => 1, by decide⟩
  let entries : List (Entry ℤ) := [⟨0, 1, 5⟩, ⟨1, 0, 7⟩, ⟨0, 1, 5⟩]
  let M : DistMatrix 2 ℤ := .ofEntries p p rfl entries (by decide)
  let S : SerialMatrix ℤ := .ofEntries 2 entries (by decide)
  have hfits : toPetscInt 32 (castInt 64 2) = .ok 2 := by
    rw [show castInt 64 2 = 2 from castInt_size (n := 2) (by decide)]
    exact toPetscInt_eq_ok.mpr ⟨by decide, rfl⟩
  obtain ⟨h1, -, h3, -⟩ :=
    range_checks_unreachable Unit 32 M S (by decide) (by decide) (by decide)
  exact ⟨M, S, rfl, h1 2 hfits, h3 2 hfits⟩

end GinkgoTpl.Petsc
