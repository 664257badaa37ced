import GinkgoTpl.Hypre.ImportExact

/-!
# Diagonals stored first

hypre takes the first entry that a row of the diagonal block stores for the row's diagonal, and
`reorder_diag_first` is there to make it so. The reordering looks at the recorded rows only, and
`hypre_CSRMatrixSetRownnz` does not record an empty one. `diagonal_first_iff`: what the import
accepts on a host is what hypre relies on if the integers of the diagonal block fit and no row of it
is empty, and never if some row is.
-/

namespace GinkgoTpl.Hypre

open Sparse Memory Ginkgo Spmd

variable {P : ℕ} {V : Type} [Inhabited V] {build : Build}

/-- Row `i` of a block starts with a diagonal entry whose value satisfies `p`. -/
def StartsWithDiagonal (d : Csr V) (i : ℕ) (p : V → Prop) : Prop :=
  ∃ e, (d.row i).head? = some e ∧ e.1 = i ∧ p e.2

def NoEmptyRow (c : Csr V) : Prop := ∀ i < c.numRows, c.row i ≠ []

instance (c : Csr V) [DecidableEq V] : Decidable (NoEmptyRow c) :=
  inferInstanceAs (Decidable (∀ i < c.numRows, c.row i ≠ []))

/-- Every row of hypre's block `d` for `c` starts with its diagonal. -/
def StartWithDiagonals (c d : Csr V) (p : ℕ → V → Prop) : Prop :=
  ∀ i < c.numRows, StartsWithDiagonal d i (p i)

section
variable {c d : Csr V} {p : ℕ → V → Prop}

/-- Whatever the sizes are, an empty row starts with nothing. -/
theorem StartWithDiagonals.noEmptyRow (h : StartWithDiagonals c d p) (hc : c.RowWf)
    (hptrs : d.rowPtrs = build.asInts c.rowPtrs) : NoEmptyRow c := by
  intro i hi hnil
  obtain ⟨e, hhead, -⟩ := h i hi
  rw [row_eq_nil_of_asInts hc hptrs hi hnil] at hhead
  cases hhead

/-- After the reordering a row that is not empty starts with a diagonal of the matrix. -/
theorem DiagonalsFirst.startWithDiagonals (h : DiagonalsFirst c d) (hrow : c.RowPerm d)
    (hp : ∀ (i : ℕ) v, (i, (i : ℤ), v) ∈ c.entries → p i v) (hne : NoEmptyRow c) :
    StartWithDiagonals c d p := by
  intro i hi
  obtain ⟨-, e, hhead, hdiag⟩ := h i hi (hne i hi)
  refine ⟨e, hhead, hdiag, hp i e.2 (Csr.mem_entries.mpr ⟨hi, ?_⟩)⟩
  rw [← hdiag]
  exact (hrow.row i hi).mem_iff.mp (List.mem_of_mem_head? hhead)

end

/-- A diagonal entry of a rank's diagonal block is a diagonal entry of the matrix. -/
theorem diagonal_of_local (M : DistMatrix P V) (hord : M.rowPart.hasOrderedParts)
    (hcol : M.colPart = M.rowPart) {r : Fin P} {i : ℕ} {v : V}
    (h : (i, (i : ℤ), v) ∈ (M.rank r).diag.csr.entries) :
    ∃ e ∈ M.entries, e.row = M.rowPart.start r + i ∧ e.col = M.rowPart.start r + i ∧
      e.value = v := by
  obtain ⟨e, he, heq⟩ := List.mem_map.mp ((M.read r).diag_entries.mem_iff.mp h)
  simp only [rowsOf, List.mem_filter, decide_eq_true_eq] at he
  obtain ⟨⟨he, hrow⟩, howner⟩ := he
  simp only [Prod.mk.injEq, Nat.cast_inj] at heq
  obtain ⟨hri, hci, hv⟩ := heq
  have hlt := M.entries_lt e he
  rw [← M.rowPart_size] at hlt
  rw [hcol] at howner hci
  have h1 := M.rowPart.start_add_localIndex hord hlt.1
  have h2 := M.rowPart.start_add_localIndex hord hlt.2
  rw [hrow, hri] at h1
  rw [howner, hci] at h2
  exact ⟨e, he, h1.symm, h2.symm, hv⟩

/-- Row `i` of rank `r` has a diagonal entry with this value in the Ginkgo matrix. -/
def DiagonalOf (M : DistMatrix P V) (r : Fin P) (i : ℕ) (v : V) : Prop :=
  ∃ e ∈ M.entries, e.row = M.rowPart.start r + i ∧ e.col = M.rowPart.start r + i ∧ e.value = v

/-- In every import on a host that returns, each row of a rank's diagonal block starts with its
diagonal, with the value of a diagonal entry of the Ginkgo matrix, if the integers of the block fit
and no row is empty; it never does if some row is empty. Where the integers do not fit, hypre reads
the block along converted row pointers, and its rows start with a diagonal at most by chance. -/
theorem diagonal_first_iff (A : Type) (build : Build) :
    (∀ (P : ℕ) (M : DistMatrix P V) (lib : Fin P → Lib V)
      (mem : (r : Fin P) → RankMemory (M.rank r)) (policy : Fin P → PolicyState)
      (out : Fin P → ParCsr × PolicyState × Heap (Buffer V)), M.colPart = M.rowPart →
      Returns (fun r => buildDistributedParCsr (A := A) build (lib r) .host (M.rank r) (mem r)
        (policy r)) out →
      ∀ r, (CsrRepresentable build (M.rank r).diag.csr ∧ NoEmptyRow (M.rank r).diag.csr →
          StartWithDiagonals (M.rank r).diag.csr ((out r).1.diagBlock (out r).2.2)
            (DiagonalOf M r)) ∧
        (StartWithDiagonals (M.rank r).diag.csr ((out r).1.diagBlock (out r).2.2)
          (DiagonalOf M r) → NoEmptyRow (M.rank r).diag.csr)) ∧
    (∀ (c : Csr V) (lib : Lib V) (mem : SerialMemory c) (policy : PolicyState) (name : String)
      (isCsr : Bool) (out : ParCsr × PolicyState × Heap (Buffer V)), c.Wf →
      buildSerialParCsr build lib .host ⟨name, isCsr, c⟩ mem policy = .ok out →
      (CsrRepresentable build c ∧ NoEmptyRow c →
        StartWithDiagonals c (out.1.diagBlock out.2.2) fun i v => (i, (i : ℤ), v) ∈ c.entries) ∧
      (StartWithDiagonals c (out.1.diagBlock out.2.2) (fun i v => (i, (i : ℤ), v) ∈ c.entries) →
        NoEmptyRow c)) := by
  constructor
  · intro P M lib mem policy out hcol ⟨Rs, as, h⟩ r
    obtain ⟨hord, result, matrix, pkg, hlocal, hout⟩ := buildDistributedParCsr_local h r
    have hwf := localWf_rank M r
    rw [hout]
    constructor
    · rintro ⟨hrep, hne⟩
      have hc := localParCsr_diag hwf hrep.nnz hlocal
      have hfirst := hc.diagFirst rfl
      have hrow := hc.diag
      rw [hrep.cols.seen_eq] at hfirst hrow
      exact hfirst.startWithDiagonals hrow (fun i v => diagonal_of_local M hord hcol) hne
    · intro hstart
      exact hstart.noEmptyRow hwf.diag.toRowWf (localParCsr_rows hwf hlocal).diag_asInts
  · intro c lib mem policy name isCsr out hwf h
    constructor
    · rintro ⟨hrep, hne⟩
      have hc := buildSerialParCsr_stored hwf.toRowWf hrep.nnz h
      have hfirst := hc.diagFirst rfl
      have hrow := hc.diag
      rw [hrep.cols.seen_eq] at hfirst hrow
      exact hfirst.startWithDiagonals hrow (fun _ _ => id) hne
    · intro hstart
      exact hstart.noEmptyRow hwf.toRowWf (buildSerialParCsr_rowPtrs hwf.toRowWf h)

/-- Three rows on two ranks, and the same matrix on one rank, with every diagonal stored. -/
theorem diagonal_first_iff_two : ∃ (M : DistMatrix 2 ℤ) (c : Csr ℤ),
    M.entries.length = 5 ∧ c.values.length = 5 ∧
    (∃ out, Returns (fun r => buildDistributedParCsr (A := Unit) .host (.documented ℤ) .host
        (M.rank r) (.new _) ⟨none, .host, .host⟩) out ∧
      ∀ r, StartWithDiagonals (M.rank r).diag.csr ((out r).1.diagBlock (out r).2.2)
        (DiagonalOf M r)) ∧
    ∃ out, buildSerialParCsr .host (.documented ℤ) .host ⟨csrName, true, c⟩ (.new c)
        ⟨none, .host, .host⟩ = .ok out ∧
      StartWithDiagonals c (out.1.diagBlock out.2.2) fun i v => (i, (i : ℤ), v) ∈ c.entries := by
  let p : Ginkgo.Partition 2 := ⟨3, fun g => if g = 0 then 0 else 1, by decide⟩
  let entries : List (Entry ℤ) := [⟨0, 0, 5⟩, ⟨0, 2, 7⟩, ⟨1, 2, 4⟩, ⟨1, 1, 3⟩, ⟨2, 2, 6⟩]
  let M : DistMatrix 2 ℤ := .ofEntries p p rfl entries (by decide)
  let c : Csr ℤ := .ofEntries 3 3 (entries.map fun e => (e.row, (e.col : ℤ), e.value))
  have hc : c.Wf := Csr.wf_ofEntries (by decide)
  have hfits : ∀ r, LocalFits .host (M.rank r) := by decide
  have hchecks : ∀ r, PassesChecks .host M r := by decide
  obtain ⟨out, hout⟩ := buildDistributedParCsr_returns Unit (fun r => .new (M.rank r))
    (fun _ => ⟨none, .host, .host⟩) (fun _ => Lib.documented_succeeds) hchecks
    (fun _ => by decide) hfits (by decide)
  obtain ⟨serial, hserial⟩ := buildSerialParCsr_documented .host csrName hc (by decide)
    (by decide)
  obtain ⟨hdist, hone⟩ := diagonal_first_iff (V := ℤ) Unit .host
  exact ⟨M, c, rfl, rfl,
    ⟨out, hout, fun r => (hdist 2 M _ _ _ out rfl hout r).1
      ⟨⟨(hfits r).rows, (hfits r).diagNnz, .inl rfl⟩, by revert r; decide⟩⟩,
    serial, hserial, (hone c _ _ _ _ _ serial hc hserial).1
      ⟨⟨by decide, by decide, .inl rfl⟩, by decide⟩⟩

/-- A matrix with two rows of which the second stores nothing is accepted, and the second row of
hypre's block does not start with anything. -/
theorem empty_row_accepted : ∃ (c : Csr ℤ) (out : ParCsr × PolicyState × Heap (Buffer ℤ)),
    c.Wf ∧ c.numRows = 2 ∧ c.entries = [(0, 0, 5)] ∧
    buildSerialParCsr .host (.documented ℤ) .host ⟨csrName, true, c⟩ (.new c)
      ⟨none, .host, .host⟩ = .ok out ∧
    (out.1.diagBlock out.2.2).row 1 = [] ∧
    ¬ StartWithDiagonals c (out.1.diagBlock out.2.2) fun i v => (i, (i : ℤ), v) ∈ c.entries := by
  let c : Csr ℤ := .ofEntries 2 2 [(0, 0, 5)]
  obtain ⟨out, hout, hrow⟩ : ∃ out : ParCsr × PolicyState × Heap (Buffer ℤ),
      buildSerialParCsr .host (.documented ℤ) .host ⟨csrName, true, c⟩ (.new c)
        ⟨none, .host, .host⟩ = .ok out ∧ (out.1.diagBlock out.2.2).row 1 = [] :=
    ⟨_, rfl, by decide⟩
  refine ⟨c, out, Csr.wf_ofEntries (by decide), rfl, by decide, hout, hrow, fun hall => ?_⟩
  obtain ⟨e, hhead, -⟩ := hall 1 (by decide)
  rw [hrow] at hhead
  cases hhead

end GinkgoTpl.Hypre
