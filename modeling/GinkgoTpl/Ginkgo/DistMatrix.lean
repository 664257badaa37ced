import Mathlib.Data.List.FinRange
import Mathlib.Data.List.Perm.Basic
import GinkgoTpl.Ginkgo.Partition
import GinkgoTpl.Sparse.Csr

/-!
# Distributed matrices as Ginkgo reads them

The part of Ginkgo's `distributed::Matrix` that the importers use. A rank stores its rows in two
Csr blocks: the diagonal block holds the entries in the columns that the column partition gives
to this rank, numbered locally, and the off-diagonal block holds the others, numbered by the
index map's remote indices. `DistMatrix` is a matrix read on all ranks, together with the stored
entries it was read from.
-/

namespace GinkgoTpl.Ginkgo

open Sparse

variable {P : ℕ} {V : Type}

inductive IndexSpace where
  | «local»
  | nonLocal

/-- The index map of one rank for the columns. The remote indices are ordered by owning part and
then by global index. -/
structure IndexMap (P : ℕ) where
  partition : Partition P
  rank : Fin P
  /-- The flat data of `get_remote_global_idxs`. -/
  remote : List ℕ
  remote_lt : ∀ g ∈ remote, g < partition.size
  remote_owner : ∀ g ∈ remote, partition.owner g ≠ rank
  remote_sorted : remote.Pairwise fun g g' =>
    partition.owner g < partition.owner g' ∨ (partition.owner g = partition.owner g' ∧ g < g')

namespace IndexMap

variable (imap : IndexMap P)

def getNonLocalSize : ℕ := imap.remote.length

/-- The global indices of an index space, in local order. -/
def globals : IndexSpace → List ℕ
  | .«local» => imap.partition.part imap.rank
  | .nonLocal => imap.remote

/-- The global number of one local column index, or -1 for an index outside the space. -/
def globalOf (space : IndexSpace) (j : ℤ) : ℤ := ((imap.globals space)[j.toNat]?).elim (-1) (↑)

def mapToGlobal (cols : List ℤ) (space : IndexSpace) : List ℤ := cols.map (imap.globalOf space)

variable {imap}

theorem globalOf_localIndex {g : ℕ} (hg : g < imap.partition.size)
    (ho : imap.partition.owner g = imap.rank) :
    imap.globalOf .«local» (imap.partition.localIndex g) = g := by
  have := imap.partition.part_localIndex hg
  rw [ho] at this
  simp [globalOf, globals, this]

theorem globalOf_idxOf {g : ℕ} (hg : g ∈ imap.remote) :
    imap.globalOf .nonLocal (imap.remote.idxOf g) = g := by
  have : imap.remote[imap.remote.idxOf g]? = some g := List.getElem?_idxOf hg
  simp [globalOf, globals, this]

/-- In an ordered partition the local columns are numbered from the start of the part. -/
theorem globalOf_local (hord : imap.partition.hasOrderedParts) {j : ℤ} (h0 : 0 ≤ j)
    (hj : j < imap.partition.partSize imap.rank) :
    imap.globalOf .«local» j = imap.partition.start imap.rank + j := by
  have hlt : j.toNat < imap.partition.partSize imap.rank := by omega
  simp only [globalOf, globals, Partition.part_getElem hord hlt, Option.elim_some]
  omega

/-- In an ordered partition the remote indices are increasing. -/
theorem remote_increasing (hord : imap.partition.hasOrderedParts) :
    imap.remote.Pairwise (· < ·) := by
  refine imap.remote_sorted.imp_of_mem fun {g g'} hg hg' h => ?_
  rcases h with h | ⟨-, h⟩
  · by_contra hle
    exact absurd (Partition.owner_mono hord (Nat.not_lt.mp hle) (imap.remote_lt g hg)) (by omega)
  · exact h

end IndexMap

/-- A local block: its dynamic type is `Csr` or another format that converts to this `Csr`. -/
structure Block (V : Type) where
  typeName : String
  isCsr : Bool
  csr : Csr V

/-- What one rank stores of a distributed matrix. -/
structure LocalMatrix (P : ℕ) (V : Type) where
  /-- The global number of rows and columns. -/
  size : ℕ × ℕ
  rowPartition : Option (Partition P)
  diag : Block V
  offDiag : Block V
  imap : IndexMap P

structure Entry (V : Type) where
  row : ℕ
  col : ℕ
  value : V
  deriving DecidableEq

/-- The stored entries in the rows of part `r`. -/
def rowsOf (entries : List (Entry V)) (rowPart : Partition P) (r : Fin P) : List (Entry V) :=
  entries.filter fun e => rowPart.owner e.row = r

variable [Inhabited V]

/-- Rank `r` has read its share of the stored entries: every entry of its rows is in the block
that the column's owner selects, under the numbering of that block. -/
structure LocalMatrix.ReadFrom (L : LocalMatrix P V) (entries : List (Entry V))
    (rowPart colPart : Partition P) (r : Fin P) : Prop where
  size : L.size = (rowPart.size, colPart.size)
  rowPartition : L.rowPartition = some rowPart
  imap_partition : L.imap.partition = colPart
  imap_rank : L.imap.rank = r
  diag_wf : L.diag.csr.Wf
  offDiag_wf : L.offDiag.csr.Wf
  diag_rows : L.diag.csr.numRows = rowPart.partSize r
  offDiag_rows : L.offDiag.csr.numRows = rowPart.partSize r
  diag_cols : L.diag.csr.numCols = colPart.partSize r
  offDiag_cols : L.offDiag.csr.numCols = L.imap.remote.length
  remote : ∀ e ∈ rowsOf entries rowPart r, colPart.owner e.col ≠ r → e.col ∈ L.imap.remote
  diag_entries : L.diag.csr.entries.Perm
    (((rowsOf entries rowPart r).filter fun e => colPart.owner e.col = r).map fun e =>
      (rowPart.localIndex e.row, (colPart.localIndex e.col : ℤ), e.value))
  offDiag_entries : L.offDiag.csr.entries.Perm
    (((rowsOf entries rowPart r).filter fun e => colPart.owner e.col ≠ r).map fun e =>
      (rowPart.localIndex e.row, (L.imap.remote.idxOf e.col : ℤ), e.value))

/-- A square matrix distributed over `P` ranks. -/
structure DistMatrix (P : ℕ) (V : Type) [Inhabited V] where
  n : ℕ
  rowPart : Partition P
  colPart : Partition P
  /-- The stored entries, with their multiplicity. -/
  entries : List (Entry V)
  rank : Fin P → LocalMatrix P V
  rowPart_size : rowPart.size = n
  colPart_size : colPart.size = n
  entries_lt : ∀ e ∈ entries, e.row < n ∧ e.col < n
  read : ∀ r, (rank r).ReadFrom entries rowPart colPart r

/-- A square matrix on one rank, converted to a host `Csr`. -/
structure SerialMatrix (V : Type) [Inhabited V] where
  n : ℕ
  entries : List (Entry V)
  csr : Csr V
  entries_lt : ∀ e ∈ entries, e.row < n ∧ e.col < n
  wf : csr.Wf
  rows : csr.numRows = n
  cols : csr.numCols = n
  read : csr.entries.Perm (entries.map fun e => (e.row, (e.col : ℤ), e.value))

/-! ## The blocks in global numbers -/

/-- An entry of a block with its column mapped to the global one. -/
def LocalMatrix.globalize (L : LocalMatrix P V) (space : IndexSpace) (e : ℕ × ℤ × V) : ℕ × ℤ × V :=
  (e.1, L.imap.globalOf space e.2.1, e.2.2)

/-- An entry as rank-local row, global column and value. -/
def Entry.localize (e : Entry V) (rowPart : Partition P) : ℕ × ℤ × V :=
  (rowPart.localIndex e.row, (e.col : ℤ), e.value)

/-- An entry as global row, global column and value. -/
def Entry.triplet (e : Entry V) : ℤ × ℤ × V := (e.row, e.col, e.value)

omit [Inhabited V] in
/-- Collecting the rows of all ranks gives back all entries. -/
theorem rowsOf_perm (entries : List (Entry V)) (rowPart : Partition P)
    (h : ∀ e ∈ entries, e.row < rowPart.size) :
    ((List.finRange P).flatMap (rowsOf entries rowPart)).Perm entries := by
  have := Csr.flatMap_filter_perm entries (rowPart.owner ·.row) fun e he =>
    rowPart.owner_lt _ (h e he)
  rwa [← List.map_coe_finRange_eq_range, List.flatMap_map] at this

/-- Row `g` of the product of the matrix with the given entries with `x`. -/
def rowOfProduct [Semiring V] (entries : List (Entry V)) (x : ℤ → V) (g : ℕ) : V :=
  ((entries.filter (·.row = g)).map fun e => e.value * x e.col).sum

namespace DistMatrix

variable (M : DistMatrix P V)

/-- Both blocks together hold the entries of the rank's rows, in global columns. -/
theorem globalize_perm (r : Fin P) :
    ((M.rank r).diag.csr.entries.map ((M.rank r).globalize .«local») ++
      (M.rank r).offDiag.csr.entries.map ((M.rank r).globalize .nonLocal)).Perm
      ((rowsOf M.entries M.rowPart r).map (·.localize M.rowPart)) := by
  have hread := M.read r
  have hpart := hread.imap_partition
  have hdiag : ((M.rank r).diag.csr.entries.map ((M.rank r).globalize .«local»)).Perm
      (((rowsOf M.entries M.rowPart r).filter fun e => M.colPart.owner e.col = r).map
        (·.localize M.rowPart)) := by
    refine (hread.diag_entries.map _).trans (.of_eq ?_)
    rw [List.map_map]
    refine List.map_congr_left fun e he => ?_
    simp only [rowsOf, List.mem_filter, decide_eq_true_eq] at he
    have hg : e.col < (M.rank r).imap.partition.size := by
      rw [hpart, M.colPart_size]; exact (M.entries_lt e he.1.1).2
    have := IndexMap.globalOf_localIndex hg (by rw [hpart, hread.imap_rank]; exact he.2)
    rw [hpart] at this
    simp [LocalMatrix.globalize, Entry.localize, this]
  have hoff : ((M.rank r).offDiag.csr.entries.map ((M.rank r).globalize .nonLocal)).Perm
      (((rowsOf M.entries M.rowPart r).filter fun e => !decide (M.colPart.owner e.col = r)).map
        (·.localize M.rowPart)) := by
    refine (hread.offDiag_entries.map _).trans (.of_eq ?_)
    rw [List.map_map]
    simp only [ne_eq, decide_not]
    refine List.map_congr_left fun e he => ?_
    simp only [List.mem_filter, Bool.not_eq_true', decide_eq_false_iff_not] at he
    have := IndexMap.globalOf_idxOf (hread.remote e he.1 he.2)
    simp [LocalMatrix.globalize, Entry.localize, this]
  refine (hdiag.append hoff).trans ?_
  rw [← List.map_append]
  exact (List.filter_append_perm _ _).map _

/-- The rows of the product on rank `r`, summed over the rank's own entries. -/
theorem sumRow_localize [Semiring V] (hord : M.rowPart.hasOrderedParts) (r : Fin P) (x : ℤ → V)
    {i : ℕ} (hi : i < M.rowPart.partSize r) :
    Csr.sumRow ((rowsOf M.entries M.rowPart r).map (·.localize M.rowPart)) x i =
      rowOfProduct M.entries x (M.rowPart.start r + i) := by
  have hrow : ∀ e ∈ M.entries, (M.rowPart.owner e.row = r ∧ M.rowPart.localIndex e.row = i ↔
      e.row = M.rowPart.start r + i) := by
    intro e he
    have hlt : e.row < M.rowPart.size := M.rowPart_size ▸ (M.entries_lt e he).1
    have hstart := M.rowPart.start_add_localIndex hord hlt
    constructor
    · rintro ⟨ho, hl⟩
      rw [← hstart, ho, hl]
    · intro h
      have ho := (M.rowPart.owner_eq_iff hord hlt r).mpr ⟨by omega, by omega⟩
      rw [ho] at hstart
      exact ⟨ho, by omega⟩
  have hfilter : (rowsOf M.entries M.rowPart r).filter (M.rowPart.localIndex ·.row = i) =
      M.entries.filter (·.row = M.rowPart.start r + i) := by
    rw [rowsOf, List.filter_filter]
    refine List.filter_congr fun e he => ?_
    rw [← Bool.decide_and]
    exact decide_eq_decide.mpr (and_comm.trans (hrow e he))
  rw [Csr.sumRow, List.filter_map, List.map_map, rowOfProduct, ← hfilter]
  rfl

end DistMatrix

end GinkgoTpl.Ginkgo
