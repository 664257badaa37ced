import GinkgoTpl.Ginkgo.DistMatrix

/-!
# Reading a distributed matrix

Every list of entries can be distributed by every pair of partitions: `DistMatrix.ofEntries` is a
matrix with these entries whose blocks are Csr matrices with the columns in the order of the
entries.
-/

namespace GinkgoTpl.Ginkgo

open Sparse

variable {P : ℕ} {V : Type}

/-- The columns of other parts in the rows of part `r`, ordered by part and global index. -/
def remoteColumns (entries : List (Entry V)) (rowPart colPart : Partition P) (r : Fin P) : List ℕ :=
  (List.range P).flatMap fun s => (colPart.part s).filter fun g =>
    s ≠ r ∧ g ∈ (rowsOf entries rowPart r).map (·.col)

theorem mem_remoteColumns {entries : List (Entry V)} {rowPart colPart : Partition P} {r : Fin P}
    {g : ℕ} : g ∈ remoteColumns entries rowPart colPart r ↔ g < colPart.size ∧
      colPart.owner g ≠ r ∧ g ∈ (rowsOf entries rowPart r).map (·.col) := by
  simp only [remoteColumns, List.mem_flatMap, List.mem_range, List.mem_filter, Partition.mem_part,
    decide_eq_true_eq]
  constructor
  · rintro ⟨_, -, ⟨hg, rfl⟩, ho, hcol⟩
    exact ⟨hg, ho, hcol⟩
  · rintro ⟨hg, ho, hcol⟩
    exact ⟨_, colPart.owner_lt g hg, ⟨hg, rfl⟩, ho, hcol⟩

def IndexMap.ofEntries (entries : List (Entry V)) (rowPart colPart : Partition P) (r : Fin P) :
    IndexMap P where
  partition := colPart
  rank := r
  remote := remoteColumns entries rowPart colPart r
  remote_lt g hg := (mem_remoteColumns.mp hg).1
  remote_owner g hg := (mem_remoteColumns.mp hg).2.1
  remote_sorted := by
    refine List.pairwise_flatMap.mpr ⟨fun s _ => ?_, ?_⟩
    · refine ((colPart.part_sorted s).filter _).imp_of_mem fun hg hg' hlt => .inr ⟨?_, hlt⟩
      rw [(Partition.mem_part.mp (List.mem_filter.mp hg).1).2,
        (Partition.mem_part.mp (List.mem_filter.mp hg').1).2]
    · refine List.pairwise_lt_range.imp fun hlt g hg g' hg' => .inl ?_
      rwa [(Partition.mem_part.mp (List.mem_filter.mp hg).1).2,
        (Partition.mem_part.mp (List.mem_filter.mp hg').1).2]

variable [Inhabited V]

/-- The name of the blocks' type. -/
def csrName : String := "gko::matrix::Csr<double, LocalIndexType>"

def LocalMatrix.ofEntries (entries : List (Entry V)) (rowPart colPart : Partition P) (r : Fin P) :
    LocalMatrix P V :=
  let imap := IndexMap.ofEntries entries rowPart colPart r
  let rows := rowsOf entries rowPart r
  { size := (rowPart.size, colPart.size)
    rowPartition := some rowPart
    diag := ⟨csrName, true, .ofEntries (rowPart.partSize r) (colPart.partSize r)
      ((rows.filter fun e => colPart.owner e.col = r).map fun e =>
        (rowPart.localIndex e.row, (colPart.localIndex e.col : ℤ), e.value))⟩
    offDiag := ⟨csrName, true, .ofEntries (rowPart.partSize r) imap.getNonLocalSize
      ((rows.filter fun e => colPart.owner e.col ≠ r).map fun e =>
        (rowPart.localIndex e.row, (imap.remote.idxOf e.col : ℤ), e.value))⟩
    imap }

theorem LocalMatrix.readFrom_ofEntries {entries : List (Entry V)} {rowPart colPart : Partition P}
    (h : ∀ e ∈ entries, e.row < rowPart.size ∧ e.col < colPart.size) (r : Fin P) :
    (LocalMatrix.ofEntries entries rowPart colPart r).ReadFrom entries rowPart colPart r := by
  have hrow : ∀ e ∈ rowsOf entries rowPart r, rowPart.localIndex e.row < rowPart.partSize r :=
    fun e he => by
      obtain ⟨he, ho⟩ := List.mem_filter.mp he
      exact of_decide_eq_true ho ▸ Partition.localIndex_lt (h e he).1
  have hcol : ∀ e ∈ rowsOf entries rowPart r, e.col < colPart.size := fun e he =>
    (h e (List.mem_filter.mp he).1).2
  have hremote : ∀ e ∈ rowsOf entries rowPart r, colPart.owner e.col ≠ r →
      e.col ∈ remoteColumns entries rowPart colPart r := fun e he ho =>
    mem_remoteColumns.mpr ⟨hcol e he, ho, List.mem_map_of_mem he⟩
  have hmem : ∀ {p : Entry V → Prop} [DecidablePred p] {f : Entry V → ℕ × ℤ × V} {t},
      t ∈ ((rowsOf entries rowPart r).filter fun e => p e).map f →
        ∃ e ∈ rowsOf entries rowPart r, p e ∧ f e = t := by
    intro p _ f t ht
    obtain ⟨e, he, rfl⟩ := List.mem_map.mp ht
    obtain ⟨he, hp⟩ := List.mem_filter.mp he
    exact ⟨e, he, of_decide_eq_true hp, rfl⟩
  constructor
  case size | rowPartition | imap_partition | imap_rank | diag_rows | offDiag_rows | diag_cols |
    offDiag_cols => rfl
  case diag_wf =>
    refine Csr.wf_ofEntries fun t ht => ?_
    obtain ⟨e, he, ho, rfl⟩ := hmem ht
    have := Partition.localIndex_lt (hcol e he)
    rw [ho] at this
    exact ⟨Int.natCast_nonneg _, Int.ofNat_lt.mpr this⟩
  case offDiag_wf =>
    refine Csr.wf_ofEntries fun t ht => ?_
    obtain ⟨e, he, ho, rfl⟩ := hmem ht
    have := List.idxOf_lt_length_of_mem (hremote e he ho)
    exact ⟨Int.natCast_nonneg _, Int.ofNat_lt.mpr this⟩
  case remote => exact hremote
  case diag_entries | offDiag_entries =>
    refine Csr.entries_ofEntries fun t ht => ?_
    obtain ⟨e, he, -, rfl⟩ := hmem ht
    exact hrow e he

/-- The matrix with the given entries. -/
def DistMatrix.ofEntries (rowPart colPart : Partition P) (hsize : colPart.size = rowPart.size)
    (entries : List (Entry V))
    (h : ∀ e ∈ entries, e.row < rowPart.size ∧ e.col < rowPart.size) : DistMatrix P V where
  n := rowPart.size
  rowPart := rowPart
  colPart := colPart
  entries := entries
  rank := LocalMatrix.ofEntries entries rowPart colPart
  rowPart_size := rfl
  colPart_size := hsize
  entries_lt := h
  read := LocalMatrix.readFrom_ofEntries (hsize ▸ h)

/-- The matrix on one rank with the given entries. -/
def SerialMatrix.ofEntries (n : ℕ) (entries : List (Entry V))
    (h : ∀ e ∈ entries, e.row < n ∧ e.col < n) : SerialMatrix V where
  n := n
  entries := entries
  csr := .ofEntries n n (entries.map fun e => (e.row, (e.col : ℤ), e.value))
  entries_lt := h
  wf := Csr.wf_ofEntries fun t ht => by
    obtain ⟨e, he, rfl⟩ := List.mem_map.mp ht
    exact ⟨Int.natCast_nonneg _, Int.ofNat_lt.mpr (h e he).2⟩
  rows := rfl
  cols := rfl
  read := Csr.entries_ofEntries fun t ht => by
    obtain ⟨e, he, rfl⟩ := List.mem_map.mp ht
    exact (h e he).1

end GinkgoTpl.Ginkgo
