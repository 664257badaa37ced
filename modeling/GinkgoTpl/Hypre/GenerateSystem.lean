import GinkgoTpl.Hypre.Borrowed
import GinkgoTpl.Hypre.Generate
import GinkgoTpl.Hypre.ImportFormat
import GinkgoTpl.Hypre.SolveArrays
import GinkgoTpl.Spmd.Joint

/-!
# The system of a generated Pcg solver

What all ranks have when they have generated a solver together: each one owns the rows of its part,
and hypre's product with its blocks, in the memory that the constructor leaves, is the product with
the Ginkgo matrix. The import has handed the blocks over, and the rest of the constructor keeps the
matrix and all arrays in memory (`joint_generateRank`).
-/

namespace GinkgoTpl.Hypre

open Memory Sparse Ginkgo Spmd

variable {P : ℕ} {A V : Type} [Inhabited V] {build : Build}

/-! ## What hypre's product reads -/

section
variable {heap heap' : Heap (Buffer V)}

/-- The arrays of both blocks, and the one with the global columns. -/
def ParCsr.reads (result : ParCsr) : List ℕ :=
  result.borrowed ++ (result.matrix.bind ParCsrMatrix.colMapOffd).toList

variable {result : ParCsr} {system : ℕ} {arrays : List ℕ} {before : Heap (Buffer V)}

/-- hypre's product stays the same as long as the arrays of the matrix do. -/
theorem ParCsr.rowProduct_congr [Semiring V] (hdist : result.distributed)
    (hmatrix : result.matrix.isSome) (h : ∀ a ∈ result.reads, heap'.read a = heap.read a)
    (x : ℤ → V) (i : ℕ) : result.rowProduct heap' x i = result.rowProduct heap x i := by
  obtain ⟨matrix, hmatrix⟩ := Option.isSome_iff_exists.mp hmatrix
  simp only [ParCsr.reads, ParCsr.borrowed, hmatrix, hdist, if_true, Option.bind_some,
    List.mem_append, Option.mem_toList, or_imp, forall_and] at h
  obtain ⟨⟨hdiag, hoffd⟩, hcolMap⟩ := h
  have hcol : result.offdCol heap' = result.offdCol heap := by
    funext j
    simp only [ParCsr.offdCol, ParCsr.colMap, hmatrix, Option.bind_some]
    cases hmap : matrix.colMapOffd with
    | none => rfl
    | some a => rw [Option.elim_some, Option.elim_some, ints_congr (hcolMap a hmap)]
  simp only [ParCsr.rowProduct, ParCsr.diagBlock, ParCsr.offdBlock, hmatrix, hcol,
    HypreCsr.view_congr hdiag, HypreCsr.view_congr hoffd]

omit [Inhabited V] in
/-- An imported matrix reads arrays of the system matrix, and arrays of its own. -/
theorem ParCsr.BuiltOver.reads (h : result.BuiltOver true system arrays before heap) :
    ∀ a ∈ result.reads, a ∈ arrays ∨ a ∈ result.owns := by
  obtain ⟨matrix, hmatrix⟩ := Option.isSome_iff_exists.mp h.matrix
  intro a ha
  rcases List.mem_append.mp ha with ha | ha
  · exact (h.borrowed a ha).symm.imp_right (List.mem_append_right _)
  · rw [hmatrix, Option.bind_some, Option.mem_toList] at ha
    refine .inr ?_
    simp [ParCsr.owns, ParCsr.ownArrays, hmatrix, Option.mem_def.mp ha]

end

/-! ## The generation -/

section
variable [Semiring V] {lib : Fin P → Lib V} {M : DistMatrix P V}
  {mem : (r : Fin P) → RankMemory (M.rank r)} {params : Parameters} {process : Fin P → Process}
  {policy : Fin P → PolicyState}

/-- What rank `r` has when it has generated its solver: a matrix with the products of its rows, over
arrays of the system matrix and new ones. -/
structure Generated (M : DistMatrix P V) (r : Fin P) (mem : RankMemory (M.rank r)) (matrix : ParCsr)
    (heap : Heap (Buffer V)) : Prop where
  ordered : M.rowPart.hasOrderedParts
  distributed : matrix.distributed
  comm : matrix.comm = .matrix
  numLocalRows : castSize matrix.numLocalRows = M.rowPart.partSize r
  keeps : mem.heap.Keeps heap
  reads : ∀ a ∈ matrix.reads, a ∈ mem.arrays ∨ mem.heap.next ≤ a
  product : ∀ heap', (∀ a ∈ matrix.reads, heap'.read a = heap.read a) →
    ∀ (x : ℤ → V) (i : ℕ), i < M.rowPart.partSize r →
      matrix.rowProduct heap' x i = rowOfProduct M.entries x (M.rowPart.start r + i)

/-- What the imports of all ranks leave is there as long as its arrays are kept. -/
theorem generated_of_import {Rs : List (Round (mpi P))} {as : Fin P → List A}
    {out : Fin P → ParCsr × PolicyState × Heap (Buffer V)}
    (h : Together (fun r => buildDistributedParCsr build (lib r) .host (M.rank r) (mem r)
      (policy r)) Rs as fun r => .ret (out r))
    (hcomm : ∀ r, (out r).1.comm = .matrix) (hfits : ∀ r, LocalFits build (M.rank r))
    (hcol : M.colPart = M.rowPart) (r : Fin P) {heap : Heap (Buffer V)}
    (hk : (out r).2.2.Keeps heap) : Generated M r (mem r) (out r).1 heap := by
  obtain ⟨hord, hcontents⟩ := buildDistributedParCsr_contents h
    (fun r => (hfits r).representable (localWf_rank M r)) r
  obtain ⟨-, result, matrix, pkg, hlocal, hout⟩ := buildDistributedParCsr_parts h r
  have hbuilt := localParCsr_builtOver pkg hlocal
  rw [← hout] at hbuilt
  have hlive : ∀ a ∈ (out r).1.reads, (out r).2.2.Live a := fun a ha =>
    (hbuilt.reads a ha).elim (fun ha => hbuilt.allocates.keeps.live ((mem r).live a ha))
      (hbuilt.allocates.live a)
  have hrows : IntFits build.intBits (M.rowPart.partSize r : ℤ) := by
    rw [← (M.read r).diag_rows]
    exact (hfits r).rows
  refine ⟨hord, hbuilt.distributed, hcomm r, ?_, hbuilt.allocates.keeps.trans hk,
    fun a ha => (hbuilt.reads a ha).imp_right (hbuilt.allocates.fresh a), fun heap' h x i hi => ?_⟩
  · rw [hcontents.numLocalRows, ← hrows.castInt build.intBits_pos]
    exact hrows.castSize build.intBits_pos build.intBits_le
  · have hread : ∀ a ∈ (out r).1.reads, heap'.read a = (out r).2.2.read a := fun a ha => by
      obtain ⟨b, hb⟩ := hlive a ha
      rw [h a ha, hk.read hb, hb]
    rw [ParCsr.rowProduct_congr hbuilt.distributed hbuilt.matrix hread,
      hcontents.rowProduct hord hcol x hi, M.sumRow_localize hord r x hi]

/-- If no rank throws, all ranks come to the imports of their parts. -/
theorem generateRank_imports (h : Assumed build lib process params M mem)
    (hfits : ∀ r, LocalFits build (M.rank r)) (hcol : M.colPart = M.rowPart)
    (hearly : ∀ r, ¬ ThrowsEarly build M policy r)
    (hstored : ∀ r, DiagonalsStored (M.rank r).diag.csr) :
    ∃ (Rs : List (Round (mpi P))) (out : Fin P → ParCsr × PolicyState × Heap (Buffer V)),
      (Together (generateRank A build lib process params M mem policy) Rs (fun _ => []) fun r =>
        setUp build (lib r) params (out r).1 (out r).2.1 (out r).2.2) ∧
      (∀ r, (out r).1.comm = .matrix) ∧ (∀ r, (out r).1.memoryLocation = .host) ∧
      (∀ r, (out r).2.1.active = some .host) ∧
      ∀ r heap, (out r).2.2.Keeps heap → Generated M r (mem r) (out r).1 heap := by
  have hchecks : ∀ r, PassesChecks build M r := fun r => not_not.mp (not_or.mp (hearly r)).2
  choose policy₁ hset₁ hactive₁ using fun r =>
    (h.succeeds r).setProcessPolicy_host build (not_or.mp (hearly r)).1
  choose policy₂ hset₂ hactive₂ using fun r =>
    (h.succeeds r).setProcessPolicy_host build (Lib.not_conflicts_of_active (hactive₁ r))
  choose out hout hcomm hlocation hpolicy using fun r => afterScan_leads (A := A) (policy₂ r)
    (h.succeeds r) (h.reports r) (hchecks r).size ((hfits r).passesLocal (hstored r))
  obtain ⟨Rs, himport⟩ : ∃ Rs, Together (fun r => buildDistributedParCsr (A := A) build (lib r)
      .host (M.rank r) (mem r) (policy₁ r)) Rs (fun _ => []) fun r => .ret (out r) :=
    ⟨_, fun r => (buildDistributedParCsr_leads_scan (hchecks r) (hset₂ r)).trans (hout r)⟩
  refine ⟨Rs, out, fun r => ?_, hcomm, hlocation, fun r => hpolicy r ▸ hactive₂ r,
    fun r heap hk => generated_of_import himport hcomm hfits hcol r hk⟩
  rw [generateRank_eq (h.initialized r), hset₁ r]
  exact (himport r).bind

/-- The ranks that agree on when they throw either all throw or all have a solver for the matrix,
the former only if something stops the constructor on all of them. -/
theorem joint_generateRank (h : Assumed build lib process params M mem)
    (hfits : ∀ r, LocalFits build (M.rank r)) (hcol : M.colPart = M.rowPart)
    (hearly : ∀ r s, ThrowsEarly build M policy r → ThrowsEarly build M policy s)
    (hdiag : (∀ r, ¬ ThrowsEarly build M policy r) → ∀ r s,
      DiagonalsStored (M.rank r).diag.csr → DiagonalsStored (M.rank s).diag.csr) :
    Joint (generateRank A build lib process params M mem policy) fun x =>
      (∃ out : Fin P → PcgState × PolicyState × Heap (Buffer V), (x = fun r => .ok (out r)) ∧
        ∀ r, Generated M r (mem r) (out r).1.matrix (out r).2.2) ∨
      GenerateFails build lib params M policy ∧
        ∃ es : Fin P → Error, x = fun r => .error (es r) := by
  by_cases hall : ∀ r, ThrowsEarly build M policy r
  · choose es hes using fun r => generateRank_raises A mem params
      (h.succeeds r) (h.initialized r) (hall r)
    rw [show generateRank A build lib process params M mem policy = _ from funext hes]
    exact .raise (.inr ⟨.inl hall, es, rfl⟩)
  have hnone : ∀ r, ¬ ThrowsEarly build M policy r := fun r hr => hall fun s => hearly r s hr
  by_cases hstored : ∀ r, DiagonalsStored (M.rank r).diag.csr
  · obtain ⟨Rs, out, himports, hcomm, hlocation, hactive, hgenerated⟩ :=
      generateRank_imports (A := A) h hfits hcol hnone hstored
    refine .of_together himports ?_
    refine Joint.mono (Joint.and_wp (endAlike_setUp h.succeeds h.callbacks hcomm hlocation
      hactive fun hfails => hfails).joint fun r => wp_setUp) ?_
    rintro x ⟨⟨out', rfl, -⟩ | ⟨hfails, es, rfl⟩, hkept⟩
    · refine .inl ⟨out', rfl, fun r => ?_⟩
      obtain ⟨hmatrix, hk, -⟩ := hkept r _ rfl
      exact hmatrix ▸ hgenerated r _ hk
    · exact .inr ⟨.inr (.inr hfails), es, rfl⟩
  · have hmissing : ∀ r, ¬ DiagonalsStored (M.rank r).diag.csr := fun r hr =>
      hstored fun s => hdiag hnone r s hr
    choose policy' _ hscan using fun r => generateRank_leads_scan A mem
      params (h.succeeds r) (h.initialized r) (hnone r)
    choose es hes using fun r => afterScan_raises (A := A) (policy' r) (h.succeeds r)
      (h.reports r) (not_not.mp (not_or.mp (hnone r)).2).size
      (mt (hfits r).passesLocal_iff.mp (hmissing r))
    refine .of_together (fun r => hscan r) ?_
    simp only [hes, Program.raise_bind]
    exact .raise (.inr ⟨.inr (.inl fun r => mt (hfits r).passesLocal_iff.mp (hmissing r)), es, rfl⟩)

end

end GinkgoTpl.Hypre
