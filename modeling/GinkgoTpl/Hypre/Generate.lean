import GinkgoTpl.Ginkgo.Read
import GinkgoTpl.Hypre.ImportReturns
import GinkgoTpl.Hypre.Pcg
import GinkgoTpl.Spmd.Alike

/-!
# Which generations strand a rank

The constructor of `Pcg` on a distributed matrix, on all ranks together. From the imported matrix
on, all ranks end alike, whatever the query of the hierarchy returns on each of them. Before that
a rank decides two things on its own: whether it throws before the scan, and whether it throws
after it because an array cannot be allocated or its diagonal block misses a diagonal. No rank is
ever stranded exactly if the ranks agree on both: `generate_strands_iff`.
-/

namespace GinkgoTpl.Hypre

open Sparse Memory Ginkgo Spmd

variable {P : ℕ} {A V : Type} [Inhabited V] {build : Build} {lib : Fin P → Lib V} {N : Prop}

/-! ## From the imported matrix on -/

/-- The callbacks do not throw. -/
structure Parameters.CallbacksReturn (params : Parameters) : Prop where
  amgSetup : ∀ callback, params.amgSetup = some callback → ∀ handle, callback handle = .ok ()
  krylovSetup : ∀ callback, params.krylovSetup = some callback →
    ∀ handle, callback handle = .ok ()

theorem callBack_eq_ok {callback : Option (ℕ → Except Error Unit)}
    (h : ∀ f, callback = some f → ∀ handle, f handle = .ok ()) (handle : ℕ) :
    callBack callback handle = .ok () := by
  cases callback with
  | none => rfl
  | some f => exact h f rfl handle

/-- If hypre's calls succeed, the setters depend on the parameters only. -/
theorem configureAmg_eq {hypre hypre' : Lib V} (h : hypre.Succeeds) (h' : hypre'.Succeeds)
    (params : Parameters) (device : Bool) :
    configureAmg hypre params device = configureAmg hypre' params device := by
  simp only [configureAmg, checkNamed, checkRelaxType, checkIf, h.check, h'.check]

theorem configurePcg_eq_ok {hypre : Lib V} (h : hypre.Succeeds) (params : Parameters) :
    configurePcg hypre params = .ok () := by
  simp only [configurePcg, h.check]
  rfl

theorem endAlike_check (hlib : ∀ r, (lib r).Succeeds) (call : Fin P → HypreCall) :
    EndAlike (C := mpi P) (A := A) N (fun r => Program.ofExcept ((lib r).check (call r)))
      fun _ _ => True :=
  .ofExcept (fun r => (hlib r).check (call r)) fun _ => trivial

theorem endAlike_collective {β : Type} {op : MpiOp} {vs : Fin P → op.Data}
    {f : Fin P → op.Data → Program (mpi P) A Error β} {Q : Fin P → β → Prop}
    (h : EndAlike N (fun r => f r (MpiOp.combine op vs r)) Q) :
    EndAlike N (fun r => collective .matrix op (vs r) >>= f r) Q := by
  show EndAlike N (fun r => Program.call (C := mpi P) op (vs r) (f r)) Q
  exact .call h

theorem endAlike_endOfPhase {device : Bool} (hlib : ∀ r, (lib r).Succeeds) :
    EndAlike (A := A) N (fun r : Fin P => endOfPhase build (lib r) .matrix device)
      fun _ _ => True := by
  have hbarrier : EndAlike (C := mpi P) (A := A) (ε := Error) N
      (fun _ => collective .matrix .barrier ()) fun _ _ => True := by
    show EndAlike N (fun _ => Program.call (C := mpi P) .barrier () .ret) _
    exact .call (.ret fun _ => trivial)
  unfold endOfPhase
  exact .ite (fun _ _ => id) (fun _ => (endAlike_check hlib _).bind fun _ _ => hbarrier)
    fun _ => hbarrier

theorem endAlike_placedVector {v : Operand} {rowStart localSize : Fin P → ℤ} {values : Fin P → ℕ}
    {policy : Fin P → PolicyState} {heap : Fin P → Heap (Buffer V)}
    (hlib : ∀ r, (lib r).Succeeds) (hpolicy : ∀ r, (policy r).active = some .host) :
    EndAlike (A := A) N (fun r => PlacedVector.new build (lib r) v .matrix (rowStart r)
      (localSize r) (values r) .host (policy r) (heap r))
      fun _ out => out.2.1.active = some .host := by
  unfold PlacedVector.new
  choose policy' hset hactive using fun r => (hlib r).setProcessPolicy_host build
    (Lib.not_conflicts_of_active (hpolicy r))
  refine (EndAlike.ofExcept (Q := fun _ s => s.active = some .host) hset hactive).bind
    fun policy hpolicy => .ite (fun _ _ => id) (fun _ => ?_) fun _ => ?_
  · refine (endAlike_check hlib _).bind fun _ _ => ?_
    refine (endAlike_check hlib _).bind fun _ _ => ?_
    refine (endAlike_check hlib _).bind fun _ _ => ?_
    refine (endAlike_check hlib _).bind fun _ _ => ?_
    refine endAlike_collective ?_
    refine (endAlike_check hlib _).bind fun _ _ => ?_
    exact (endAlike_check hlib _).bind fun _ _ => .ret hpolicy
  · simp only [(hlib _).parVector, Bool.false_eq_true, if_false]
    refine (endAlike_check hlib _).bind fun _ _ => ?_
    exact (endAlike_check hlib _).bind fun _ _ => .ret hpolicy

/-- The query of the hierarchy fails on some rank. -/
def HierarchyFails (build : Build) (lib : Fin P → Lib V) : Prop :=
  build.release ≥ 23200 ∧ ∃ r, castInt 32 (lib r).gridHierarchy.1 ≠ 0

/-- All ranks see the same maximum of the errors, so they throw together or not at all. -/
theorem endAlike_gridHierarchy {localRows : Fin P → ℕ}
    (hN : (∃ r, castInt 32 (lib r).gridHierarchy.1 ≠ 0) → N) :
    EndAlike (A := A) N (fun r => gridHierarchy (lib r) .matrix (localRows r))
      fun _ _ => True := by
  rcases isEmpty_or_nonempty (Fin P) with hP | ⟨⟨r₀⟩⟩
  · exact ⟨[], fun _ => [], .inl ⟨hP.elim, hP.elim, hP.elim⟩⟩
  unfold gridHierarchy
  refine endAlike_collective ?_
  refine .ite (fun r s h => ?_) (fun h => .raise (hN ?_) _) fun _ => ?_
  · rwa [show MpiOp.combine .allreduceMax _ s = _ from MpiOp.maxPair_congr _ s r]
  · obtain ⟨s, hs⟩ := MpiOp.exists_maxPair_fst _ r₀
    exact ⟨s, fun hzero => h r₀ (hs.symm.trans hzero)⟩
  · exact endAlike_collective (.ret fun _ => trivial)

/-- What stops the ranks after the import: an unknown name of an option, and the query of the
hierarchy. -/
def SetUpFails (build : Build) (lib : Fin P → Lib V) (params : Parameters) : Prop :=
  configureAmg (.documented V) params false ≠ .ok () ∨ HierarchyFails build lib

section
variable [Zero V]

/-- From the imported matrix on, the ranks end alike. -/
theorem endAlike_setUp {params : Parameters} {matrix : Fin P → ParCsr}
    {policy : Fin P → PolicyState} {heap : Fin P → Heap (Buffer V)}
    (hlib : ∀ r, (lib r).Succeeds) (hparams : params.CallbacksReturn)
    (hcomm : ∀ r, (matrix r).comm = .matrix) (hlocation : ∀ r, (matrix r).memoryLocation = .host)
    (hpolicy : ∀ r, (policy r).active = some .host) (hN : SetUpFails build lib params → N) :
    EndAlike (A := A) N (fun r => setUp build (lib r) params (matrix r) (policy r) (heap r))
      fun _ _ => True := by
  have hdevice : decide (MemoryLocation.host = .device) = false := rfl
  simp only [setUp, hcomm, hlocation, hdevice,
    fun r => configureAmg_eq (hlib r) Lib.documented_succeeds params false,
    callBack_eq_ok hparams.amgSetup, callBack_eq_ok hparams.krylovSetup,
    fun r => configurePcg_eq_ok (hlib r) params]
  refine (endAlike_check hlib _).bind fun _ _ => ?_
  refine (EndAlike.ofExcept_const (Q := fun _ _ => True) _ (fun _ _ _ => trivial)
    fun e he => hN (.inl (by rw [he]; exact nofun))).bind fun _ _ => ?_
  simp only [Program.ofExcept_ok, Program.ret_bind]
  refine (endAlike_check hlib _).bind fun _ _ => ?_
  refine (endAlike_placedVector hlib hpolicy).bind fun outB hB => ?_
  refine (endAlike_placedVector hlib hB).bind fun outX _ => ?_
  refine (endAlike_endOfPhase hlib).bind fun _ _ => ?_
  refine endAlike_collective ?_
  refine (endAlike_check hlib _).bind fun _ _ => ?_
  refine (endAlike_endOfPhase hlib).bind fun _ _ => ?_
  refine .ite (fun _ _ => id) (fun hrelease => ?_) fun _ => .ret fun _ => trivial
  refine (endAlike_gridHierarchy fun ⟨r, hr⟩ => hN (.inr ⟨hrelease r, r, hr⟩)).bind fun _ _ => ?_
  exact .ret fun _ => trivial

/-! ## The import -/

variable {M : DistMatrix P V} {mem : (r : Fin P) → RankMemory (M.rank r)} {params : Parameters}
  {process : Fin P → Process} {policy : Fin P → PolicyState}

/-- Rank `r` throws before the scan. -/
def ThrowsEarly (build : Build) (M : DistMatrix P V) (policy : Fin P → PolicyState) (r : Fin P) :
    Prop := (policy r).Conflicts .host ∨ ¬ PassesChecks build M r

/-- The constructor on rank `r`. -/
def generateRank (A : Type) (build : Build) (lib : Fin P → Lib V) (process : Fin P → Process)
    (params : Parameters) (M : DistMatrix P V) (mem : (r : Fin P) → RankMemory (M.rank r))
    (policy : Fin P → PolicyState) (r : Fin P) :
    Program (mpi P) A Error (PcgState × PolicyState × Heap (Buffer V)) :=
  generate build (lib r) (process r) .host params (.distributed (M.rank r) (mem r)) (policy r)

omit [Zero V] in
theorem size_square (r : Fin P) : (M.rank r).size.1 = (M.rank r).size.2 := by
  rw [(M.read r).size, M.rowPart_size, M.colPart_size]

theorem generateRank_eq {r : Fin P} (hinit : (process r).libraryInitialized) :
    generateRank A build lib process params M mem policy r =
      (Program.ofExcept ((lib r).setProcessPolicy build .host (policy r)) >>= fun policy =>
        buildDistributedParCsr build (lib r) .host (M.rank r) (mem r) policy >>= fun out =>
        setUp build (lib r) params out.1 out.2.1 out.2.2) := by
  simp only [generateRank, generate, hinit, SystemMatrix.size, size_square, importMatrix,
    Bool.not_true, Bool.false_eq_true, ne_eq, not_true_eq_false, if_false]

theorem generateRank_raises (A : Type) (mem : (r : Fin P) → RankMemory (M.rank r))
    (params : Parameters) {r : Fin P} (hlib : (lib r).Succeeds)
    (hinit : (process r).libraryInitialized) (hearly : ThrowsEarly build M policy r) :
    ∃ e, generateRank A build lib process params M mem policy r = .raise e := by
  rw [generateRank_eq hinit]
  by_cases hc : (policy r).Conflicts .host
  · rw [Lib.setProcessPolicy_of_conflict hc]
    exact ⟨_, rfl⟩
  · obtain ⟨policy', hset, -⟩ := hlib.setProcessPolicy_host build hc
    obtain ⟨e, he⟩ := buildDistributedParCsr_raises (A := A) (lib r) .host
      (mem r) policy' (hearly.resolve_left hc)
    rw [hset, Program.ofExcept_ok, Program.ret_bind, he]
    exact ⟨e, rfl⟩

/-- A rank that does not throw before the scan stands after it at its local part. -/
theorem generateRank_leads_scan (A : Type) (mem : (r : Fin P) → RankMemory (M.rank r))
    (params : Parameters) {r : Fin P} (hlib : (lib r).Succeeds)
    (hinit : (process r).libraryInitialized) (hearly : ¬ ThrowsEarly build M policy r) :
    ∃ policy', policy'.active = some .host ∧
      Leads r (generateRank A build lib process params M mem policy r) [scanRound M] []
        (afterScan build (lib r) .host M r (mem r) policy' >>= fun out =>
          setUp build (lib r) params out.1 out.2.1 out.2.2) := by
  obtain ⟨hc, hchecks⟩ := not_or.mp hearly
  obtain ⟨policy₁, hset₁, hactive₁⟩ := hlib.setProcessPolicy_host build hc
  obtain ⟨policy₂, hset₂, hactive₂⟩ := hlib.setProcessPolicy_host build
    (Lib.not_conflicts_of_active hactive₁)
  refine ⟨policy₂, hactive₂, ?_⟩
  rw [generateRank_eq hinit, hset₁]
  exact (buildDistributedParCsr_leads_scan (not_not.mp hchecks) hset₂).bind

/-! ## All ranks -/

/-- What the generation assumes of all ranks: hypre is initialized and its calls succeed, except
that the reorder routine reports missing diagonals and the query of the hierarchy may fail, and
the callbacks do not throw. -/
structure Assumed (build : Build) (lib : Fin P → Lib V) (process : Fin P → Process)
    (params : Parameters) (M : DistMatrix P V) (mem : (r : Fin P) → RankMemory (M.rank r)) :
    Prop where
  succeeds : ∀ r, (lib r).Succeeds
  initialized : ∀ r, (process r).libraryInitialized
  reports : ∀ r, RankReports build (lib r) M r (mem r)
  callbacks : params.CallbacksReturn

/-- What stops the constructor on all ranks. -/
def GenerateFails (build : Build) (lib : Fin P → Lib V) (params : Parameters) (M : DistMatrix P V)
    (policy : Fin P → PolicyState) : Prop :=
  (∀ r, ThrowsEarly build M policy r) ∨ (∀ r, ¬ PassesLocal build (M.rank r)) ∨
    SetUpFails build lib params

/-- If the ranks agree on both, they end alike. -/
theorem endAlike_generate (h : Assumed build lib process params M mem)
    (hearly : ∀ r s, ThrowsEarly build M policy r → ThrowsEarly build M policy s)
    (hlocal : (∀ r, ¬ ThrowsEarly build M policy r) → ∀ r s,
      PassesLocal build (M.rank r) → PassesLocal build (M.rank s)) :
    EndAlike (GenerateFails build lib params M policy)
      (generateRank A build lib process params M mem policy) fun _ _ => True := by
  by_cases hall : ∀ r, ThrowsEarly build M policy r
  · choose es hes using fun r => generateRank_raises A mem params
      (h.succeeds r) (h.initialized r) (hall r)
    rw [show generateRank A build lib process params M mem policy = _ from funext hes]
    exact .raise (.inl hall) es
  have hnone : ∀ r, ¬ ThrowsEarly build M policy r := fun r hr => hall fun s => hearly r s hr
  choose policy' hactive hscan using fun r => generateRank_leads_scan A mem
    params (h.succeeds r) (h.initialized r) (hnone r)
  have hsize := fun r => (not_not.mp (not_or.mp (hnone r)).2).size
  refine .of_together (fun r => hscan r) ?_
  by_cases hpasses : ∀ r, PassesLocal build (M.rank r)
  · choose out hout hcomm hlocation hpolicy using fun r => afterScan_leads (A := A)
      (policy' r) (h.succeeds r) (h.reports r) (hsize r) (hpasses r)
    refine .of_together (fun r => (hout r).bind) ?_
    exact endAlike_setUp h.succeeds h.callbacks hcomm hlocation
      (fun r => (hpolicy r).symm ▸ hactive r) fun hfails => .inr (.inr hfails)
  · have hthrows : ∀ r, ¬ PassesLocal build (M.rank r) := fun r hr =>
      hpasses fun s => hlocal hnone r s hr
    choose es hes using fun r => afterScan_raises (A := A) (policy' r) (h.succeeds r)
      (h.reports r) (hsize r) (hthrows r)
    simp only [hes, Program.raise_bind]
    exact .raise (.inr (.inl hthrows)) es

end

/-! ## Two ranks with three rows -/

/-- Row 0 is on rank 0, and the other rows are on rank 1. -/
def threeRows : Ginkgo.Partition 2 := ⟨3, fun g => if g = 0 then 0 else 1, by decide⟩

/-- hypre is initialized, and no solver has been made. -/
def freshProcess : Process := ⟨.running, .initialized, []⟩
def freshPolicy : PolicyState := ⟨none, .device, .device⟩

theorem assumed_of_fits {M : DistMatrix P V} {mem : (r : Fin P) → RankMemory (M.rank r)}
    (hfits : ∀ r, LocalFits build (M.rank r)) :
    Assumed build (fun _ => .documented V) (fun _ => freshProcess) {} M mem where
  succeeds _ := Lib.documented_succeeds
  initialized _ := rfl
  reports r := reorderReports_of_fits (localWf_rank M r) (hfits r)
  callbacks := ⟨nofun, nofun⟩

theorem not_throwsEarly {M : DistMatrix P V} (h : ∀ r, PassesChecks build M r) (r : Fin P) :
    ¬ ThrowsEarly build M (fun _ => freshPolicy) r :=
  not_or.mpr ⟨(by decide : ¬ freshPolicy.Conflicts .host), not_not.mpr (h r)⟩

theorem not_generateFails [Zero V] {M : DistMatrix 2 V} (hfits : ∀ r, LocalFits build (M.rank r))
    (hchecks : ∀ r, PassesChecks build M r) (hdiag : ∀ r, DiagonalsStored (M.rank r).diag.csr) :
    ¬ GenerateFails build (fun _ => .documented V) {} M fun _ => freshPolicy := by
  rintro (hearly | hlocal | hoptions | ⟨-, r, hr⟩)
  · exact not_throwsEarly hchecks 0 (hearly 0)
  · exact hlocal 0 ((hfits 0).passesLocal (hdiag 0))
  · exact hoptions rfl
  · exact hr rfl

end GinkgoTpl.Hypre
