import GinkgoTpl.Ginkgo.DistVector
import GinkgoTpl.Hypre.ApplyRuns
import GinkgoTpl.Hypre.GenerateSystem

/-!
# The system that a Pcg solver solves

A generation on all ranks and any number of applies after it, as one job on the heaps of the ranks.
hypre works on Ginkgo's own arrays, those of the matrix and those of the callers.
`pcg_solved_system` says that each accepted apply solves the system of the Ginkgo matrix: the
residual of hypre's system in the memory that the solve finds is, row by row, the residual that
Ginkgo computes from the blocks of its own matrix, the caller's `b`, and the `x` that the caller
finds.
-/

namespace GinkgoTpl.Hypre

open Memory Sparse Ginkgo Spmd

variable {P w : ℕ} {V : Type} {build : Build} {describe : ℤ → String}

/-! ## The job -/

/-- What a rank has at the end: what its solver was, where it left the heap, and what it is. -/
structure JobEnd (V : Type) (w : ℕ) where
  generated : PcgState
  heap : Heap (Buffer V)
  after : ApplyState w

section
variable [Inhabited V]

/-- A solver is generated and then applied. -/
def generateAndApply [Zero V] (build : Build) (describe : ℤ → String) (lib : Fin P → Lib V)
    (process : Fin P → Process) (params : Parameters) (M : DistMatrix P V)
    (mem : (r : Fin P) → RankMemory (M.rank r)) (policy : Fin P → PolicyState)
    (jobs : List (Fin P → Job V w)) (r : Fin P) :
    Program (mpi P) ApplyAction Error (JobEnd V w) := do
  let (state, _, heap) ←
    (generateRank Empty build lib process params M mem policy r).mapActions Empty.elim
  let after ← applies build describe (jobs.map fun J => (J r).request) ⟨0, state⟩
  return ⟨state, heap, after⟩

variable {M : DistMatrix P V} {mem : (r : Fin P) → RankMemory (M.rank r)}
  {jobs : List (Fin P → Job V w)}

/-- The rows of rank `r`. -/
def rankRows (M : DistMatrix P V) (r : Fin P) : ℕ := M.rowPart.partSize r

/-- All ranks throw from the constructor, or get through it and the applies. -/
theorem together_generateAndApply [Semiring V] {lib : Fin P → Lib V} {process : Fin P → Process}
    {params : Parameters} {policy : Fin P → PolicyState} (describe : ℤ → String)
    (h : Assumed build lib process params M mem) (hfits : ∀ r, LocalFits build (M.rank r))
    (hcol : M.colPart = M.rowPart)
    (hearly : ∀ r s, ThrowsEarly build M policy r → ThrowsEarly build M policy s)
    (hdiag : (∀ r, ¬ ThrowsEarly build M policy r) → ∀ r s,
      DiagonalsStored (M.rank r).diag.csr → DiagonalsStored (M.rank s).diag.csr)
    (hjobs : ∀ J ∈ jobs, ∀ r, (J r).request.Ready build) :
    ∃ Rs, (∃ ends : Fin P → JobEnd V w,
        (∀ r, Generated M r (mem r) (ends r).generated.matrix (ends r).heap) ∧
        (∀ r, SameSolver ⟨0, (ends r).generated⟩ (ends r).after) ∧
        Together (generateAndApply build describe lib process params M mem policy jobs) Rs
          (fun r => jobs.flatMap fun J => applyActions (rankRows M) J r) fun r => .ret (ends r)) ∨
      GenerateFails build lib params M policy ∧ ∃ es : Fin P → Error, Together
        (generateAndApply build describe lib process params M mem policy jobs) Rs (fun _ => [])
          fun r => .raise (es r) := by
  obtain ⟨Rs, as, x, hgenerate, hx⟩ := joint_generateRank (A := Empty) h hfits hcol hearly hdiag
  have hnil : ∀ r, (as r).map (Empty.elim : Empty → ApplyAction) = [] := fun r => by
    rw [Subsingleton.elim (as r) [], List.map_nil]
  obtain ⟨out, rfl, hgenerated⟩ | ⟨hfails, es, rfl⟩ := hx
  · have hserves : ∀ r, Serves (w := w) ⟨0, (out r).1⟩ (rankRows M r) := fun r =>
      ⟨rfl, (hgenerated r).distributed, (hgenerated r).comm, (hgenerated r).numLocalRows⟩
    obtain ⟨after, hafter, happlies⟩ := together_applies (ε := Error) describe hjobs hserves
    refine ⟨Rs ++ jobs.flatMap (applyRounds (rankRows M)),
      .inl ⟨fun r => ⟨(out r).1, (out r).2.2, after r⟩, hgenerated, hafter, fun r => ?_⟩⟩
    have hgenerate := (hgenerate r).mapActions (Empty.elim : Empty → ApplyAction)
    rw [hnil r] at hgenerate
    exact hgenerate.seq ((happlies r).bind)
  · refine ⟨Rs, .inr ⟨hfails, es, fun r => ?_⟩⟩
    have hgenerate := (hgenerate r).mapActions (Empty.elim : Empty → ApplyAction)
    rw [hnil r] at hgenerate
    exact hgenerate.bind_raise

/-! ## The heaps of the ranks -/

/-- The memory of a rank after the job. At first, hypre's vectors point to the arrays of the
generation. -/
def memoryAfter (M : DistMatrix P V) (jobs : List (Fin P → Job V w)) (r : Fin P) (e : JobEnd V w)
    (log : List ApplyAction) : SolveMemory V :=
  let points : Operand → ℕ
    | .b => e.generated.setupBValues.getD 0
    | .x => e.generated.setupXValues.getD 0
  let coming := (solvesOf (rankRows M) jobs r).map Solve.solution
  (SolveMemory.effects V (rankRows M r)).after ⟨e.heap, points, coming, []⟩ log

/-- The arrays on rank `r` after the first `k` accepted applies. -/
def arraysAfter (M : DistMatrix P V) (jobs : List (Fin P → Job V w)) (ends : Fin P → JobEnd V w)
    (k : ℕ) (r : Fin P) : Arrays ℕ V :=
  outcomes (rankRows M r) (heapArrays (ends r).heap) ((solvesOf (rankRows M) jobs r).take k)

/-- An apply has one right-hand side, and where it is accepted, each rank has arrays for it in
memory before the solver is generated; `x` is none of those of the matrix. -/
structure Ready (build : Build) (M : DistMatrix P V) (mem : (r : Fin P) → RankMemory (M.rank r))
    (J : Fin P → Job V w) : Prop where
  request : ∀ r, (J r).request.Ready build
  fits : AllAccepted (rankRows M) J → ∀ r, (J r).solve.Fits (rankRows M r) (heapArrays (mem r).heap)
  separate : AllAccepted (rankRows M) J → ∀ r, (J r).x.values ∉ (mem r).arrays

section
variable {ends : Fin P → JobEnd V w} {r : Fin P}

theorem fits_solvesOf (hjobs : ∀ J ∈ jobs, Ready build M mem J) (r : Fin P) :
    ∀ s ∈ solvesOf (rankRows M) jobs r, s.Fits (rankRows M r) (heapArrays (mem r).heap) := by
  intro s hs
  obtain ⟨J, hJ, rfl⟩ := List.mem_map.mp hs
  obtain ⟨hJ, hall⟩ := List.mem_filter.mp hJ
  exact (hjobs J hJ).fits (of_decide_eq_true hall) r

/-- The matrix reads none of the arrays that the solves write to. -/
theorem Generated.not_written [Semiring V] {matrix : ParCsr} {heap : Heap (Buffer V)}
    (h : Generated M r (mem r) matrix heap) (hjobs : ∀ J ∈ jobs, Ready build M mem J) :
    ∀ a ∈ matrix.reads, a ∉ (solvesOf (rankRows M) jobs r).map Solve.x := by
  intro a ha hwritten
  obtain ⟨s, hs, rfl⟩ := List.mem_map.mp hwritten
  obtain ⟨values, hvalues, -⟩ := (fits_solvesOf hjobs r s hs).x
  have hlt := Heap.lt_next_of_read (heapArrays_eq_some.mp hvalues)
  obtain ⟨J, hJ, rfl⟩ := List.mem_map.mp hs
  obtain ⟨hJ, hall⟩ := List.mem_filter.mp hJ
  rcases h.reads _ ha with harrays | hnew
  · exact (hjobs J hJ).separate (of_decide_eq_true hall) r harrays
  · exact Nat.not_lt.mpr hnew hlt

/-- The caller finds the solution in `x`. -/
theorem first_arraysAfter_succ (hjobs : ∀ J ∈ jobs, Ready build M mem J)
    (hkeeps : (mem r).heap.Keeps (ends r).heap) {k : ℕ} {J : Fin P → Job V w}
    (hk : (accepted (rankRows M) jobs)[k]? = some J) :
    (arraysAfter M jobs ends (k + 1) r).first (J r).x.values (rankRows M r) = (J r).solution := by
  have hsolve : (solvesOf (rankRows M) jobs r)[k]? = some (J r).solve := by
    rw [solvesOf, List.getElem?_map, hk]
    rfl
  exact first_outcomes_succ (fun s hs => fits_of_keeps hkeeps (fits_solvesOf hjobs r s hs)) hsolve

end

/-! ## The residuals -/

section
variable [Ring V]

/-- Row `i` of the residual of hypre's system on a rank. -/
def ParCsr.residual (result : ParCsr) (heap : Heap (Buffer V)) (b x : List V) (i : ℕ) : V :=
  b.getD i 0 - result.rowProduct heap (fun g => x.getD g.toNat 0) i

/-- As long as the arrays of the matrix are as generated, the residuals agree. -/
theorem Generated.residual_eq {matrix : ParCsr} {heap heap' : Heap (Buffer V)} {r : Fin P}
    (h : Generated M r (mem r) matrix heap)
    (hread : ∀ a ∈ matrix.reads, heap'.read a = heap.read a) {x : Fin P → List V}
    (hx : ∀ s : Fin P, (x s).length = M.rowPart.partSize s) (b : List V) {i : ℕ}
    (hi : i < M.rowPart.partSize r) :
    matrix.residual heap' b (joined x) i =
      rankResidual (M.rank r) b (globalVector M.rowPart x) i := by
  rw [ParCsr.residual, rankResidual, h.product heap' hread _ i hi, rankProduct_eq h.ordered r _ hi,
    rowOfProduct_joined h.ordered hx]

/-- What a generation and applies have come to. -/
structure Solved (M : DistMatrix P V) (mem : (r : Fin P) → RankMemory (M.rank r))
    (jobs : List (Fin P → Job V w)) (ends : Fin P → JobEnd V w)
    (st : State (mpi P) ApplyAction Error (JobEnd V w)) : Prop where
  returned : ∀ r, (st r).phase = .run (.ret (ends r))
  flag : ∀ r, (ends r).after.flag = 0
  /-- The generation keeps what has been in memory. -/
  keeps : ∀ r, (mem r).heap.Keeps (ends r).heap
  /-- The applies write to the `x` of the accepted ones only, and the callers see the solutions. -/
  frame : ∀ r, (ends r).heap.Frame (memoryAfter M jobs r (ends r) (st r).log).heap
    ((solvesOf (rankRows M) jobs r).map Solve.x)
  arrays : ∀ r, heapArrays (memoryAfter M jobs r (ends r) (st r).log).heap =
    arraysAfter M jobs ends (accepted (rankRows M) jobs).length r
  /-- In the memory that a solve has found, the residual of its solution is the one that Ginkgo
  computes with its own matrix, the caller's `b`, and what the callers find in `x`. -/
  residual : ∀ k J, (accepted (rankRows M) jobs)[k]? = some J → ∀ r, ∃ call,
    (memoryAfter M jobs r (ends r) (st r).log).calls[k]? = some call ∧ ∀ i < rankRows M r,
      (ends r).after.solver.matrix.residual call.heap call.b (joined fun s => (J s).solution) i =
        rankResidual (M.rank r) ((arraysAfter M jobs ends k r).first (J r).b.values (rankRows M r))
          (globalVector M.rowPart fun s =>
            (arraysAfter M jobs ends (k + 1) s).first (J s).x.values (rankRows M s)) i

theorem solved_of_generated {ends : Fin P → JobEnd V w}
    {st : State (mpi P) ApplyAction Error (JobEnd V w)}
    (hgenerated : ∀ r, Generated M r (mem r) (ends r).generated.matrix (ends r).heap)
    (hsame : ∀ r, SameSolver ⟨0, (ends r).generated⟩ (ends r).after)
    (hjobs : ∀ J ∈ jobs, Ready build M mem J) (hreturned : ∀ r, (st r).phase = .run (.ret (ends r)))
    (hlog : ∀ r, (st r).log = jobs.flatMap fun J => applyActions (rankRows M) J r) :
    Solved M mem jobs ends st := by
  have hkeeps : ∀ r, (mem r).heap.Keeps (ends r).heap := fun r => (hgenerated r).keeps
  have hfits : ∀ r, ∀ s ∈ solvesOf (rankRows M) jobs r,
      s.Fits (rankRows M r) (heapArrays (ends r).heap) := fun r s hs =>
    fits_of_keeps (hkeeps r) (fits_solvesOf hjobs r s hs)
  have hsolves : ∀ r, SolveMemory.Solves (rankRows M r) _
      (memoryAfter M jobs r (ends r) (st r).log) (solvesOf (rankRows M) jobs r) := fun r => by
    rw [memoryAfter, hlog]
    exact solves_applyActions jobs rfl (hfits r)
  refine ⟨hreturned, fun r => (hsame r).flag, hkeeps, fun r => (hsolves r).frame, fun r => ?_,
    fun k J hk r => ?_⟩
  · rw [(hsolves r).arrays, arraysAfter, List.take_of_length_le]
    exact Nat.le_of_eq (List.length_map _)
  obtain ⟨calls, hcalls, hgivens, hframes⟩ := (hsolves r).calls
  have hgiven := congrArg (·[k]?) hgivens
  simp only [givens_getElem?, List.getElem?_map, solvesOf, hk, Option.map_some,
    Option.map_eq_some_iff] at hgiven
  obtain ⟨call, hcall, hgiven⟩ := hgiven
  have hread : ∀ a ∈ (ends r).generated.matrix.reads, call.heap.read a = (ends r).heap.read a :=
    fun a ha => hframes call (List.mem_of_getElem? hcall) a
      ((hgenerated r).not_written hjobs a ha)
  have hb : call.b = (arraysAfter M jobs ends k r).first (J r).b.values (rankRows M r) :=
    congrArg Prod.fst hgiven
  refine ⟨call, ?_, fun i hi => ?_⟩
  · rw [hcalls, List.nil_append, hcall]
  · rw [(hsame r).matrix, hb, funext fun s => first_arraysAfter_succ hjobs (hkeeps s) hk]
    refine (hgenerated r).residual_eq hread (fun s => ?_) _ hi
    have hs : (J s).solve ∈ solvesOf (rankRows M) jobs s :=
      List.mem_map_of_mem (List.mem_of_getElem? hk)
    exact (fits_solvesOf hjobs s _ hs).solution

/-- If the ranks agree on what stops the constructor, a generation and any number of applies after
it strand no rank and can always be completed, whatever the order of their steps. When all ranks are
done, either something has stopped the constructor on all of them, or each accepted apply has solved
Ginkgo's own system as well as hypre has solved the one in the memory of the ranks. -/
theorem pcg_solved_system {lib : Fin P → Lib V} {process : Fin P → Process} {params : Parameters}
    {policy : Fin P → PolicyState} (h : Assumed build lib process params M mem)
    (hfits : ∀ r, LocalFits build (M.rank r)) (hcol : M.colPart = M.rowPart)
    (hearly : ∀ r s, ThrowsEarly build M policy r → ThrowsEarly build M policy s)
    (hdiag : (∀ r, ¬ ThrowsEarly build M policy r) → ∀ r s,
      DiagonalsStored (M.rank r).diag.csr → DiagonalsStored (M.rank s).diag.csr)
    (hjobs : ∀ J ∈ jobs, Ready build M mem J)
    {st : State (mpi P) ApplyAction Error (JobEnd V w)}
    (hst :
      Reach (start (generateAndApply build describe lib process params M mem policy jobs)) st) :
    (∀ r s, ¬ st.Strands r s) ∧ (∃ st', Reach st st' ∧ ∀ r, st'.Done r) ∧
      ((∀ r, st.Done r) → GenerateFails build lib params M policy ∧
          (∀ r, ∃ e, (st r).phase = .run (.raise e)) ∨
        ∃ ends, Solved M mem jobs ends st) := by
  obtain ⟨Rs, ⟨ends, hgenerated, hsame, htogether⟩ | ⟨hfails, es, htogether⟩⟩ :=
    together_generateAndApply describe h hfits hcol hearly hdiag fun J hJ => (hjobs J hJ).request
  · refine ⟨fun _ _ => htogether.not_strands (fun _ => .ret) hst,
      htogether.completes (fun _ => .ret) hst, fun hdone => .inr ⟨ends, ?_⟩⟩
    have hends : ∀ r, (st r).phase = .run (.ret (ends r)) ∧ (st r).log = _ := fun r => by
      obtain ⟨p, hp, hf⟩ := hdone r
      obtain ⟨rfl, -, hlog⟩ := htogether.outcome hst .ret hp hf
      exact ⟨hp, hlog⟩
    exact solved_of_generated hgenerated hsame hjobs (fun r => (hends r).1) fun r => (hends r).2
  · refine ⟨fun _ _ => htogether.not_strands (fun _ => .raise) hst,
      htogether.completes (fun _ => .raise) hst, fun hdone => .inl ⟨hfails, fun r => ⟨es r, ?_⟩⟩⟩
    obtain ⟨p, hp, hf⟩ := hdone r
    rw [hp, (htogether.outcome hst .raise hp hf).1]

end

end

/-! ## Two ranks with three rows -/

/-- A memory that holds the part of a rank, and a caller's `b` at 8 and `x` at 9. -/
def RankMemory.withVectors [Inhabited V] (L : LocalMatrix P V) (b x : List V) : RankMemory L :=
  { RankMemory.new L with
    heap := ((RankMemory.new L).heap.alloc (.reals b)).alloc (.reals x)
    diag_stored := ⟨rfl, rfl, rfl⟩
    offDiag_stored := ⟨rfl, rfl, rfl⟩
    remote_stored := rfl }

/-- An apply to those vectors, of `localRows` local rows and with the given stride. The solve sets
the bits of `raised`. -/
def jobOf (localRows stride : ℕ) (raised : BitVec 32) (solution : List V) : Job V 32 :=
  let v (values : ℕ) : LinOp :=
    ⟨"distributed::Vector<double>", (3, 1), .distributed stride localRows values⟩
  ⟨⟨fun _ => 0, raised, (0, 12), (0, .finite (1 / 1000)), (0, 1)⟩, v 8, v 9, solution⟩

theorem ready_jobOf [Inhabited V] {M : DistMatrix P V} {b x solution : Fin P → List V}
    (hb : ∀ r, rankRows M r ≤ (b r).length) (hx : ∀ r, rankRows M r ≤ (x r).length)
    (hsolution : ∀ r, (solution r).length = rankRows M r) (stride : Fin P → ℕ)
    (raised : BitVec 32) : Ready .host M (fun r => .withVectors (M.rank r) (b r) (x r))
      fun r => jobOf (rankRows M r) (stride r) raised (solution r) where
  request _ := ⟨rfl, fun _ _ => rfl⟩
  fits _ r := ⟨hsolution r, ⟨b r, rfl, hb r⟩, ⟨x r, rfl, hx r⟩⟩
  separate _ _ := (by decide : 9 ∉ [1, 2, 3, 4, 5, 6])

/-- The first apply solves exactly, rank 1 rejects the second one, and the last one leaves what it
has when hypre gives up. -/
theorem pcg_solved_system_three : ∃ (M : DistMatrix 2 ℤ) (jobs : List (Fin 2 → Job ℤ 32))
      (mem : (r : Fin 2) → RankMemory (M.rank r))
      (st : State (mpi 2) ApplyAction Error (JobEnd ℤ 32)),
    M.entries.length = 4 ∧ jobs.length = 3 ∧ (accepted (rankRows M) jobs).length = 2 ∧
    Reach (start (generateAndApply .host (fun _ => "") (fun _ => .documented ℤ)
      (fun _ => freshProcess) {} M mem (fun _ => freshPolicy) jobs)) st ∧ (∀ r, st.Done r) ∧
    ∃ ends, Solved M mem jobs ends st := by
  let M : DistMatrix 2 ℤ := .ofEntries threeRows threeRows rfl
    [⟨0, 0, 5⟩, ⟨1, 1, 3⟩, ⟨1, 0, 6⟩, ⟨2, 2, 4⟩] (by decide)
  have hfits : ∀ r, LocalFits .host (M.rank r) := by decide
  have hchecks : ∀ r, PassesChecks .host M r := by decide
  have hdiag : ∀ r, DiagonalsStored (M.rank r).diag.csr := by decide
  have hearly := not_throwsEarly hchecks
  let onRanks {α : Type} (a a' : α) : Fin 2 → α := fun r => if r = 0 then a else a'
  let b : Fin 2 → List ℤ := onRanks [10] [15, 8]
  let x : Fin 2 → List ℤ := onRanks [0] [0, 0]
  let job (stride : Fin 2 → ℕ) (raised : BitVec 32) (solution : Fin 2 → List ℤ) :
    Fin 2 → Job ℤ 32 := fun r => jobOf (rankRows M r) (stride r) raised (solution r)
  let jobs := [job (onRanks 1 1) 0 (onRanks [2] [1, 2]), job (onRanks 1 2) 0 x,
    job (onRanks 1 1) 256 (onRanks [2] [0, 1])]
  let mem : (r : Fin 2) → RankMemory (M.rank r) := fun r => .withVectors (M.rank r) (b r) (x r)
  have hb : ∀ r, rankRows M r ≤ (b r).length := by decide
  have hx : ∀ r, rankRows M r ≤ (x r).length := by decide
  have hjobs : ∀ J ∈ jobs, Ready .host M mem J := by
    simp only [jobs, List.forall_mem_cons]
    exact ⟨ready_jobOf hb hx (by decide) .., ready_jobOf hb hx (by decide) ..,
      ready_jobOf hb hx (by decide) .., nofun⟩
  have hsolved := @pcg_solved_system 2 32 ℤ .host (fun _ => "") _ M mem jobs _
    (fun _ => .documented ℤ) (fun _ => freshProcess) {} (fun _ => freshPolicy)
    (assumed_of_fits hfits) hfits rfl (fun r _ hr => absurd hr (hearly r))
    (fun _ _ s _ => hdiag s) hjobs
  obtain ⟨-, ⟨st, hst, hdone⟩, -⟩ := hsolved .refl
  refine ⟨M, jobs, mem, st, rfl, rfl, by decide, hst, hdone,
    ((hsolved hst).2.2 hdone).resolve_left fun hfails => ?_⟩
  exact not_generateFails hfits hchecks hdiag hfails.1

end GinkgoTpl.Hypre
