import GinkgoTpl.Ginkgo.DistVector
import GinkgoTpl.Petsc.ApplyRuns
import GinkgoTpl.Petsc.GenerateOperator

/-!
# The system that a Ksp solves

A generation on all ranks and any number of applies after it, as one job. Its ranks hand a matrix to
PETSc, and later arrays for the vectors of each solve. `solved_system` says that the residual of
PETSc's system is, row by row, the residual that Ginkgo computes from the blocks of its own matrix,
the caller's `b`, and the `x` that the caller finds.
-/

namespace GinkgoTpl.Petsc

open Memory Sparse Ginkgo Spmd

variable {P : ℕ} {V : Type} {needs : PetscOp → Fin P → Fin P → Prop}

/-! ## The job -/

/-- A solver is generated and then applied. -/
def generateAndApply [Inhabited V] (bits : ℕ) (cudaBuild : Bool) (answers : GenerateAnswers)
    (process : PetscProcess) (factory : KspFactory) (id : ℕ) (systemMatrix : SystemMatrix P V)
    (js : List (Job V)) :
    Program (mpiPetsc P needs) (KspAction V ⊕ ApplyAction) Error KspState := do
  let state ← (generate bits cudaBuild answers process factory id systemMatrix).mapActions .inl
  (applyAll state.toKspState js).inl.mapActions .inr

/-- What a rank has done to generate its solver. -/
def generationLog (log : List (KspAction V ⊕ ApplyAction)) : List (KspAction V) :=
  log.filterMap Sum.getLeft?

/-- What a rank has done in its applies. -/
def applyLog (log : List (KspAction V ⊕ ApplyAction)) : List ApplyAction :=
  log.filterMap Sum.getRight?

theorem generationLog_append (as : List (KspAction V)) (bs : List ApplyAction) :
    generationLog (as.map .inl ++ bs.map .inr) = as := by
  simp [generationLog, List.filterMap_map, Function.comp_def]

theorem applyLog_append (as : List (KspAction V)) (bs : List ApplyAction) :
    applyLog (as.map .inl ++ bs.map .inr) = bs := by
  simp [applyLog, List.filterMap_map, Function.comp_def]

section
variable [Inhabited V] {bits : ℕ} {cudaBuild cuda : Bool} {process : PetscProcess}
  {answers : Fin P → GenerateAnswers} {factory : Fin P → KspFactory} {id : Fin P → ℕ}
  {M : DistMatrix P V} {jobs : List (Fin P → Job V)}

/-- The rows that a rank owns in its solver are those of its part. -/
theorem castSize_numLocalRows (hn : M.n < 2 ^ 63) (r : Fin P) :
    castSize (rankCoo M r).numLocalRows = M.rowPart.partSize r := by
  have hrows : (rankCoo M r).numLocalRows = (M.rowPart.partSize r : ℤ) := by
    rw [← (M.read r).diag_rows]
    rfl
  have hle := M.rowPart.start_add_partSize_le r.isLt
  rw [M.rowPart_size] at hle
  rw [hrows, castSize_of_lt (Int.natCast_nonneg _) (by omega), Int.toNat_natCast]

/-- All ranks generate their solvers and get through the applies. -/
theorem together_generateAndApply (needs : PetscOp → Fin P → Fin P → Prop) (cudaBuild : Bool)
    (id : Fin P → ℕ) (h : Succeeds cuda answers factory) (himport : Importable bits process M)
    (hn : M.n < 2 ^ 63) (hjobs : ∀ J ∈ jobs, Solvable J fun r => M.rowPart.partSize r) :
    Together (fun r => generateAndApply bits cudaBuild (answers r) process (factory r) (id r)
      (.distributed (M.rank r)) (jobs.map (· r)))
      (setupRounds needs M ++ [⟨.inl .barrier, fun _ => ()⟩] ++
        (applyRounds (fun r => M.rowPart.partSize r) jobs).map .inl)
      (fun r => (setupActions (cudaBuild && cuda) answers factory id M r ++
          [KspAction.readClock .setupEnd]).map .inl ++
        (applyActions (cudaBuild && cuda) (M.rowPart.partSize r) (jobs.map (· r))).map .inr)
      fun r => .ret ((importedState (cudaBuild && cuda) (rankCoo M r)).toKspState.reportAll
        (jobs.map (· r))) := by
  intro r
  have hgenerate := (together_generate needs cudaBuild id h himport hn r).mapActions
    (Sum.inl : _ → KspAction V ⊕ ApplyAction)
  have happly := together_applyAll
    (fun s => (importedState (cudaBuild && cuda) (rankCoo M s)).toKspState)
    (fun _ => rfl) (fun _ => rfl) (castSize_numLocalRows hn) hjobs r
  exact hgenerate.seq ((happly.inl (D := petsc P needs)).mapActions Sum.inr)

/-! ## The arrays of the callers -/

/-- The memory of a rank with `n` rows after the job. -/
def memoryAfter (n : ℕ) (m : Arrays (Bool × ℕ) V) (js : List (Job V))
    (log : List (KspAction V ⊕ ApplyAction)) : SolveMemory V :=
  (SolveMemory.effects V n).after ⟨m, fun _ => none, js.map Job.solution, []⟩ (applyLog log)

/-- The solves on rank `r`. -/
def solvesOf (jobs : List (Fin P → Job V)) (r : Fin P) : List (Solve (Bool × ℕ) V) :=
  (jobs.map (· r)).map Job.solve

/-- The arrays of the callers on rank `r` after the first `k` applies. -/
def arraysAfter (M : DistMatrix P V) (m : Fin P → Arrays (Bool × ℕ) V)
    (jobs : List (Fin P → Job V)) (k : ℕ) (r : Fin P) : Arrays (Bool × ℕ) V :=
  outcomes (M.rowPart.partSize r) (m r) ((solvesOf jobs r).take k)

/-- The ranks have what the applies need. -/
structure Ready (M : DistMatrix P V) (deviceVectors : Bool) (m : Fin P → Arrays (Bool × ℕ) V)
    (J : Fin P → Job V) : Prop where
  solvable : Solvable J fun r => M.rowPart.partSize r
  fits : ∀ r, (J r).Fits deviceVectors (M.rowPart.partSize r) (m r)

section
variable {deviceVectors : Bool} {m : Fin P → Arrays (Bool × ℕ) V} {J : Fin P → Job V} {k : ℕ}

theorem fits_solvesOf (hjobs : ∀ J ∈ jobs, Ready M deviceVectors m J) (r : Fin P) :
    ∀ s ∈ solvesOf jobs r, s.Fits (M.rowPart.partSize r) (m r) := by
  intro s hs
  obtain ⟨j, hj, rfl⟩ := List.mem_map.mp hs
  obtain ⟨J, hJ, rfl⟩ := List.mem_map.mp hj
  exact ((hjobs J hJ).fits r).solve

theorem fits_arraysAfter (hjobs : ∀ J ∈ jobs, Ready M deviceVectors m J) (hJ : J ∈ jobs) (k : ℕ)
    (r : Fin P) : (J r).solve.Fits (M.rowPart.partSize r) (arraysAfter M m jobs k r) :=
  ((hjobs J hJ).fits r).solve.outcomes fun s hs =>
    fits_solvesOf hjobs r s (List.mem_of_mem_take hs)

/-- The caller finds the solution in `x`. -/
theorem first_arraysAfter_succ (hjobs : ∀ J ∈ jobs, Ready M deviceVectors m J)
    (hk : jobs[k]? = some J) (r : Fin P) :
    (arraysAfter M m jobs (k + 1) r).first (J r).solve.x (M.rowPart.partSize r) =
      (J r).solution := by
  have hsolve : (solvesOf jobs r)[k]? = some (J r).solve := by
    rw [solvesOf, List.getElem?_map, List.getElem?_map, hk]
    rfl
  exact first_outcomes_succ (fits_solvesOf hjobs r) hsolve

end

/-! ## The residuals -/

section
variable [Ring V]

/-- The matrix that PETSc assembles from what the ranks have handed over. -/
def givenMatrix (n : ℕ)
    (st : State (mpiPetsc P needs) (KspAction V ⊕ ApplyAction) Error KspState) :
    Matrix (Fin n) (Fin n) V :=
  assemble n ((List.finRange P).flatMap fun r => handedTriplets (generationLog (st r).log))

/-- Row `g` of the residual of PETSc's system. -/
def residual {n : ℕ} (A : Matrix (Fin n) (Fin n) V) (b x : List V) (g : Fin n) : V :=
  b.getD g 0 - A.mulVec (fun j => x.getD j 0) g

/-- With the stored entries of the matrix, the residuals agree. -/
theorem residual_eq (hord : M.rowPart.hasOrderedParts) {b x : Fin P → List V}
    (hb : ∀ s : Fin P, (b s).length = M.rowPart.partSize s)
    (hx : ∀ s : Fin P, (x s).length = M.rowPart.partSize s) (r : Fin P) {i : ℕ}
    (hi : i < M.rowPart.partSize r) (hg : M.rowPart.start r + i < M.n) :
    residual (assemble M.n (M.entries.map Entry.triplet)) (joined b) (joined x)
      ⟨M.rowPart.start r + i, hg⟩ =
      rankResidual (M.rank r) (b r) (globalVector M.rowPart x) i := by
  have hsize : M.rowPart.size = M.n := M.rowPart_size
  have hrhs : (joined b).getD (M.rowPart.start r + i) 0 = (b r).getD i 0 := by
    rw [joined_getD hord hb (hsize ▸ hg), globalVector_start hord hi]
  have hrow := rankProduct_eq hord r (fun g => globalVector M.rowPart x g.toNat) hi
  have hmul := assemble_entries_mulVec M (fun g => (joined x).getD g.toNat 0)
    ⟨M.rowPart.start r + i, hg⟩
  simp only [Int.toNat_natCast] at hmul
  rw [residual, rankResidual, hrhs, hrow, hmul, rowOfProduct_joined hord hx]

/-- What a generation and applies have come to. -/
structure Solved (M : DistMatrix P V) (deviceVectors : Bool) (m : Fin P → Arrays (Bool × ℕ) V)
    (jobs : List (Fin P → Job V))
    (st : State (mpiPetsc P needs) (KspAction V ⊕ ApplyAction) Error KspState) : Prop where
  /-- Each rank has returned, with what PETSc has reported last. -/
  returned : ∀ r, (st r).phase =
    .run (.ret ((importedState deviceVectors (rankCoo M r)).reportAll (jobs.map (· r))))
  /-- The callers' arrays are as they see it, no array is left in a vector, and PETSc has found in
  `b` and `x` what the callers had there. -/
  memory : ∀ r : Fin P,
    memoryAfter (M.rowPart.partSize r) (m r) (jobs.map (· r)) (st r).log =
      ⟨arraysAfter M m jobs jobs.length r, fun _ => none, [],
        givens (M.rowPart.partSize r) (m r) (solvesOf jobs r)⟩
  /-- The residual of a solution in PETSc's system is the one that Ginkgo computes with its own
  matrix, the caller's `b`, and what the callers find in `x`. -/
  residual : ∀ k J, jobs[k]? = some J → ∀ (r : Fin P) (i : ℕ) (hi : M.rowPart.start r + i < M.n),
    i < M.rowPart.partSize r →
    residual (givenMatrix M.n st)
      (joined fun s : Fin P => ((memoryAfter (M.rowPart.partSize s) (m s) (jobs.map (· s))
        (st s).log).found.getD k ([], [])).1)
      (joined fun s => (J s).solution) ⟨M.rowPart.start r + i, hi⟩ =
    rankResidual (M.rank r)
      ((arraysAfter M m jobs k r).first (J r).solve.b (M.rowPart.partSize r))
      (globalVector M.rowPart fun s =>
        (arraysAfter M m jobs (k + 1) s).first (J s).solve.x (M.rowPart.partSize s)) i

/-- If all calls succeed, then a generation and any number of applies after it can always be
continued until all ranks are done, whatever the order of their steps, and then each apply has
solved Ginkgo's own system as well as PETSc has solved the system that was handed to it. -/
theorem solved_system (h : Succeeds cuda answers factory) (himport : Importable bits process M)
    (hn : M.n < 2 ^ 63) (m : Fin P → Arrays (Bool × ℕ) V)
    (hjobs : ∀ J ∈ jobs, Ready M (cudaBuild && cuda) m J)
    {st : State (mpiPetsc P needs) (KspAction V ⊕ ApplyAction) Error KspState}
    (hst : Reach (start fun r => generateAndApply bits cudaBuild (answers r) process (factory r)
      (id r) (.distributed (M.rank r)) (jobs.map (· r))) st) :
    (∃ st', Reach st st' ∧ ∀ r, st'.Done r) ∧
      ((∀ r, st.Done r) → Solved M (cudaBuild && cuda) m jobs st) := by
  have htogether := together_generateAndApply needs cudaBuild id h himport hn
    fun J hJ => (hjobs J hJ).solvable
  refine ⟨htogether.completes (fun _ => .ret) hst, fun hdone => ?_⟩
  have hends : ∀ r, (st r).phase = _ ∧ (st r).log = _ := fun r => by
    obtain ⟨p, hp, hf⟩ := hdone r
    obtain ⟨rfl, -, hlog⟩ := htogether.outcome hst .ret hp hf
    exact ⟨hp, hlog⟩
  have hmemory : ∀ r : Fin P,
      memoryAfter (M.rowPart.partSize r) (m r) (jobs.map (· r)) (st r).log =
        ⟨arraysAfter M m jobs jobs.length r, fun _ => none, [],
          givens (M.rowPart.partSize r) (m r) (solvesOf jobs r)⟩ := by
    intro r
    have hfits : ∀ j ∈ jobs.map (· r), j.Fits (cudaBuild && cuda) (M.rowPart.partSize r) (m r) := by
      intro j hj
      obtain ⟨J, hJ, rfl⟩ := List.mem_map.mp hj
      exact (hjobs J hJ).fits r
    have hall : (solvesOf jobs r).take jobs.length = solvesOf jobs r := by
      rw [List.take_of_length_le]
      simp [solvesOf]
    rw [memoryAfter, (hends r).2, applyLog_append, arraysAfter, hall]
    exact after_applyActions hfits rfl rfl
  have hmatrix : givenMatrix M.n st = assemble M.n (M.entries.map Entry.triplet) := by
    simp only [givenMatrix, (hends _).2, generationLog_append, (handed_of_generation _).1]
    exact assemble_perm (allTriplets_perm himport.ordered)
  refine ⟨fun r => (hends r).1, hmemory, fun k J hk r i hg hi => ?_⟩
  have hJ := List.mem_of_getElem? hk
  have hfound : ∀ s : Fin P, ((memoryAfter (M.rowPart.partSize s) (m s) (jobs.map (· s))
      (st s).log).found.getD k ([], [])).1 =
      (arraysAfter M m jobs k s).first (J s).solve.b (M.rowPart.partSize s) := by
    intro s
    rw [hmemory, List.getD_eq_getElem?_getD, givens_getElem?, solvesOf, List.getElem?_map,
      List.getElem?_map, hk]
    rfl
  simp only [hfound, hmatrix, first_arraysAfter_succ hjobs hk]
  exact residual_eq himport.ordered (fun s => (fits_arraysAfter hjobs hJ k s).b.length_first)
    (fun s => (fits_arraysAfter hjobs hJ k s).solution) r hi hg

end

end

/-! ## Two systems with one matrix -/

/-- An apply on a host or a device executor that comes to the solution `y`. -/
def twoRowsJob (onHost : Bool) (y : Fin 2 → ℤ) (r : Fin 2) : Job ℤ where
  answers := ⟨fun _ => 0, 2, 0, 2, fun | .b => 20 | .x => 21⟩
  onHost := onHost
  b := ⟨"distributed::Vector<double>", (2, 1), .distributed 1 1 10⟩
  x := ⟨"distributed::Vector<double>", (2, 1), .distributed 1 1 11⟩
  solution := [y r]

/-- The right-hand sides on the host and on the device, and the initial guesses. -/
def twoSides (r : Fin 2) : Arrays (Bool × ℕ) ℤ
  | (false, 10) => some [match r with | 0 => 19 | 1 => 6]
  | (true, 10) => some [match r with | 0 => 12 | 1 => 3]
  | (_, 11) => some [0]
  | _ => none

theorem ready_twoRowsJob (onHost : Bool) (y : Fin 2 → ℤ) :
    Ready twoRows false twoSides (twoRowsJob onHost y) := by
  have hsize : ∀ r : Fin 2, twoRows.rowPart.partSize r = 1 := by decide
  refine ⟨⟨fun _ _ => rfl, fun _ => rfl, fun r => ?_⟩, fun r => ?_⟩
  · exact ⟨⟨10, by rw [hsize]; rfl⟩, ⟨11, by rw [hsize]; rfl⟩⟩
  · rw [hsize]
    refine ⟨fun h => absurd h (by decide), ⟨rfl, ?_, ?_⟩, fun _ _ => ⟨(by decide : 20 ≠ 21), ?_⟩⟩
    · cases onHost <;> exact ⟨_, rfl, Nat.le_refl _⟩
    · cases onHost <;> exact ⟨_, rfl, Nat.le_refl _⟩
    · intro v
      cases v <;> rfl

/-- One system is solved on the host, and then another one on the device. -/
def twoSolves : List (Fin 2 → Job ℤ) :=
  [twoRowsJob true fun | 0 => 1 | 1 => 2, twoRowsJob false fun _ => 1]

/-- On both ranks, the solution of the second system is in the array of the device, and it leaves no
residual. -/
theorem solved_system_two :
    ∃ st : State (mpiPetsc 2 fun _ _ _ => True) (KspAction ℤ ⊕ ApplyAction) Error KspState,
      (∀ r, st.Done r) ∧
      (∀ r : Fin 2, (memoryAfter (twoRows.rowPart.partSize r) (twoSides r) (twoSolves.map (· r))
        (st r).log).arrays (true, 11) = some [1]) ∧
      residual (givenMatrix 2 st) [12, 3] [1, 1] 0 = 0 := by
  have hjobs : ∀ J ∈ twoSolves, Ready twoRows false twoSides J :=
    List.forall_mem_cons.mpr ⟨ready_twoRowsJob .., List.forall_mem_singleton.mpr
      (ready_twoRowsJob ..)⟩
  have htogether := together_generateAndApply (fun _ _ _ => True) false (fun _ => 0)
    succeeds_succeeding importable_twoRows (by decide) fun J hJ => (hjobs J hJ).solvable
  have hreach := htogether.reach_end (fun _ => []) (fun _ => []) fun _ => rfl
  obtain ⟨-, hsolved⟩ := solved_system succeeds_succeeding importable_twoRows (by decide)
    twoSides hjobs hreach
  obtain ⟨hreturned, hmemory, hresidual⟩ := hsolved fun r => ⟨_, rfl, .ret⟩
  refine ⟨_, fun r => ⟨_, hreturned r, .ret⟩, fun r => ?_, ?_⟩
  · refine (congrArg (·.arrays (true, 11)) (hmemory r)).trans ?_
    revert r
    decide
  · have hzero := hresidual 1 _ rfl 0 0 (by decide) (by decide)
    rw [funext fun r => congrArg (fun m => (m.found.getD 1 ([], [])).1) (hmemory r)] at hzero
    exact hzero.trans (by decide)

end GinkgoTpl.Petsc
