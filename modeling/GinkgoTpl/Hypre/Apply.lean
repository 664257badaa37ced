import GinkgoTpl.Hypre.Pcg

/-!
# The apply of a Pcg solver

`Pcg::apply_impl` in `hypre/pcg.hpp` as the program of one rank, with hypre's error flag: every
hypre call may set bits of the flag, and returns it. What an exception leaves of the flag and of
the solver is part of the exception.
-/

namespace GinkgoTpl.Hypre

open Spmd

variable {P w : ℕ}

/-- `HYPRE_ERROR_CONV`. -/
def errorConv : BitVec w := 256#w

/-- The bits that hypre sets during an apply on one rank, and the answers to its queries. -/
structure SolveAnswers (w : ℕ) where
  setData : Operand → BitVec w
  solve : BitVec w
  numIterations : BitVec w × ℤ
  residualNorm : BitVec w × Double
  converged : BitVec w × ℤ

/-- What an apply changes: hypre's error flag, which belongs to the process, and the state of the
solver. -/
structure ApplyState (w : ℕ) where
  flag : BitVec w
  solver : PcgState

/-- An exception, and what the apply leaves behind. -/
abbrev Thrown (w : ℕ) := Error × ApplyState w

namespace ApplyState

/-- A call under `GKO_TPL_ASSERT_NO_HYPRE_ERRORS`, which clears the flag before it throws. -/
def check (describe : ℤ → String) (raised : BitVec w) (call : String) (s : ApplyState w) :
    Except (Thrown w) (ApplyState w) :=
  let s := { s with flag := s.flag ||| raised }
  match assertNoHypreErrors describe s.flag.toInt call with
  | .ok () => .ok s
  | .error e => .error (e, { s with flag := 0 })

/-- The state after a query has been stored. -/
def store (answers : SolveAnswers w) (s : ApplyState w) : ApplyState w :=
  { s with
    solver := { s.solver with
      numIterations := castSize answers.numIterations.2
      residualNorm := answers.residualNorm.2
      converged := answers.converged.2 ≠ 0 } }

/-- The error code of the solve: non-convergence is not an error, but its bit is cleared, and
every other bit throws. -/
def checkSolve (describe : ℤ → String) (raised : BitVec w) (s : ApplyState w) :
    Except (Thrown w) (ApplyState w) :=
  let solveError := s.flag ||| raised
  let s := { s with flag := solveError }
  let s := if solveError &&& errorConv ≠ 0 then { s with flag := s.flag &&& ~~~errorConv } else s
  let fatalError := solveError &&& ~~~errorConv
  if fatalError ≠ 0 then
    .error (hypreError describe fatalError.toInt "HYPRE_ParCSRPCGSolve", { s with flag := 0 })
  else .ok s

/-- The queries after the solve, and what they store. -/
def query (describe : ℤ → String) (answers : SolveAnswers w) (s : ApplyState w) :
    Except (Thrown w) (ApplyState w) := do
  let s ← s.check describe answers.numIterations.1
    "HYPRE_ParCSRPCGGetNumIterations(state_->pcg, &iterations)"
  let s ← s.check describe answers.residualNorm.1
    "HYPRE_ParCSRPCGGetFinalRelativeResidualNorm(state_->pcg, &norm)"
  let s ← s.check describe answers.converged.1 "HYPRE_PCGGetConverged(state_->pcg, &converged)"
  return s.store answers

end ApplyState

/-- `PlacedVector::set_values`: before release 2.33 the pointer is stored without a call. -/
def PlacedVector.setValues (build : Build) (describe : ℤ → String) (answers : SolveAnswers w)
    (v : Operand) (values : ℕ) (s : ApplyState w) :
    Program (mpi P) ApplyAction (Thrown w) (ApplyState w) := do
  Program.perform (.setValues v values)
  if build.release ≥ 23300 then
    Program.ofExcept
      (s.check describe (answers.setData v) (HypreCall.ijVectorSetData v values).text)
  else return s

/-- The solve with the arrays of `b` and `x`, in place. -/
def solve (build : Build) (describe : ℤ → String) (answers : SolveAnswers w)
    (bValues xValues : ℕ) (s : ApplyState w) :
    Program (mpi P) ApplyAction (Thrown w) (ApplyState w) := do
  let s ← PlacedVector.setValues build describe answers .b bValues s
  let s ← PlacedVector.setValues build describe answers .x xValues s
  Program.perform .solve
  let _ ← collective s.solver.matrix.comm (.library .hypreParCsrPcgSolve) ()
  let s ← Program.ofExcept (s.checkSolve describe answers.solve)
  Program.ofExcept (s.query describe answers)

/-- The simple apply. -/
def applyImpl (build : Build) (describe : ℤ → String) (answers : SolveAnswers w) (b x : LinOp)
    (s : ApplyState w) : Program (mpi P) ApplyAction (Thrown w) (ApplyState w) := do
  let matrix := s.solver.matrix
  (checkOperands "Pcg" matrix.distributed matrix.comm matrix.numLocalRows b x).mapError
    fun e => (e, s)
  solve build describe answers b.values x.values s

/-- The advanced apply, `x = alpha * solve(b) + beta * x`, on a clone of `x` with the given stride
and array. -/
def applyAdvanced (build : Build) (describe : ℤ → String) (answers : SolveAnswers w) (b x : LinOp)
    (cloneStride cloneValues : ℕ) (s : ApplyState w) :
    Program (mpi P) ApplyAction (Thrown w) (ApplyState w) := do
  let s ← applyImpl build describe answers b (x.clone cloneStride cloneValues) s
  (addSolution x).mapError fun e => (e, s)
  return s

/-! ## With a clear flag -/

namespace ApplyState

variable {describe : ℤ → String} {answers : SolveAnswers w} {raised : BitVec w} {call : String}
  {s : ApplyState w}

theorem clear_eq (h : s.flag = 0) : { s with flag := 0 } = s := by rw [← h]

/-- With a clear flag, a checked call throws exactly if it sets a bit, and leaves the flag clear. -/
theorem check_of_clear (h : s.flag = 0) : s.check describe raised call =
    if raised = 0 then .ok s else .error (hypreError describe raised.toInt call, s) := by
  have hflag : s.flag ||| raised = raised := by rw [h]; exact BitVec.zero_or
  simp only [check, hflag]
  split_ifs with hr
  · subst hr
    simp only [BitVec.ofNat_eq_ofNat, BitVec.toInt_zero, assertNoHypreErrors_zero]
    exact congrArg _ (clear_eq h)
  · rw [assertNoHypreErrors_of_ne fun h0 => hr (BitVec.eq_of_toInt_eq (by simpa using h0))]
    exact congrArg (fun s => Except.error (_, s)) (clear_eq h)

theorem and_not_of_and_eq_zero {flag bits : BitVec w} (h : flag &&& bits = 0) :
    flag &&& ~~~bits = flag := by
  have hall : (flag &&& bits) ||| (flag &&& ~~~bits) = flag := by
    rw [← BitVec.and_or_distrib_left, BitVec.or_not_self, BitVec.and_allOnes]
  rw [h] at hall
  exact BitVec.zero_or.symm.trans hall

/-- With a clear flag, the solve throws exactly if it sets a bit other than the one for
non-convergence, and the flag is clear afterwards. -/
theorem checkSolve_of_clear (h : s.flag = 0) : s.checkSolve describe raised =
    if raised &&& ~~~errorConv = 0 then .ok s
    else
      .error (hypreError describe (raised &&& ~~~errorConv).toInt "HYPRE_ParCSRPCGSolve", s) := by
  have hflag : s.flag ||| raised = raised := by rw [h]; exact BitVec.zero_or
  by_cases hr : raised &&& ~~~errorConv = 0
  · simp only [checkSolve, hflag, hr, ne_eq, not_true_eq_false, if_false, if_true]
    split_ifs with hconv
    · rw [← and_not_of_and_eq_zero hconv, hr]
      exact congrArg _ (clear_eq h)
    · exact congrArg _ (clear_eq h)
  · simp only [checkSolve, hflag, hr, ne_eq, not_false_eq_true, if_false, if_true]
    split_ifs <;> exact congrArg (fun s => Except.error (_, s)) (clear_eq h)

/-- No query sets a bit. -/
def QueriesClear (answers : SolveAnswers w) : Prop :=
  answers.numIterations.1 = 0 ∧ answers.residualNorm.1 = 0 ∧ answers.converged.1 = 0

theorem query_of_queriesClear (h : s.flag = 0) (hanswers : QueriesClear answers) :
    s.query describe answers = .ok (s.store answers) := by
  obtain ⟨h1, h2, h3⟩ := hanswers
  simp [query, check_of_clear h, h1, h2, h3]

theorem query_of_not_queriesClear (describe : ℤ → String) (h : s.flag = 0)
    (hanswers : ¬ QueriesClear answers) :
    ∃ e, s.query describe answers = .error (e, s) := by
  simp only [query, check_of_clear h]
  by_cases h1 : answers.numIterations.1 = 0
  · by_cases h2 : answers.residualNorm.1 = 0
    · have h3 : answers.converged.1 ≠ 0 := fun h3 => hanswers ⟨h1, h2, h3⟩
      simp only [h1, h2, h3, if_true, if_false, ok_bind, error_bind, check_of_clear h]
      exact ⟨_, rfl⟩
    · simp only [h1, h2, if_true, if_false, ok_bind, error_bind, check_of_clear h]
      exact ⟨_, rfl⟩
  · simp only [h1, if_false, error_bind]
    exact ⟨_, rfl⟩

end ApplyState

/-! ## The solve -/

section
variable {build : Build} {describe : ℤ → String} {answers : SolveAnswers w} {s : ApplyState w}

/-- The calls up to the solve set no bit; before release 2.33 there are none. -/
def UpdatesClear (build : Build) (answers : SolveAnswers w) : Prop :=
  23300 ≤ build.release → ∀ v, answers.setData v = 0

theorem setValues_of_clear (h : s.flag = 0) (hset : UpdatesClear build answers) (v : Operand)
    (values : ℕ) : (PlacedVector.setValues build describe answers v values s :
      Program (mpi P) ApplyAction (Thrown w) (ApplyState w)) =
        .act (.setValues v values) (.ret s) := by
  unfold PlacedVector.setValues
  split_ifs with hrelease
  · rw [ApplyState.check_of_clear h, if_pos (hset hrelease v)]
    rfl
  · rfl

/-- A distributed solve enters the collective solve and nothing else. -/
theorem solve_endsAfter {r : Fin P} {bValues xValues : ℕ} (h : s.flag = 0)
    (hset : UpdatesClear build answers) (hcomm : s.solver.matrix.comm = .matrix) :
    EndsAfter r (solve build describe answers bValues xValues s)
      [libraryRound .hypreParCsrPcgSolve] := by
  simp only [solve, setValues_of_clear h hset, Program.act_bind, Program.ret_bind, hcomm]
  exact .act (.act (.act (endsAfter_library _
    ((Program.local_ofExcept _).bind fun _ => Program.local_ofExcept _))))

end

/-! ## The decision of all ranks -/

section
variable {build : Build} {describe : ℤ → String} {answers : Fin P → SolveAnswers w}
  {b x : Fin P → LinOp} {s : Fin P → ApplyState w}

/-- The ranks share a distributed solver, hypre's error flag is clear on every rank, and pointing
its vectors at the arrays raises no error. -/
structure ReadyToApply (build : Build) (answers : Fin P → SolveAnswers w)
    (s : Fin P → ApplyState w) : Prop where
  distributed : ∀ r, (s r).solver.matrix.distributed = true
  comm : ∀ r, (s r).solver.matrix.comm = .matrix
  flag : ∀ r, (s r).flag = 0
  updates : ∀ r, UpdatesClear build (answers r)

/-- The rows that a rank owns in the system matrix. -/
def ownedRows (s : Fin P → ApplyState w) (r : Fin P) : ℕ :=
  castSize (s r).solver.matrix.numLocalRows

theorem applyImpl_distributed {answers : SolveAnswers w} {b x : LinOp} {s : ApplyState w}
    (hdist : s.solver.matrix.distributed) (hcomm : s.solver.matrix.comm = .matrix)
    (hcols : b.size.2 = 1) : (applyImpl build describe answers b x s :
      Program (mpi P) ApplyAction (Thrown w) (ApplyState w)) =
      (checkDistributed .matrix b x (castSize s.solver.matrix.numLocalRows)).mapError
        (fun e => (e, s)) >>= fun _ => solve build describe answers b.values x.values s := by
  simp only [applyImpl, hdist, hcomm, checkOperands_distributed hcols]

theorem applyImpl_decidedAlike (h : ReadyToApply build answers s)
    (hcols : ∀ r, (b r).size.2 = 1) :
    DecidedAlike (fun r => applyImpl build describe (answers r) (b r) (x r) (s r)) Prod.fst b x
      (ownedRows s) .hypreParCsrPcgSolve :=
  decidedAlike_of_check _ (fun r => applyImpl_distributed (h.distributed r) (h.comm r) (hcols r))
    (fun _ _ => rfl) fun r _ => solve_endsAfter (h.flag r) (h.updates r) (h.comm r)

/-- The advanced apply decides about the clones of `x`. -/
theorem applyAdvanced_decidedAlike (h : ReadyToApply build answers s)
    (hcols : ∀ r, (b r).size.2 = 1) (stride values : Fin P → ℕ) :
    DecidedAlike
      (fun r => applyAdvanced build describe (answers r) (b r) (x r) (stride r) (values r) (s r))
      Prod.fst b (fun r => (x r).clone (stride r) (values r)) (ownedRows s)
      .hypreParCsrPcgSolve := by
  have herror : ∀ r e, ((e, s r) : Thrown w).1 = e := fun _ _ => rfl
  refine decidedAlike_of_check (fun r _ => do
    let s ← solve build describe (answers r) (b r).values
      ((x r).clone (stride r) (values r)).values (s r)
    (addSolution (x r)).mapError fun e => (e, s)
    return s) (fun r => ?_) herror fun r _ => ?_
  · rw [applyAdvanced, applyImpl_distributed (h.distributed r) (h.comm r) (hcols r),
      Program.bind_assoc]
    rfl
  · exact (solve_endsAfter (h.flag r) (h.updates r) (h.comm r)).bind fun s =>
      ((local_addSolution (x r)).mapError _).bind fun _ => Program.local_ret s

end

end GinkgoTpl.Hypre
