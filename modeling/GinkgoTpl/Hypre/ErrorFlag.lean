import GinkgoTpl.Hypre.Apply
import GinkgoTpl.Transition.Run

/-!
# hypre's error flag over a sequence of applies

Applies of any number of solver objects, of which some share a state, in one process. However hypre
sets bits of its flag, the flag is clear after every apply, an apply throws exactly if its operands
are rejected or a bit other than the one for non-convergence is set, and what an object reports
comes whole from one apply.
-/

namespace GinkgoTpl.Hypre

open Spmd Transition

variable {w : ℕ} {build : Build} {describe : ℤ → String}

/-! ## The outcome of one apply -/

/-- hypre sets no bit during the apply, other than the one for non-convergence in the solve. -/
structure SolveClear (build : Build) (answers : SolveAnswers w) : Prop where
  updates : UpdatesClear build answers
  solve : answers.solve &&& ~~~errorConv = 0
  queries : ApplyState.QueriesClear answers

section
variable {P : ℕ} {answers : SolveAnswers w} {s : ApplyState w} {b x : LinOp}
  (answer : (op : MpiOp) → op.Data → op.Data)

theorem setValues_outcome (h : s.flag = 0) (v : Operand) (values : ℕ) :
    (PlacedVector.setValues build describe answers v values s :
      Program (mpi P) ApplyAction (Thrown w) (ApplyState w)).outcome answer =
      if 23300 ≤ build.release → answers.setData v = 0 then .ok s
      else .error (hypreError describe (answers.setData v).toInt
        (HypreCall.ijVectorSetData v values).text, s) := by
  simp only [PlacedVector.setValues, ApplyState.check_of_clear h, Program.perform_bind,
    Program.outcome_act]
  by_cases hrelease : 23300 ≤ build.release
  · simp [hrelease]
  · simp [hrelease]

/-- In the state `s` the call returns, with its answers stored, if `p` holds, and otherwise throws
and leaves nothing behind. -/
def ReturnsIff (p : Prop) (answers : SolveAnswers w) (s : ApplyState w)
    (outcome : Except (Thrown w) (ApplyState w)) : Prop :=
  p ∧ outcome = .ok (s.store answers) ∨ ¬ p ∧ ∃ e, outcome = .error (e, s)

theorem solve_outcome (h : s.flag = 0) (bValues xValues : ℕ) :
    ReturnsIff (SolveClear build answers) answers s
      ((solve build describe answers bValues xValues s :
        Program (mpi P) ApplyAction (Thrown w) (ApplyState w)).outcome answer) := by
  simp only [solve, Program.outcome_bind, setValues_outcome answer h, Program.outcome_perform,
    Program.outcome_ofExcept]
  by_cases hb : 23300 ≤ build.release → answers.setData .b = 0
  case neg =>
    simp only [hb, if_false, error_bind]
    exact .inr ⟨fun hclear => hb fun hrelease => hclear.updates hrelease .b, _, rfl⟩
  by_cases hx : 23300 ≤ build.release → answers.setData .x = 0
  case neg =>
    simp only [if_pos hb, if_neg hx, ok_bind, error_bind, setValues_outcome answer h]
    exact .inr ⟨fun hclear => hx fun hrelease => hclear.updates hrelease .x, _, rfl⟩
  simp only [if_pos hb, if_pos hx, ok_bind, setValues_outcome answer h,
    ApplyState.checkSolve_of_clear h]
  rw [outcome_collective, ok_bind]
  by_cases hsolve : answers.solve &&& ~~~errorConv = 0
  case neg =>
    simp only [if_neg hsolve, error_bind]
    exact .inr ⟨fun hclear => hsolve hclear.solve, _, rfl⟩
  simp only [if_pos hsolve, ok_bind]
  by_cases hqueries : ApplyState.QueriesClear answers
  case neg =>
    obtain ⟨e, he⟩ := ApplyState.query_of_not_queriesClear describe h hqueries
    exact .inr ⟨fun hclear => hqueries hclear.queries, e, he⟩
  refine .inl ⟨⟨fun hrelease v => ?_, hsolve, hqueries⟩,
    ApplyState.query_of_queriesClear h hqueries⟩
  cases v
  · exact hb hrelease
  · exact hx hrelease

/-- The answers of the collective calls of an apply when the other ranks set the flags `others`. -/
def answerWith (others : ℕ) : (op : MpiOp) → op.Data → op.Data
  | .allreduceBor, flags => (flags ||| others : ℕ)
  | _, v => v

/-- The operands pass the checks of the apply: distributed ones on all ranks, others on this. -/
def OperandsAccepted (matrix : ParCsr) (b x : LinOp) (others : ℕ) : Prop :=
  b.size.2 = 1 ∧
    if matrix.distributed then Accepted b x (castSize matrix.numLocalRows) ∧ NoFlags others
    else (∃ values, b.vector = .dense 1 values) ∧ ∃ values, x.vector = .dense 1 values

/-- A distributed matrix is on the communicator of all ranks. -/
def WellPlaced (matrix : ParCsr) : Prop := matrix.distributed → matrix.comm = .matrix

theorem checkDistributed_outcome {rows others : ℕ} :
    (checkDistributed .matrix b x rows : Program (mpi P) ApplyAction Error Unit).outcome
      (answerWith others) = .ok () ↔ Accepted b x rows ∧ NoFlags others := by
  rw [← noFlags_localFlags, ← noFlags_or]
  rcases hflags : localFlags b x rows with ⟨flags, rowsB, rowsX⟩
  simp only [checkDistributed, hflags, Program.outcome_bind, Program.outcome_performAll, ok_bind]
  rw [outcome_collective, ok_bind, Program.outcome_ofExcept]
  exact rejection_eq_ok

theorem checkOperands_outcome {matrix : ParCsr} (hplaced : WellPlaced matrix) (others : ℕ) :
    (checkOperands "Pcg" matrix.distributed matrix.comm matrix.numLocalRows b x :
      Program (mpi P) ApplyAction Error Unit).outcome (answerWith others) = .ok () ↔
      OperandsAccepted matrix b x others := by
  have hcols : (∃ a, checkColumns "Pcg" b x = .ok a) ↔ b.size.2 = 1 :=
    ⟨fun ⟨_, h⟩ => checkColumns_eq_ok.mp h, fun h => ⟨(), checkColumns_eq_ok.mpr h⟩⟩
  simp only [checkOperands, Program.outcome_bind, Program.outcome_ofExcept, bind_eq_ok,
    exists_and_right, hcols]
  refine and_congr .rfl ?_
  cases hdist : matrix.distributed with
  | true =>
    rw [if_pos rfl, if_pos rfl, hplaced hdist]
    exact checkDistributed_outcome
  | false => simpa using checkDense_eq_ok

/-- The simple apply returns exactly if its operands are accepted and hypre sets no bit. -/
theorem applyImpl_outcome (h : s.flag = 0) (hplaced : WellPlaced s.solver.matrix) (others : ℕ) :
    ReturnsIff (OperandsAccepted s.solver.matrix b x others ∧ SolveClear build answers) answers s
      ((applyImpl build describe answers b x s :
        Program (mpi P) ApplyAction (Thrown w) (ApplyState w)).outcome (answerWith others)) := by
  have hcheck := checkOperands_outcome (P := P) (b := b) (x := x) hplaced others
  simp only [applyImpl, Program.outcome_bind, Program.outcome_mapError]
  cases hout : (checkOperands "Pcg" s.solver.matrix.distributed s.solver.matrix.comm
      s.solver.matrix.numLocalRows b x : Program (mpi P) ApplyAction Error Unit).outcome
      (answerWith others) with
  | error e =>
    refine .inr ⟨fun hall => ?_, e, rfl⟩
    cases hout.symm.trans (hcheck.mpr hall.1)
  | ok =>
    have haccepted := hcheck.mp hout
    have hsolve : ReturnsIff _ answers s ((solve build describe answers b.values x.values s :
      Program (mpi P) _ _ _).outcome (answerWith others)) := solve_outcome _ h _ _
    rcases hsolve with ⟨hclear, hsolve⟩ | ⟨hclear, hsolve⟩
    · exact .inl ⟨⟨haccepted, hclear⟩, hsolve⟩
    · exact .inr ⟨fun hall => hclear hall.2, hsolve⟩

theorem not_accepted_clone_other {matrix : ParCsr} {others stride values : ℕ}
    (hx : x.vector = .other) : ¬ OperandsAccepted matrix b (x.clone stride values) others := by
  rintro ⟨-, h⟩
  have hclone : (x.clone stride values).vector = .other := by rw [LinOp.clone, hx]
  split_ifs at h
  · obtain ⟨⟨-, _, hx'⟩, -⟩ := h
    cases hclone.symm.trans hx'
  · obtain ⟨-, _, hx'⟩ := h
    cases hclone.symm.trans hx'

/-- The advanced apply ends like the simple one on the clone of `x`. -/
theorem applyAdvanced_outcome (h : s.flag = 0) (hplaced : WellPlaced s.solver.matrix)
    (others stride values : ℕ) :
    ReturnsIff (OperandsAccepted s.solver.matrix b (x.clone stride values) others ∧
      SolveClear build answers) answers s
      ((applyAdvanced build describe answers b x stride values s :
        Program (mpi P) ApplyAction (Thrown w) (ApplyState w)).outcome (answerWith others)) := by
  have hsimple : ReturnsIff _ answers s ((applyImpl build describe answers b
    (x.clone stride values) s : Program (mpi P) _ _ _).outcome (answerWith others)) :=
      applyImpl_outcome h hplaced others
  simp only [applyAdvanced, Program.outcome_bind, Program.outcome_mapError]
  rcases hsimple with ⟨hall, hsimple⟩ | ⟨hall, e, hsimple⟩
  · refine .inl ⟨hall, ?_⟩
    rw [hsimple, ok_bind]
    cases hx : x.vector with
    | distributed | dense => simp [addSolution, hx]
    | other => exact absurd hall.1 (not_accepted_clone_other hx)
  · refine .inr ⟨hall, e, ?_⟩
    rw [hsimple, error_bind]

end

/-! ## Applies in a process -/

/-- What `num_iterations`, `residual_norm` and `has_converged` report. -/
def PcgState.report (state : PcgState) : ℕ × Double × Bool :=
  (state.numIterations, state.residualNorm, state.converged)

/-- The solvers of a process: hypre's flag, the states, and the state that each object holds. -/
structure Solvers (w : ℕ) where
  flag : BitVec w
  states : ℕ → PcgState
  objects : ℕ → ℕ

/-- An apply on an object: an advanced one has the stride and the array of its clone of `x`. -/
structure Apply (w : ℕ) where
  object : ℕ
  b : LinOp
  x : LinOp
  clone : Option (ℕ × ℕ)
  answers : SolveAnswers w
  /-- The flags that other ranks set in the check of the operands. -/
  others : ℕ

inductive ApplyEvent (w : ℕ) where
  | apply (a : Apply w)
  /-- One object is assigned to another and shares its state from then on. -/
  | copy (source target : ℕ)

namespace Apply

/-- The `x` of the simple apply. -/
def solveX (a : Apply w) : LinOp :=
  match a.clone with
  | none => a.x
  | some (stride, values) => a.x.clone stride values

def stateBefore (a : Apply w) (p : Solvers w) : ApplyState w :=
  ⟨p.flag, p.states (p.objects a.object)⟩

/-- How the apply ends on a rank among `P`. -/
def outcome (P : ℕ) (build : Build) (describe : ℤ → String) (a : Apply w) (p : Solvers w) :
    Except (Thrown w) (ApplyState w) :=
  let program : Program (mpi P) ApplyAction (Thrown w) (ApplyState w) :=
    match a.clone with
    | none => applyImpl build describe a.answers a.b a.x (a.stateBefore p)
    | some (stride, values) =>
      applyAdvanced build describe a.answers a.b a.x stride values (a.stateBefore p)
  program.outcome (answerWith a.others)

/-- What the queries of the apply answer. -/
def queried (a : Apply w) : ℕ × Double × Bool :=
  (castSize a.answers.numIterations.2, a.answers.residualNorm.2, a.answers.converged.2 ≠ 0)

/-- The operands are accepted and hypre sets no bit but the one for non-convergence. -/
def Succeeds (build : Build) (a : Apply w) (p : Solvers w) : Prop :=
  OperandsAccepted (p.states (p.objects a.object)).matrix a.b a.solveX a.others ∧
    SolveClear build a.answers

end Apply

def Solvers.after (p : Solvers w) (k : ℕ) (s : ApplyState w) : Solvers w :=
  { p with flag := s.flag, states := Function.update p.states k s.solver }

inductive ApplyStep (P : ℕ) (build : Build) (describe : ℤ → String) :
    Solvers w → ApplyEvent w → Solvers w → Prop
  | returns {p a s} : a.outcome P build describe p = .ok s →
    ApplyStep P build describe p (.apply a) (p.after (p.objects a.object) s)
  | throws {p a e s} : a.outcome P build describe p = .error (e, s) →
    ApplyStep P build describe p (.apply a) (p.after (p.objects a.object) s)
  | copy {p source target} : ApplyStep P build describe p (.copy source target)
    { p with objects := Function.update p.objects target (p.objects source) }

/-- What the last apply on the state `k` that returned has queried. -/
def lastQueried (P : ℕ) (build : Build) (describe : ℤ → String) (k : ℕ)
    (tr : List (Solvers w × ApplyEvent w × Solvers w)) : ℕ × Double × Bool :=
  tr.foldl (fun report t =>
    match t with
    | (p, .apply a, _) =>
      if p.objects a.object = k ∧ (a.outcome P build describe p).isOk then a.queried else report
    | _ => report) (0, 0, false)

/-- The flag is clear, and distributed matrices are on the communicator of all ranks. -/
structure Solvers.Inv (p : Solvers w) : Prop where
  flag : p.flag = 0
  placed : ∀ k, WellPlaced (p.states k).matrix

section
variable {P : ℕ} {p p' : Solvers w} {a : Apply w} {e : ApplyEvent w}
  {tr : List (Solvers w × ApplyEvent w × Solvers w)}

theorem Apply.outcome_spec (h : p.Inv) : ReturnsIff (a.Succeeds build p) a.answers
    (a.stateBefore p) (a.outcome P build describe p) := by
  have hplaced : WellPlaced (a.stateBefore p).solver.matrix := h.placed _
  unfold Apply.outcome Apply.Succeeds Apply.solveX
  cases a.clone with
  | none => exact applyImpl_outcome h.flag hplaced a.others
  | some clone => exact applyAdvanced_outcome h.flag hplaced a.others clone.1 clone.2

/-- What one step does: an apply that succeeds stores what it has queried, and one that throws
changes nothing. -/
theorem ApplyStep.cases (hstep : ApplyStep P build describe p e p') (h : p.Inv) :
    (∃ a, e = .apply a ∧ a.Succeeds build p ∧ (a.outcome P build describe p).isOk ∧
      p' = p.after (p.objects a.object) ((a.stateBefore p).store a.answers)) ∨
    (∃ a, e = .apply a ∧ ¬ a.Succeeds build p ∧ ¬ (a.outcome P build describe p).isOk ∧ p' = p) ∨
    ∃ source target, e = .copy source target ∧
      p' = { p with objects := Function.update p.objects target (p.objects source) } := by
  cases hstep with
  | @returns a s hout =>
    rcases Apply.outcome_spec (a := a) h with ⟨hsucc, hspec⟩ | ⟨-, e, hspec⟩
    · cases hout.symm.trans hspec
      exact .inl ⟨a, rfl, hsucc, by rw [hout]; rfl, rfl⟩
    · cases hout.symm.trans hspec
  | @throws a e s hout =>
    rcases Apply.outcome_spec (a := a) h with ⟨-, hspec⟩ | ⟨hsucc, e', hspec⟩
    · cases hout.symm.trans hspec
    · cases hout.symm.trans hspec
      refine .inr (.inl ⟨a, rfl, hsucc, by rw [hout]; nofun, ?_⟩)
      simp [Solvers.after, Apply.stateBefore]
  | copy => exact .inr (.inr ⟨_, _, rfl, rfl⟩)

theorem ApplyStep.inv (hstep : ApplyStep P build describe p e p') (h : p.Inv) : p'.Inv := by
  rcases hstep.cases h with ⟨a, -, -, -, rfl⟩ | ⟨-, -, -, -, rfl⟩ | ⟨-, -, -, rfl⟩
  · refine ⟨h.flag, fun k => ?_⟩
    by_cases hk : k = p.objects a.object
    · subst hk
      simpa [Solvers.after, ApplyState.store, Apply.stateBefore] using
        h.placed (p.objects a.object)
    · simpa [Solvers.after, hk] using h.placed k
  · exact h
  · exact ⟨h.flag, h.placed⟩

theorem inv_of_run (h : Run (ApplyStep P build describe) p tr p') (h0 : p.Inv) : p'.Inv :=
  h.invariant h0 fun _ _ _ _ hstep => hstep.inv

/-- One step keeps what every state reports in line with the applies so far. -/
theorem ApplyStep.report_eq (hstep : ApplyStep P build describe p e p') (h : p.Inv)
    (hreport : ∀ k, (p.states k).report = lastQueried P build describe k tr) (k : ℕ) :
    (p'.states k).report = lastQueried P build describe k (tr ++ [(p, e, p')]) := by
  unfold lastQueried at hreport ⊢
  rw [List.foldl_append, ← hreport k]
  rcases hstep.cases h with ⟨a, rfl, -, hok, rfl⟩ | ⟨a, rfl, -, hok, rfl⟩ | ⟨_, _, rfl, rfl⟩
  · by_cases hk : p.objects a.object = k
    · subst hk
      simp [hok, Solvers.after, ApplyState.store, PcgState.report, Apply.queried]
    · simp [hk, Solvers.after, Function.update_of_ne (Ne.symm hk)]
  · simp [hok]
  · rfl

theorem report_eq_of_run (h : Run (ApplyStep P build describe) p tr p') (h0 : p.Inv)
    (hfresh : ∀ k, (p.states k).report = (0, 0, false)) :
    ∀ k, (p'.states k).report = lastQueried P build describe k tr := by
  induction h with
  | nil => exact hfresh
  | snoc hrun hstep ih => exact hstep.report_eq (inv_of_run hrun h0) ih

/-- Over every sequence of applies and copies that starts with a clear flag and solvers that have
not been applied: the flag is clear after every step, an apply returns exactly if it succeeds, and
every object reports what the last apply on its state that returned has queried. -/
theorem run_applies (h : Run (ApplyStep P build describe) p tr p') (hflag : p.flag = 0)
    (hplaced : ∀ k, WellPlaced (p.states k).matrix)
    (hfresh : ∀ k, (p.states k).report = (0, 0, false)) :
    (∀ q e q', (q, e, q') ∈ tr → q'.flag = 0) ∧
    (∀ q a q', (q, .apply a, q') ∈ tr →
      ((a.outcome P build describe q).isOk ↔ a.Succeeds build q)) ∧
    ∀ object, (p'.states (p'.objects object)).report =
      lastQueried P build describe (p'.objects object) tr := by
  have h0 : p.Inv := ⟨hflag, hplaced⟩
  have hmem := fun {q e q'} (ht : (q, e, q') ∈ tr) =>
    h.invariant_mem h0 (fun _ _ _ _ hstep => hstep.inv) ht
  refine ⟨fun q e q' ht => ((hmem ht).1.inv (hmem ht).2).flag, fun q a q' ht => ?_,
    fun _ => report_eq_of_run h h0 hfresh _⟩
  rcases Apply.outcome_spec (a := a) (hmem ht).2 with ⟨hsucc, hout⟩ | ⟨hsucc, e, hout⟩
  · exact iff_of_true (by rw [hout]; rfl) hsucc
  · exact iff_of_false (by rw [hout]; nofun) hsucc

end

/-- An apply on object 0 whose solve does not converge. -/
def unconverged : Apply 32 where
  object := 0
  b := ⟨"matrix::Dense<double>", (4, 1), .dense 1 0⟩
  x := ⟨"matrix::Dense<double>", (4, 1), .dense 1 1⟩
  clone := none
  answers := ⟨fun _ => 0, 256, (0, 100), (0, .finite (1 / 2)), (0, 0)⟩
  others := 0

/-- It returns, the flag is clear afterwards, and object 1, which shares the state, reports it. -/
theorem run_applies_unconverged :
    ∃ p', ApplyStep 1 .host (fun _ => "") ⟨0, fun _ => .new, fun _ => 0⟩ (.apply unconverged) p' ∧
      p'.flag = 0 ∧ (p'.states (p'.objects 1)).report = (100, .finite (1 / 2), false) := by
  have hstep : ApplyStep 1 .host (fun _ => "") (⟨0, fun _ => .new, fun _ => 0⟩ : Solvers 32)
    (.apply unconverged) _ := .returns rfl
  refine ⟨_, hstep, ?_⟩
  obtain ⟨hflag, -, hreport⟩ := run_applies (.snoc .nil hstep) rfl (fun _ => nofun) fun _ => rfl
  exact ⟨hflag _ _ _ (List.mem_singleton_self _), hreport 1⟩

end GinkgoTpl.Hypre
