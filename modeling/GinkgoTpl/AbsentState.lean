import GinkgoTpl.Hypre.Shutdown
import GinkgoTpl.Hypre.Apply
import GinkgoTpl.Petsc.Apply
import GinkgoTpl.SolverObjects

/-!
# Pcg and Ksp objects without a state

`Pcg` and `Ksp` as classes of solvers, on one rank of `P`: their getters, which ask for the state
first, and their applies, which do not. Over any run of operations on objects of either class, an
absent state is looked at exactly if a moved-from object, or a copy of one, is applied to operands
of the size 0 x 1: `absent_state_iff`.
-/

namespace GinkgoTpl

open Spmd Transition

/-- A shared state with the durations of its generation, in nanoseconds. -/
structure Timed (S : Type) where
  state : S
  importTime : ℤ
  setupTime : ℤ

/-! ## Pcg -/

namespace Hypre

/-- What the getters of `Pcg` report. -/
structure PcgReport where
  numIterations : ℕ
  residualNorm : Double
  converged : Bool
  importTime : ℤ
  setupTime : ℤ
  hierarchy : Option Hierarchy

section
variable (s : Option (Timed PcgState))

def getNumIterations : ℕ := s.elim 0 (·.state.numIterations)

def getResidualNorm : Double := s.elim 0 (·.state.residualNorm)

def hasConverged : Bool := s.elim false (·.state.converged)

def getImportTime : ℤ := s.elim 0 (·.importTime)

def getSetupTime : ℤ := s.elim 0 (·.setupTime)

def getHierarchy : Option Hierarchy := s.elim none (·.state.hierarchyInfo)

end

/-- The bits of hypre's error flag before an apply, what hypre and MPI answer, and the clone of `x`
in an advanced apply. -/
structure PcgAnswers (w : ℕ) where
  flag : BitVec w
  solve : SolveAnswers w
  collective : (op : MpiOp) → op.Data → op.Data
  cloneStride : ℕ
  cloneValues : ℕ

/-- How `apply_impl` ends with a state, and the state after it. -/
def applyPcg (P : ℕ) {w : ℕ} (build : Build) (describe : ℤ → String) (answers : PcgAnswers w)
    (a : ApplyCall) (s : Timed PcgState) : Except Error Unit × Timed PcgState :=
  let before : ApplyState w := ⟨answers.flag, s.state⟩
  let program : Program (mpi P) ApplyAction (Thrown w) (ApplyState w) :=
    match a.scalars with
    | none => applyImpl build describe answers.solve a.b a.x before
    | some _ => applyAdvanced build describe answers.solve a.b a.x answers.cloneStride
        answers.cloneValues before
  match program.outcome answers.collective with
  | .ok after => (.ok (), { s with state := after.solver })
  | .error (e, after) => (.error e, { s with state := after.solver })

/-- `Pcg` on one of `P` ranks. -/
def pcgClass (P w : ℕ) (build : Build) (describe : ℤ → String)
    (movedFrom : Parameters → Parameters) : SolverClass where
  name := "Pcg"
  Parameters := Parameters
  default := {}
  movedFrom := movedFrom
  State := Timed PcgState
  Answers := PcgAnswers w
  applyImpl := applyPcg P build describe
  Report := PcgReport
  report s := ⟨getNumIterations s, getResidualNorm s, hasConverged s, getImportTime s,
    getSetupTime s, getHierarchy s⟩
  zero := ⟨0, 0, false, 0, 0, none⟩

end Hypre

/-! ## Ksp -/

namespace Petsc

/-- What the getters of `Ksp` report. -/
structure KspReport where
  numIterations : ℕ
  residualNorm : Double
  convergedReason : ℤ
  converged : Bool
  importTime : ℤ
  setupTime : ℤ

section
variable (s : Option (Timed KspState))

def getNumIterations : ℕ := s.elim 0 (·.state.numIterations)

def getResidualNorm : Double := s.elim 0 (·.state.residualNorm)

def getConvergedReason : ℤ := s.elim 0 (·.state.convergedReason)

def hasConverged : Bool := getConvergedReason s > 0

def getImportTime : ℤ := s.elim 0 (·.importTime)

def getSetupTime : ℤ := s.elim 0 (·.setupTime)

end

/-- Whether the executor is a host executor, what PETSc and MPI answer, and the clone of `x` in an
advanced apply. -/
structure KspAnswers where
  onHost : Bool
  solve : SolveAnswers
  collective : (op : MpiOp) → op.Data → op.Data
  cloneStride : ℕ
  cloneValues : ℕ

/-- How `apply_impl` ends with a state, and the state after it. -/
def applyKsp (P : ℕ) (answers : KspAnswers) (a : ApplyCall) (s : Timed KspState) :
    Except Error Unit × Timed KspState :=
  let program : Program (mpi P) ApplyAction Error KspState :=
    match a.scalars with
    | none => applyImpl answers.solve answers.onHost a.b a.x s.state
    | some _ => applyAdvanced answers.solve answers.onHost a.b a.x answers.cloneStride
        answers.cloneValues s.state
  match program.outcome answers.collective with
  | .ok state => (.ok (), { s with state })
  | .error e => (.error e, s)

/-- `Ksp` on one of `P` ranks; its only parameter are the options. -/
def kspClass (P : ℕ) (movedFrom : String → String) : SolverClass where
  name := "Ksp"
  Parameters := String
  default := ""
  movedFrom := movedFrom
  State := Timed KspState
  Answers := KspAnswers
  applyImpl := applyKsp P
  Report := KspReport
  report s := ⟨getNumIterations s, getResidualNorm s, getConvergedReason s, hasConverged s,
    getImportTime s, getSetupTime s⟩
  zero := ⟨0, 0, 0, false, 0, 0⟩

end Petsc

/-! ## Runs -/

/-- Over all runs of operations on `Pcg` objects and on `Ksp` objects, no operation dereferences an
empty `state_`, and objects without a state report zero and throw, exactly if none of them is
applied to operands of one column that conform to its size. -/
theorem absent_state_iff (P w : ℕ) (build : Hypre.Build) (describe : ℤ → String)
    (movedFrom : Hypre.Parameters → Hypre.Parameters) (movedFrom' : String → String) :
    (∀ states tr objects,
      Run (SolverStep (Hypre.pcgClass P w build describe movedFrom)) (.new states) tr objects →
        ((∀ t ∈ tr, SafeStep t) ↔ ∀ t ∈ tr, ¬ AppliesEmptied t)) ∧
    (∀ states tr objects,
      Run (SolverStep (Petsc.kspClass P movedFrom')) (.new states) tr objects →
        ((∀ t ∈ tr, SafeStep t) ↔ ∀ t ∈ tr, ¬ AppliesEmptied t)) :=
  ⟨fun _ _ _ h => run_safe_iff rfl h, fun _ _ _ h => run_safe_iff rfl h⟩

section
variable {C : SolverClass}

/-- An object is generated for a matrix of `n` rows, and a second one is moved from it. -/
theorem run_generateMove (states : ℕ → C.State) (n : ℕ) (state : C.State) : ∃ tr w,
    Run (SolverStep C) (.new states) tr w ∧ tr.length = 2 ∧ (∀ t ∈ tr, ¬ AppliesEmptied t) ∧
    w.objects = [⟨(0, 0), C.movedFrom C.default, none⟩, ⟨(n, n), C.default, some 0⟩] := by
  have hgenerate : SolverStep C (.new states) .generate _ := .generate n C.default state
  let w : SolverObjects C := (SolverObjects.new states).generate n C.default state
  have hmove : SolverStep C w .moveConstruct (w.moveConstruct 0) :=
    .moveConstruct (Nat.zero_lt_succ _)
  exact ⟨_, _, (Run.nil.snoc hgenerate).snoc hmove, rfl, by simp [AppliesEmptied], rfl⟩

/-- Operands of the size 0 x `cols`. -/
def emptyCall (cols : ℕ) : ApplyCall :=
  let dense : LinOp := ⟨"matrix::Dense<double>", (0, cols), .dense 1 0⟩
  ⟨dense, dense, none⟩

/-- The moved-from object is asked for its results and applied to operands of two columns. -/
theorem run_movedFrom (states : ℕ → C.State) (n : ℕ) (state : C.State) (answers : C.Answers) :
    ∃ tr w, Run (SolverStep C) (.new states) tr w ∧ tr.length = 4 ∧
      ∀ t ∈ tr, ¬ AppliesEmptied t := by
  obtain ⟨tr, w, hrun, hlength, htr, hobjects⟩ := run_generateMove states n state
  have hi : w.objects[0]? = some ⟨(0, 0), C.movedFrom C.default, none⟩ := by rw [hobjects]; rfl
  have hrun' := (hrun.snoc (.get hi)).snoc (.apply answers (emptyCall 2) castError hi)
  refine ⟨_, _, hrun', by simp [hlength], ?_⟩
  simp only [List.forall_mem_append, List.forall_mem_singleton]
  exact ⟨⟨htr, id⟩, fun happlies => absurd happlies.2.2 (by decide)⟩

/-- The moved-from object is applied to operands of one column. -/
theorem run_appliesEmptied (states : ℕ → C.State) (n : ℕ) (state : C.State)
    (answers : C.Answers) : ∃ tr w, Run (SolverStep C) (.new states) tr w ∧
      ∃ t ∈ tr, ¬ SafeStep t := by
  obtain ⟨tr, w, hrun, -, -, hobjects⟩ := run_generateMove states n state
  have hi : w.objects[0]? = some ⟨(0, 0), C.movedFrom C.default, none⟩ := by rw [hobjects]; rfl
  have happly := hrun.snoc (.apply answers (emptyCall 1) castError hi)
  refine ⟨_, _, happly, _, List.mem_append_right _ (List.mem_singleton_self _), fun hsafe => ?_⟩
  refine hsafe.1 ?_
  have hconforms : (emptyCall 1).Conforms (0, 0) := by decide
  simp only [SolverObjects.apply, if_pos hconforms]
  rfl

end

/-- Nothing fails during an apply of a `Pcg` object. -/
def Hypre.PcgAnswers.clear : Hypre.PcgAnswers 32 :=
  ⟨0, ⟨fun _ => 0, 0, (0, 0), (0, 0), (0, 0)⟩, fun _ v => v, 1, 0⟩

def Petsc.KspAnswers.clear : Petsc.KspAnswers :=
  ⟨true, ⟨fun _ => 0, 0, 0, 0, fun _ => 0⟩, fun _ v => v, 1, 0⟩

/-- The state of a `Ksp` for a matrix of one row. -/
def Petsc.oneRowState : Timed Petsc.KspState := ⟨⟨.self, false, false, 1, 0, 0, 0⟩, 0, 0⟩

/-- In both classes, a moved-from object reports nothing, and it throws when it is applied to
operands of two columns. -/
theorem absent_state_iff_twoColumns :
    (∃ tr w, Run (SolverStep (Hypre.pcgClass 1 32 .host (fun _ => "") id))
      (.new fun _ => ⟨.new, 0, 0⟩) tr w ∧ tr.length = 4 ∧ ∀ t ∈ tr, SafeStep t) ∧
    (∃ tr w, Run (SolverStep (Petsc.kspClass 1 id)) (.new fun _ => Petsc.oneRowState) tr w ∧
      tr.length = 4 ∧ ∀ t ∈ tr, SafeStep t) := by
  obtain ⟨hpcg, hksp⟩ := absent_state_iff 1 32 .host (fun _ => "") id id
  obtain ⟨tr, w, hrun, hlength, htr⟩ :=
    run_movedFrom (C := Hypre.pcgClass 1 32 .host (fun _ => "") id) (fun _ => ⟨.new, 0, 0⟩) 1
      ⟨.new, 0, 0⟩ Hypre.PcgAnswers.clear
  obtain ⟨tr', w', hrun', hlength', htr'⟩ := run_movedFrom (C := Petsc.kspClass 1 id)
    (fun _ => Petsc.oneRowState) 1 Petsc.oneRowState Petsc.KspAnswers.clear
  exact ⟨⟨tr, w, hrun, hlength, (hpcg _ tr w hrun).mpr htr⟩,
    ⟨tr', w', hrun', hlength', (hksp _ tr' w' hrun').mpr htr'⟩⟩

/-- In both classes, a moved-from object dereferences its empty `state_` when it is applied to
operands of the size 0 x 1. -/
theorem movedFrom_dereferences :
    (∃ s policy heap tr w, Hypre.generateOneRow = .ok (s, policy, heap) ∧
      Run (SolverStep (Hypre.pcgClass 1 32 .host (fun _ => "") id)) (.new fun _ => ⟨s, 0, 0⟩) tr w ∧
      ∃ t ∈ tr, ¬ SafeStep t) ∧
    (∃ tr w, Run (SolverStep (Petsc.kspClass 1 id)) (.new fun _ => Petsc.oneRowState) tr w ∧
      ∃ t ∈ tr, ¬ SafeStep t) := by
  obtain ⟨s, policy, heap, hs, -⟩ := Hypre.generateOneRow_ok
  obtain ⟨tr, w, hpcg⟩ :=
    run_appliesEmptied (C := Hypre.pcgClass 1 32 .host (fun _ => "") id) (fun _ => ⟨s, 0, 0⟩) 1
      ⟨s, 0, 0⟩ Hypre.PcgAnswers.clear
  exact ⟨⟨s, policy, heap, tr, w, hs, hpcg⟩, run_appliesEmptied _ 1 Petsc.oneRowState
    Petsc.KspAnswers.clear⟩

end GinkgoTpl
