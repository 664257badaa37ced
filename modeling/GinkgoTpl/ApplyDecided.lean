import GinkgoTpl.Hypre.Apply
import GinkgoTpl.Petsc.Apply

/-!
# Ranks decide alike about an apply

In both wrappers, and in the simple and the advanced apply, the ranks of a distributed solver
either all enter the collective solve or all throw the same kind of exception.
-/

namespace GinkgoTpl

open Spmd

section
variable {P w : ℕ} {build : Hypre.Build} (describe : ℤ → String)
  {hypreAnswers : Fin P → Hypre.SolveAnswers w} {pcg : Fin P → Hypre.ApplyState w}
  {petscAnswers : Fin P → Petsc.SolveAnswers} (onHost : Fin P → Bool)
  {ksp : Fin P → Petsc.KspState} {b x : Fin P → LinOp}

/-- Whatever operands the ranks have, as long as `b` has one column, their applies decide alike.
The advanced applies decide about `b` and the clones of `x`, which may have any stride. -/
theorem applies_decidedAlike (hpcg : Hypre.ReadyToApply build hypreAnswers pcg)
    (hksp : Petsc.ReadyToApply petscAnswers ksp) (hcols : ∀ r, (b r).size.2 = 1)
    (stride values : Fin P → ℕ) :
    DecidedAlike (fun r => Hypre.applyImpl build describe (hypreAnswers r) (b r) (x r) (pcg r))
      Prod.fst b x (Hypre.ownedRows pcg) .hypreParCsrPcgSolve ∧
    DecidedAlike (fun r => Hypre.applyAdvanced build describe (hypreAnswers r) (b r) (x r)
      (stride r) (values r) (pcg r)) Prod.fst b (fun r => (x r).clone (stride r) (values r))
      (Hypre.ownedRows pcg) .hypreParCsrPcgSolve ∧
    DecidedAlike (fun r => Petsc.applyImpl (petscAnswers r) (onHost r) (b r) (x r) (ksp r)) id b x
      (Petsc.ownedRows ksp) .kspSolve ∧
    DecidedAlike (fun r => Petsc.applyAdvanced (petscAnswers r) (onHost r) (b r) (x r) (stride r)
      (values r) (ksp r)) id b (fun r => (x r).clone (stride r) (values r)) (Petsc.ownedRows ksp)
      .kspSolve :=
  ⟨Hypre.applyImpl_decidedAlike hpcg hcols, Hypre.applyAdvanced_decidedAlike hpcg hcols _ _,
    Petsc.applyImpl_decidedAlike hksp hcols, Petsc.applyAdvanced_decidedAlike hksp hcols _ _⟩

end

/-! ## Two ranks, one of which has a bad operand -/

/-- hypre without errors, a solver whose matrix has two rows on every rank, and operands for it:
the stride of rank 0 and the type of rank 1 are bad. -/
def quietAnswers : Hypre.SolveAnswers 32 := ⟨fun _ => 0, 0, (0, 0), (0, 0), (0, 0)⟩

def twoRowsPcg : Hypre.ApplyState 32 where
  flag := 0
  solver := { Hypre.PcgState.new with
    matrix := { Hypre.ParCsr.new with comm := .matrix, distributed := true, numLocalRows := 2 } }

def twoRows (stride : ℕ) : LinOp := ⟨"distributed::Vector<double>", (4, 1), .distributed stride 2 0⟩

def skewedX (r : Fin 2) : LinOp :=
  if r = 0 then twoRows 2 else ⟨"matrix::Dense<double>", (4, 1), .dense 1 0⟩

/-- The operands are rejected on some rank, and the ranks decide alike. -/
theorem applies_decidedAlike_skewed :
    (¬ ∀ r, Accepted (twoRows 1) (skewedX r) 2) ∧
    DecidedAlike (fun r : Fin 2 =>
      Hypre.applyImpl .host (fun _ => "") quietAnswers (twoRows 1) (skewedX r) twoRowsPcg)
      Prod.fst (fun _ => twoRows 1) skewedX (Hypre.ownedRows fun _ => twoRowsPcg)
      .hypreParCsrPcgSolve := by
  have hpcg : Hypre.ReadyToApply .host (fun _ => quietAnswers) fun _ : Fin 2 => twoRowsPcg :=
    ⟨fun _ => rfl, fun _ => rfl, fun _ => rfl, fun _ _ _ => rfl⟩
  have hksp : Petsc.ReadyToApply (fun _ : Fin 2 => ⟨fun _ => 0, 0, 0, 0, fun _ => 0⟩)
      fun _ => ⟨.matrix, true, false, 2, 0, 0, 0⟩ :=
    ⟨fun _ => rfl, fun _ => rfl, fun _ _ _ => rfl⟩
  have hcols : ∀ _ : Fin 2, (twoRows 1).size.2 = 1 := fun _ => rfl
  have hbad : BadCast (twoRows 1) (skewedX 1) := trivial
  refine ⟨fun hall => (accepted_iff.mp (hall 1)).1 hbad, ?_⟩
  exact (applies_decidedAlike (fun _ => "") (fun _ => true) hpcg hksp hcols (fun _ => 0)
    fun _ => 0).1

end GinkgoTpl
