import GinkgoTpl.Petsc.Apply
import GinkgoTpl.Petsc.Staging

/-!
# The staged solve of an apply in memory

The apply of a solver performs actions, and `Staging` works on memory. With the actions carried out
in memory, on the host arrays that the allocator gives, both models of `solve_with_arrays` do the
same: `runIn_solveWithArrays`.
-/

namespace GinkgoTpl.Petsc

open Memory Spmd Transition Staging

variable {P : ℕ} {V α : Type}

/-- What the actions of a staged solve of `n` values do in memory, next to those of the solve. -/
def stagedEffect (host : Allocator V Space.host) (n : ℕ)
    (solveEffect : ApplyAction → Cells Space V → Cells Space V) :
    ApplyAction → Cells Space V → Cells Space V
  | .copyToHost _ n source target => fun m =>
    copy n ⟨.device, source⟩ ⟨.host, target⟩ (allocate n ⟨.host, target⟩ host.contents m)
  | .copyBack n source target => copy n ⟨.host, source⟩ ⟨.device, target⟩
  | .freeHost _ values => release n ⟨.host, values⟩
  | action => solveEffect action

/-- A copy to one array does not see an allocation elsewhere. -/
theorem copy_allocate {n : ℕ} {src dst p : Pointer Space} {contents : Pointer Space → V}
    (hdst : ∀ q : Pointer Space, q.Among dst n → ¬ q.Among p n)
    (hsrc : ∀ i, ¬ (src.offset i).Among p n) (m : Cells Space V) :
    copy n src dst (allocate n p contents m) = allocate n p contents (copy n src dst m) := by
  funext q
  by_cases hq : q.Among dst n
  · rw [allocate_of_not_among (hdst q hq), copy, copy, if_pos hq, if_pos hq,
      allocate_of_not_among (hsrc _)]
  · rw [copy_of_not_among hq]
    by_cases hp : q.Among p n
    · rw [allocate, allocate, if_pos hp, if_pos hp]
    · rw [allocate_of_not_among hp, allocate_of_not_among hp, copy_of_not_among hq]

section
variable {answer : (op : MpiOp) → op.Data → op.Data} {host : Allocator V Space.host}
  {solveEffect : ApplyAction → Cells Space V → Cells Space V} {n x hostB hostX : ℕ}
  {p : Program (mpi P) ApplyAction Error α} {m m' : Cells Space V}

/-- After a solve on host copies, `x` is copied back and the host arrays are freed. -/
theorem runIn_freeHost_of_ok {result : α}
    (hrun : p.runIn answer (stagedEffect host n solveEffect) m = .ok result m') :
    (Program.ensuring [.freeHost .x hostX, .freeHost .b hostB] (do
      let result ← p
      Program.perform (.copyBack n hostX x)
      return result)).runIn answer (stagedEffect host n solveEffect) m =
        .ok result (release n ⟨.host, hostB⟩ (release n ⟨.host, hostX⟩
          (copy n ⟨.host, hostX⟩ ⟨.device, x⟩ m'))) := by
  rw [Program.runIn_ensuring, Transition.ensuring, Program.runIn_bind]
  simp only [bind, EStateM.bind, hrun]
  rfl

/-- A solve that throws leaves `x` alone. -/
theorem runIn_freeHost_of_error {e : Error}
    (hrun : p.runIn answer (stagedEffect host n solveEffect) m = .error e m') :
    (Program.ensuring [.freeHost .x hostX, .freeHost .b hostB] (do
      let result ← p
      Program.perform (.copyBack n hostX x)
      return result)).runIn answer (stagedEffect host n solveEffect) m =
        .error e (release n ⟨.host, hostB⟩ (release n ⟨.host, hostX⟩ m')) := by
  rw [Program.runIn_ensuring, Transition.ensuring, Program.runIn_bind]
  simp only [bind, EStateM.bind, hrun]
  rfl

end

/-- The program on memory solves as the staged solve does. -/
theorem runIn_solveWithArrays {host : Allocator V Space.host} {badAlloc : Error}
    {answers : SolveAnswers} {answer : (op : MpiOp) → op.Data → op.Data} {exec : Space}
    {deviceVectors : Bool} {n b x : ℕ} {m : Cells Space V}
    (solveEffect : ApplyAction → Cells Space V → Cells Space V)
    (solve : ℕ → ℕ → Program (mpi P) ApplyAction Error α)
    (hb : host.address m n = some (answers.hostArray .b))
    (hx : host.address (allocate n ⟨.host, answers.hostArray .b⟩ host.contents m) n =
      some (answers.hostArray .x)) :
    (Petsc.solveWithArrays answers (exec = .host) deviceVectors n b x solve).runIn answer
        (stagedEffect host n solveEffect) m =
      Staging.solveWithArrays host badAlloc exec deviceVectors n ⟨exec, b⟩ ⟨exec, x⟩
        (fun b x => (solve b.address x.address).runIn answer (stagedEffect host n solveEffect))
        m := by
  by_cases hpath : deviceVectors ∨ exec = .host
  · rw [solveWithArrays_inPlace hpath, Petsc.solveWithArrays, if_pos (by simpa using hpath)]
  obtain ⟨hvectors, hexec⟩ := not_or.mp hpath
  obtain rfl : exec = .device := by
    cases exec with
    | host => exact absurd rfl hexec
    | device => rfl
  rw [Staging.solveWithArrays, if_neg hpath, Petsc.solveWithArrays,
    if_neg (by simpa using hvectors)]
  -- the second allocation comes before the first copy
  have hcopies : copy n ⟨.device, b⟩ ⟨.host, answers.hostArray .b⟩
      (allocate n ⟨.host, answers.hostArray .x⟩ host.contents
        (allocate n ⟨.host, answers.hostArray .b⟩ host.contents m)) =
      allocate n ⟨.host, answers.hostArray .x⟩ host.contents
        (copy n ⟨.device, b⟩ ⟨.host, answers.hostArray .b⟩
          (allocate n ⟨.host, answers.hostArray .b⟩ host.contents m)) :=
    copy_allocate (fun q hq => not_among_of_fresh (host.fresh hx) hq)
      (fun i => not_among_host rfl rfl) _
  simp only [withArray, hb, hx, solveOnCopies_eq, hcopies]
  cases hrun : (solve (answers.hostArray .b) (answers.hostArray .x)).runIn answer
      (stagedEffect host n solveEffect) _ with
  | ok result m' => exact (runIn_freeHost_of_ok hrun).trans rfl
  | error e m' => exact (runIn_freeHost_of_error hrun).trans rfl

end GinkgoTpl.Petsc
