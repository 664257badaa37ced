import GinkgoTpl.Petsc.Apply
import GinkgoTpl.Transition.Run

/-!
# The arrays in PETSc's vectors

The two vectors of a state hold arrays that are not theirs only during an apply. Over applies of
any number of objects that share the state, each of which may fail at any of its calls,
`arrays_released` says which arrays PETSc sees in a solve, and that none is left when an apply has
returned or thrown.
-/

namespace GinkgoTpl.Petsc

open Spmd Transition

variable {P : ℕ}

/-- The arrays that are placed in the vectors of a state, with their memory space, and the host
arrays of a staged solve. -/
@[ext] structure Placement where
  placed : Operand → Option (Bool × ℕ)
  staged : Operand → Option ℕ

namespace Placement

def empty : Placement := ⟨fun _ => none, fun _ => none⟩

def place (p : Placement) (v : Operand) (device : Bool) (values : ℕ) : Placement :=
  { p with placed := Function.update p.placed v (some (device, values)) }

def reset (p : Placement) (v : Operand) : Placement :=
  { p with placed := Function.update p.placed v none }

def stage (p : Placement) (v : Operand) (values : ℕ) : Placement :=
  { p with staged := Function.update p.staged v (some values) }

def free (p : Placement) (v : Operand) : Placement :=
  { p with staged := Function.update p.staged v none }

theorem placed_place_of_ne {p : Placement} {u v : Operand} {device : Bool} {values : ℕ}
    (h : u ≠ v) : (p.place v device values).placed u = p.placed u :=
  Function.update_of_ne h ..

theorem reset_place {p : Placement} {v : Operand} {device : Bool} {values : ℕ}
    (h : p.placed v = none) : (p.place v device values).reset v = p := by
  ext1
  · simp only [reset, place, Function.update_idem]
    exact Function.update_eq_self_iff.mpr h.symm
  · rfl

end Placement

/-! ## Applies -/

/-- An apply on an object with an executor of its own, and the shared state as the apply finds it:
an advanced one has the stride and the array of its clone of `x`. -/
structure KspApply where
  onHost : Bool
  state : KspState
  b : LinOp
  x : LinOp
  clone : Option (ℕ × ℕ)
  answers : SolveAnswers

namespace KspApply

variable (a : KspApply)

def program : Program (mpi P) ApplyAction Error KspState :=
  match a.clone with
  | none => applyImpl a.answers a.onHost a.b a.x a.state
  | some (stride, values) => applyAdvanced a.answers a.onHost a.b a.x stride values a.state

/-- The `x` that PETSc solves for. -/
def solveX : LinOp :=
  match a.clone with
  | none => a.x
  | some (stride, values) => a.x.clone stride values

/-- The vectors are host vectors and the operands are not. -/
def isStaged : Bool := !(a.state.deviceVectors || a.onHost)

/-- The array with which an operand takes part in the solve of this apply. -/
def array (v : Operand) : ℕ :=
  if a.isStaged then a.answers.hostArray v
  else match v with
    | .b => a.b.values
    | .x => a.solveX.values

/-- What the actions of the apply do to the vectors, and when they are right: an array is placed
in a free vector and taken out of the vector it is in; the solve finds the arrays of this apply in
both vectors, and host arrays of a staged solve that are still there; these are freed once, when no
vector holds an array. -/
def effects : Effects ApplyAction Placement where
  apply p
    | .placeArray v device values => p.place v device values
    | .resetArray v _ => p.reset v
    | .copyToHost v _ _ target => p.stage v target
    | .freeHost v _ => p.free v
    | _ => p
  allowed p
    | .placeArray v _ _ => p.placed v = none
    | .resetArray v device => ∃ values, p.placed v = some (device, values)
    | .solve => (∀ v, p.placed v = some (a.state.deviceVectors, a.array v)) ∧
      (a.isStaged → ∀ v, p.staged v = some (a.array v))
    | .copyToHost v .. => p.staged v = none
    | .copyBack _ source _ => p.staged .x = some source
    | .freeHost v values => p.staged v = some values ∧ ∀ v, p.placed v = none
    | _ => True

end KspApply

/-! ## One apply -/

section
variable {a : KspApply} {p : Placement} {answers : SolveAnswers} {α : Type}

/-- Around `body`, an array stands in a vector that was free, and is out again afterwards. -/
theorem wp_placedArray {device : Bool} {v : Operand} {values : ℕ}
    {body : Program (mpi P) ApplyAction Error α} {Q : Except Error α → Placement → Prop}
    (hfree : p.placed v = none) (hfail : ∀ e, Q (.error e) p)
    (hbody : body.Wp a.effects (p.place v device values) fun x t =>
      t = p.place v device values ∧ Q x p) :
    (placedArray answers device v values body).Wp a.effects p Q := by
  refine Program.wp_ofExcept_bind hfail fun _ => ⟨hfree, Program.wp_ensuring.mpr ?_⟩
  refine hbody.mono ?_
  rintro x _ ⟨rfl, hQ⟩
  refine ⟨⟨⟨values, Function.update_self ..⟩, trivial⟩, ?_⟩
  rw [show a.effects.after _ _ = (p.place v device values).reset v from rfl,
    Placement.reset_place hfree]
  exact hQ

/-- The solve with the arrays of the apply leaves the vectors as it finds them. -/
theorem wp_solve (hfree : ∀ v, p.placed v = none)
    (hstaged : a.isStaged → ∀ v, p.staged v = some (a.array v)) :
    (solve answers a.state (a.array .b) (a.array .x) : Program (mpi P) _ _ _).Wp a.effects p
      fun _ t => t = p := by
  refine wp_placedArray (hfree _) (fun _ => rfl) (wp_placedArray ?_ (fun _ => ⟨rfl, rfl⟩) ?_)
  · exact (Placement.placed_place_of_ne (by decide)).trans (hfree .x)
  · rw [Program.perform_bind]
    refine ⟨⟨?_, hstaged⟩, Program.wp_bind.mpr (wp_collective fun _ => ?_)⟩
    · rintro (_ | _)
      · rfl
      · rfl
    · -- the queries touch no vector, whether they fail or not
      exact Program.wp_ofExcept_bind (fun _ => ⟨rfl, rfl, rfl⟩) fun _ =>
        Program.wp_ofExcept_bind (fun _ => ⟨rfl, rfl, rfl⟩) fun _ =>
        Program.wp_ofExcept_bind (fun _ => ⟨rfl, rfl, rfl⟩) fun _ =>
        Program.wp_ofExcept_bind (fun _ => ⟨rfl, rfl, rfl⟩) fun _ => ⟨rfl, rfl, rfl⟩

/-- Staged or not, the apply solves with its own arrays and leaves nothing behind. -/
theorem wp_solveWithArrays {n : ℕ} :
    (solveWithArrays a.answers a.onHost a.state.deviceVectors n a.b.values a.solveX.values
      (solve a.answers a.state) : Program (mpi P) _ _ _).Wp a.effects .empty
      fun _ t => t = .empty := by
  unfold solveWithArrays
  split_ifs with hdirect
  · have hstaged : a.isStaged = false := by rw [KspApply.isStaged, hdirect]; rfl
    have harray : a.array .b = a.b.values ∧ a.array .x = a.solveX.values := by
      simp [KspApply.array, hstaged]
    rw [← harray.1, ← harray.2]
    exact wp_solve (fun _ => rfl) fun h => absurd (hstaged.symm.trans h) Bool.false_ne_true
  · have hstaged : a.isStaged = true := by
      rw [KspApply.isStaged, Bool.eq_false_iff.mpr hdirect]; rfl
    have harray : ∀ v, a.array v = a.answers.hostArray v := fun v => if_pos hstaged
    let p := (Placement.empty.stage .b (a.array .b)).stage .x (a.array .x)
    have hp : p.staged .b = some (a.array .b) ∧ p.staged .x = some (a.array .x) := ⟨rfl, rfl⟩
    have hfree : (p.free .x).free .b = .empty := by
      ext1
      · rfl
      · funext v
        cases v <;> rfl
    rw [← harray .b, ← harray .x]
    refine ⟨rfl, rfl, Program.wp_ensuring.mpr (Program.wp_bind.mpr ?_)⟩
    have hsolve : (solve a.answers a.state (a.array .b) (a.array .x) :
        Program (mpi P) _ _ _).Wp a.effects p fun _ t => t = p :=
      wp_solve (fun _ => rfl) fun _ v => by cases v; exacts [hp.1, hp.2]
    refine hsolve.mono ?_
    have hfreed : a.effects.Allowed p [.freeHost .x (a.array .x), .freeHost .b (a.array .b)] :=
      ⟨⟨hp.2, fun _ => rfl⟩, ⟨hp.1, fun _ => rfl⟩, trivial⟩
    rintro (e | state) _ rfl
    · exact ⟨hfreed, hfree⟩
    · exact ⟨hp.2, hfreed, hfree⟩

/-- However an apply ends, it has done what is right only, and leaves nothing in the vectors. -/
theorem wp_program : (a.program : Program (mpi P) _ _ _).Wp a.effects .empty
    fun _ t => t = .empty := by
  have hreads : ∀ action : ApplyAction, action.Reads →
      a.effects.allowed .empty action ∧ a.effects.apply .empty action = .empty := by
    intro action haction
    cases action with
    | readStride | readRows => exact ⟨trivial, rfl⟩
    | _ => exact haction.elim
  have hsimple : (applyImpl a.answers a.onHost a.b a.solveX a.state :
      Program (mpi P) _ _ _).Wp a.effects .empty fun _ t => t = .empty := by
    refine Program.wp_bind.mpr ((wp_checkOperands hreads).mono ?_)
    rintro (e | _) _ rfl
    · rfl
    · exact wp_solveWithArrays
  unfold KspApply.program
  unfold KspApply.solveX at hsimple
  cases hclone : a.clone with
  | none => simpa only [hclone] using hsimple
  | some clone =>
    simp only [hclone] at hsimple
    refine Program.wp_bind.mpr (hsimple.mono ?_)
    rintro (e | state) _ rfl
    · rfl
    · -- the vectors of PETSc have no part in the rest of an advanced apply
      refine Program.wp_bind.mpr ?_
      unfold addSolution
      split
      · exact ⟨trivial, trivial, rfl⟩
      · exact ⟨trivial, trivial, rfl⟩
      · rfl

end

/-! ## Applies that share a state -/

/-- An apply on rank `r` that has returned or thrown, with its actions. -/
def ApplyStep (r : Fin P) : Placement → KspApply × List ApplyAction → Placement → Prop
  | p, (a, as), p' => ∃ Rs q, Leads r a.program Rs as q ∧ q.Final ∧ p' = a.effects.after p as

/-- After any applies that share a state, however each has ended, no array is left in its vectors.
Each of them, and also an apply that has not ended yet, has placed and taken out arrays as
`KspApply.effects` says, and in particular has solved with its own arrays only. -/
theorem arrays_released {r : Fin P} {p : Placement}
    {tr : List (Placement × (KspApply × List ApplyAction) × Placement)}
    (h : Run (ApplyStep r) .empty tr p) :
    p = .empty ∧
    (∀ q a as q', (q, (a, as), q') ∈ tr → a.effects.Allowed q as ∧ q' = .empty) ∧
    ∀ (a : KspApply) Rs as q, Leads r a.program Rs as q → a.effects.Allowed p as := by
  have hstep : ∀ q e q', ApplyStep r q e q' → .empty = q → .empty = q' := by
    rintro _ ⟨a, as⟩ _ ⟨Rs, q, hleads, hq, rfl⟩ rfl
    obtain ⟨x, hx, -⟩ := (hleads.wp wp_program).2.of_final hq
    exact hx.symm
  have hempty : .empty = p := h.invariant rfl fun q e q' _ => hstep q e q'
  refine ⟨hempty.symm, fun q a as q' ht => ?_, fun a Rs as q hleads => ?_⟩
  · obtain ⟨hst, rfl⟩ := h.invariant_mem rfl (fun q e q' _ => hstep q e q') ht
    obtain ⟨Rs, _, hleads, -, -⟩ := id hst
    exact ⟨(hleads.wp wp_program).1, (hstep _ _ _ hst rfl).symm⟩
  · rw [← hempty]
    exact (hleads.wp wp_program).1

/-- A staged apply whose `KSPSolve` fails. -/
def failingApply : KspApply where
  onHost := false
  state := ⟨.self, false, false, 4, 0, 0, 0⟩
  b := ⟨"matrix::Dense<double>", (4, 1), .dense 1 10⟩
  x := ⟨"matrix::Dense<double>", (4, 1), .dense 1 11⟩
  clone := none
  answers := ⟨fun call => if call = .kspSolve then 76 else 0, 0, 0, 0, fun | .b => 20 | .x => 21⟩

/-- It throws with the host arrays taken out and freed, and another one finds free vectors. -/
theorem arrays_released_failing : ∃ as p,
    Run (ApplyStep (0 : Fin 1)) .empty [(.empty, (failingApply, as), p)] p ∧
    as.contains .solve ∧ p = .empty ∧ failingApply.effects.Allowed p as := by
  have hleads : ∃ as e, Leads (0 : Fin 1) failingApply.program [] as (.raise e) ∧
      as.contains .solve :=
    ⟨_, _, .act (.act (.act (.act (.act (.act (.act (.act (.act .refl)))))))), by decide⟩
  obtain ⟨as, e, hleads, hsolve⟩ := hleads
  have hstep : ApplyStep (0 : Fin 1) .empty (failingApply, as)
    (failingApply.effects.after .empty as) := ⟨_, _, hleads, .raise, rfl⟩
  have hrun := Run.snoc .nil hstep
  obtain ⟨hempty, -, hnext⟩ := arrays_released hrun
  exact ⟨as, _, hrun, hsolve, hempty, hnext failingApply _ _ _ hleads⟩

end GinkgoTpl.Petsc
