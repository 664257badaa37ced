import GinkgoTpl.Memory.Arrays
import GinkgoTpl.Petsc.Apply

/-!
# Applies on the arrays of their callers

Any number of applies of copies of a solver, on memory: each one finds arrays that its caller has on
the executor of the copy, and PETSc leaves a solution in the array that stands in `x`. What the
callers see of it, on any executors, is the outcome of `Job.solve`: the solution in the first values
of `x`, and nothing else (`after_applyActions`).
-/

namespace GinkgoTpl.Petsc

open Memory Spmd

variable {P : ℕ} {V : Type}

/-! ## Applies -/

/-- An apply of a copy of a solver on one rank, and the solution that PETSc leaves in `x`. -/
structure Job (V : Type) where
  answers : SolveAnswers
  onHost : Bool
  b : LinOp
  x : LinOp
  solution : List V

/-- The state with what PETSc reports after a solve. -/
def KspState.report (state : KspState) (answers : SolveAnswers) : KspState :=
  { state with
    numIterations := castSize answers.numIterations
    residualNorm := answers.residualNorm
    convergedReason := answers.reason }

namespace Job

variable (j : Job V)

/-- The apply as its caller sees it: the memory space, where `true` is the device's, and the address
of each array. -/
def solve : Solve (Bool × ℕ) V := ⟨(!j.onHost, j.b.values), (!j.onHost, j.x.values), j.solution⟩

/-- What a solve does with two arrays. -/
def solveActions (device : Bool) (b x : ℕ) : List ApplyAction :=
  [.placeArray .b device b, .placeArray .x device x, .solve, .resetArray .x device,
    .resetArray .b device]

/-- What `solve_with_arrays` does with `n` values of the operands. -/
def stagedActions (deviceVectors : Bool) (n : ℕ) : List ApplyAction :=
  if deviceVectors || j.onHost then solveActions deviceVectors j.b.values j.x.values
  else
    .copyToHost .b n j.b.values (j.answers.hostArray .b) ::
    .copyToHost .x n j.x.values (j.answers.hostArray .x) ::
    (solveActions deviceVectors (j.answers.hostArray .b) (j.answers.hostArray .x) ++
      [.copyBack n (j.answers.hostArray .x) j.x.values] ++
      [.freeHost .x (j.answers.hostArray .x), .freeHost .b (j.answers.hostArray .b)])

/-- What an apply does on a rank with `n` rows. -/
def actions (deviceVectors : Bool) (n : ℕ) : List ApplyAction :=
  localReads j.b j.x ++ j.stagedActions deviceVectors n

end Job

section
variable {answers : SolveAnswers} {r : Fin P} {state : KspState}

theorem leads_placedArray {α : Type} {device : Bool} {v : Operand} {values : ℕ}
    {body : Program (mpi P) ApplyAction Error α} {Rs : List (Round (mpi P))}
    {as : List ApplyAction} {a : α} (hcode : ∀ call, answers.code call = 0)
    (h : Leads r body Rs as (.ret a)) :
    Leads r (placedArray answers device v values body) Rs
      (.placeArray v device values :: (as ++ [.resetArray v device])) (.ret a) := by
  simp only [placedArray, SolveAnswers.check, hcode, assertNoPetscErrors_zero,
    Program.ofExcept_ok, Program.ret_bind, Program.perform_bind]
  exact .act h.ensuring

theorem leads_solve (hcode : ∀ call, answers.code call = 0) (hcomm : state.comm = .matrix)
    (b x : ℕ) : Leads r (solve answers state b x) [libraryRound .kspSolve]
      (Job.solveActions state.deviceVectors b x) (.ret (state.report answers)) := by
  obtain ⟨comm⟩ := state
  cases hcomm
  refine leads_placedArray hcode (leads_placedArray hcode (?_ : Leads r _ _ [.solve] _))
  simp only [SolveAnswers.check, hcode, assertNoPetscErrors_zero, Program.ofExcept_ok,
    Program.ret_bind, Program.perform_bind]
  exact .act (leads_collective (.library .kspSolve) (fun _ => ()) rfl .refl)

theorem leads_solveWithArrays {j : Job V} (hcode : ∀ call, j.answers.code call = 0)
    (hcomm : state.comm = .matrix) (n : ℕ) :
    Leads r (solveWithArrays j.answers j.onHost state.deviceVectors n j.b.values j.x.values
      (solve j.answers state)) [libraryRound .kspSolve] (j.stagedActions state.deviceVectors n)
      (.ret (state.report j.answers)) := by
  unfold solveWithArrays Job.stagedActions
  split
  · exact leads_solve hcode hcomm _ _
  · exact .act (.act ((leads_solve hcode hcomm _ _).seq (.act .refl)).ensuring)

/-- What an apply does on a rank when the operands of all ranks are accepted. -/
theorem leads_applyImpl {jobs : Fin P → Job V} {ownedRows : Fin P → ℕ}
    (hcode : ∀ call, (jobs r).answers.code call = 0) (hdist : state.distributed)
    (hcomm : state.comm = .matrix) (hcols : (jobs r).b.size.2 = 1)
    (hrows : castSize state.numLocalRows = ownedRows r)
    (haccepted : ∀ s, Accepted (jobs s).b (jobs s).x (ownedRows s)) :
    Leads r (applyImpl (jobs r).answers (jobs r).onHost (jobs r).b (jobs r).x state)
      [checkRound (fun s => (jobs s).b) (fun s => (jobs s).x) ownedRows, libraryRound .kspSolve]
      ((jobs r).actions state.deviceVectors (ownedRows r))
      (.ret (state.report (jobs r).answers)) := by
  rw [applyImpl_distributed hdist hcomm hcols, hrows, Program.mapError_id]
  exact (checkDistributed_together haccepted r).seq (leads_solveWithArrays hcode hcomm _)

end

/-! ## Any number of applies -/

/-- Applies one after the other. -/
def applyAll (state : KspState) : List (Job V) → Program (mpi P) ApplyAction Error KspState
  | [] => .ret state
  | j :: js => do
    let state ← applyImpl j.answers j.onHost j.b j.x state
    applyAll state js

/-- The state after applies. -/
def KspState.reportAll (state : KspState) (js : List (Job V)) : KspState :=
  js.foldl (fun state j => state.report j.answers) state

/-- The operands of one apply on all ranks are accepted, and all calls succeed. -/
structure Solvable (J : Fin P → Job V) (ownedRows : Fin P → ℕ) : Prop where
  code : ∀ r call, (J r).answers.code call = 0
  column : ∀ r, (J r).b.size.2 = 1
  accepted : ∀ r, Accepted (J r).b (J r).x (ownedRows r)

/-- The rounds of applies. -/
def applyRounds (ownedRows : Fin P → ℕ) (jobs : List (Fin P → Job V)) : List (Round (mpi P)) :=
  jobs.flatMap fun J =>
    [checkRound (fun r => (J r).b) (fun r => (J r).x) ownedRows, libraryRound .kspSolve]

/-- What applies do on rank `r`. -/
def applyActions (deviceVectors : Bool) (n : ℕ) (js : List (Job V)) : List ApplyAction :=
  js.flatMap fun j => j.actions deviceVectors n

/-- All ranks get through any number of applies. -/
theorem together_applyAll (state : Fin P → KspState) {ownedRows : Fin P → ℕ}
    {jobs : List (Fin P → Job V)} (hdist : ∀ r, (state r).distributed)
    (hcomm : ∀ r, (state r).comm = .matrix)
    (hrows : ∀ r, castSize (state r).numLocalRows = ownedRows r)
    (hjobs : ∀ J ∈ jobs, Solvable J ownedRows) :
    Together (fun r => applyAll (state r) (jobs.map (· r))) (applyRounds ownedRows jobs)
      (fun r => applyActions (state r).deviceVectors (ownedRows r) (jobs.map (· r)))
      fun r => .ret ((state r).reportAll (jobs.map (· r))) := by
  intro r
  induction jobs generalizing state with
  | nil => exact .refl
  | cons J jobs ih =>
    obtain ⟨hJ, hjobs⟩ := List.forall_mem_cons.mp hjobs
    have hfirst := leads_applyImpl (hJ.code r) (hdist r) (hcomm r) (hJ.column r) (hrows r)
      hJ.accepted
    exact hfirst.seq (ih (fun s => (state s).report (J s).answers) hdist hcomm hrows hjobs)

/-! ## What the applies do to memory -/

/-- The arrays in memory and in PETSc's vectors, the solutions that PETSc will come to, and the
values that its solves have found in `b` and `x`. -/
structure SolveMemory (V : Type) where
  arrays : Arrays (Bool × ℕ) V
  placed : Operand → Option (Bool × ℕ)
  coming : List (List V)
  found : List (List V × List V)

namespace SolveMemory

/-- A solve with `n` rows on this rank, with the arrays at `b` and `x`. -/
def solved (m : SolveMemory V) (n : ℕ) (b x : Bool × ℕ) : SolveMemory V :=
  { m with
    arrays := m.arrays.write x n (m.coming.headD [])
    coming := m.coming.tail
    found := m.found ++ [(m.arrays.first b n, m.arrays.first x n)] }

/-- What an action of an apply does. -/
def act (n : ℕ) (m : SolveMemory V) : ApplyAction → SolveMemory V
  | .placeArray v device values =>
    { m with placed := Function.update m.placed v (some (device, values)) }
  | .resetArray v _ => { m with placed := Function.update m.placed v none }
  | .solve =>
    match m.placed .b, m.placed .x with
    | some b, some x => m.solved n b x
    | _, _ => m
  | .copyToHost _ n source target =>
    { m with arrays := m.arrays.allocate (false, target) (m.arrays.first (true, source) n) }
  | .copyBack n source target =>
    { m with arrays := m.arrays.write (true, target) n (m.arrays.first (false, source) n) }
  | .freeHost _ values => { m with arrays := m.arrays.free (false, values) }
  | _ => m

/-- The effects of the actions on a rank with `n` rows. -/
def effects (V : Type) (n : ℕ) : Effects ApplyAction (SolveMemory V) := ⟨fun _ _ => True, act n⟩

theorem after_localReads (m : SolveMemory V) (n : ℕ) (b x : LinOp) :
    (effects V n).after m (localReads b x) = m := by
  have hreads : ∀ as : List ApplyAction, (∀ a ∈ as, a.Reads) → (effects V n).after m as = m := by
    intro as
    induction as with
    | nil => exact fun _ => rfl
    | cons a as ih =>
      intro has
      obtain ⟨ha, has⟩ := List.forall_mem_cons.mp has
      have hact : m.act n a = m := by
        cases a with
        | readStride | readRows => rfl
        | _ => exact ha.elim
      rw [Effects.after_cons, show (effects V n).apply m a = m from hact, ih has]
  exact hreads _ fun a => reads_of_mem_localReads

/-- A solve takes both arrays out again. -/
theorem after_solveActions {m : SolveMemory V} (hplaced : m.placed = fun _ => none) (n : ℕ)
    (device : Bool) (b x : ℕ) :
    (effects V n).after m (Job.solveActions device b x) =
      m.solved n (device, b) (device, x) := by
  obtain ⟨arrays, placed, coming, found⟩ := m
  subst hplaced
  have hreset : Function.update (Function.update (Function.update (fun _ => none) Operand.b
      (some (device, b))) .x none) .b none = fun _ => none := by
    funext v
    cases v <;> simp
  simp [Job.solveActions, effects, act, solved, hreset]

end SolveMemory

/-! ## What the callers see -/

/-- On a rank with `n` rows, an apply has arrays for its operands and gets new host arrays. CUDA
vectors are used from CUDA executors only. -/
structure Job.Fits (j : Job V) (deviceVectors : Bool) (n : ℕ) (m : Arrays (Bool × ℕ) V) : Prop where
  executor : deviceVectors → j.onHost = false
  solve : j.solve.Fits n m
  hostArrays : deviceVectors = false → j.onHost = false →
    j.answers.hostArray .b ≠ j.answers.hostArray .x ∧ ∀ v, m (false, j.answers.hostArray v) = none

section
variable {j j' : Job V} {deviceVectors : Bool} {n : ℕ}

/-- Another apply has changed nothing that matters. -/
theorem Job.Fits.outcome {m : Arrays (Bool × ℕ) V} (h : j.Fits deviceVectors n m)
    (hsolution : j'.solution.length = n) :
    j.Fits deviceVectors n (j'.solve.outcome n m) where
  executor := h.executor
  solve := h.solve.outcome hsolution
  hostArrays hvectors hhost := by
    obtain ⟨hne, hnone⟩ := h.hostArrays hvectors hhost
    exact ⟨hne, fun v => Arrays.write_eq_none (hnone v)⟩

/-- Host copies that are solved on, copied back and freed. -/
theorem staged_eq {m : Arrays (Bool × ℕ) V} {b x hostB hostX : ℕ} {solution : List V}
    (hne : hostB ≠ hostX) (hb : m (false, hostB) = none) (hx : m (false, hostX) = none)
    (hgiven : m.Holds (true, x) n) (hsolution : solution.length = n) :
    let copied := (m.allocate (false, hostB) (m.first (true, b) n)).allocate (false, hostX)
      (m.first (true, x) n)
    let solved := copied.write (false, hostX) n solution
    (((solved.write (true, x) n (solved.first (false, hostX) n)).free (false, hostX)).free
      (false, hostB)) = m.write (true, x) n solution := by
  intro copied solved
  have hholds : copied.Holds (false, hostX) n :=
    ⟨_, Function.update_self .., Nat.le_of_eq hgiven.length_first.symm⟩
  have hfirst : solved.first (false, hostX) n = solution := hholds.first_write hsolution
  rw [hfirst]
  funext ⟨device, a⟩
  cases device with
  | true => simp [copied, solved, Arrays.free, Arrays.write, Arrays.allocate, Function.update_apply]
  | false =>
    by_cases haB : a = hostB
    · subst haB
      simp [Arrays.free, Arrays.write, hb]
    · by_cases haX : a = hostX
      · subst haX
        simp [Arrays.free, Arrays.write, hx, haB]
      · simp [copied, solved, Arrays.free, Arrays.write, Arrays.allocate, haB, haX]

/-- An apply on one rank. -/
theorem Job.Fits.after_actions {m : SolveMemory V} {coming : List (List V)}
    (h : j.Fits deviceVectors n m.arrays) (hplaced : m.placed = fun _ => none)
    (hcoming : m.coming = j.solution :: coming) :
    (SolveMemory.effects V n).after m (j.actions deviceVectors n) =
      ⟨j.solve.outcome n m.arrays, fun _ => none, coming,
        m.found ++ [j.solve.given n m.arrays]⟩ := by
  obtain ⟨arrays, placed, coming', found⟩ := m
  subst hplaced hcoming
  rw [Job.actions, Effects.after_append, SolveMemory.after_localReads, Job.stagedActions]
  cases hinPlace : deviceVectors || j.onHost with
  | true =>
    have hspace : deviceVectors = !j.onHost := by
      cases deviceVectors with
      | true => simp [h.executor rfl]
      | false => simpa using hinPlace
    rw [if_pos rfl, SolveMemory.after_solveActions rfl, hspace]
    rfl
  | false =>
    obtain ⟨rfl, hhost⟩ := Bool.or_eq_false_iff.mp hinPlace
    obtain ⟨hne, hnone⟩ := h.hostArrays rfl hhost
    have hgiven : arrays.Holds (true, j.x.values) n := by
      simpa only [Job.solve, hhost, Bool.not_false] using h.solve.x
    have hsolution : j.solution.length = n := h.solve.solution
    have hspace : ∀ (a a' : ℕ), ((true, a) : Bool × ℕ) ≠ (false, a') := by simp
    have hplace : ((false, j.answers.hostArray .b) : Bool × ℕ) ≠ (false, j.answers.hostArray .x) :=
      fun heq => hne (Prod.ext_iff.mp heq).2
    rw [if_neg (by simp), Effects.after_cons, Effects.after_cons, Effects.after_append,
      Effects.after_append, SolveMemory.after_solveActions rfl]
    simp only [SolveMemory.effects, SolveMemory.act, SolveMemory.solved, Effects.after_cons,
      Effects.after_nil, Arrays.first_allocate_of_ne (hspace _ _),
      Arrays.first_allocate_of_ne hplace, Arrays.first_allocate Arrays.length_first_le,
      List.headD_cons, List.tail_cons]
    rw [staged_eq hne (hnone .b) (hnone .x) hgiven hsolution]
    simp only [Solve.outcome, Solve.given, Job.solve, hhost, Bool.not_false]

/-- After any number of applies, the arrays are as their callers see them, PETSc has found what
was given to it, and no array is left in a vector. -/
theorem after_applyActions {m : SolveMemory V} {js : List (Job V)}
    (hjs : ∀ j ∈ js, j.Fits deviceVectors n m.arrays) (hplaced : m.placed = fun _ => none)
    (hcoming : m.coming = js.map Job.solution) :
    (SolveMemory.effects V n).after m (applyActions deviceVectors n js) =
      ⟨outcomes n m.arrays (js.map Job.solve), fun _ => none, [],
        m.found ++ givens n m.arrays (js.map Job.solve)⟩ := by
  induction js generalizing m with
  | nil =>
    obtain ⟨arrays, placed, coming, found⟩ := m
    subst hplaced hcoming
    simp [applyActions, outcomes, givens]
  | cons j js ih =>
    obtain ⟨hj, hjs⟩ := List.forall_mem_cons.mp hjs
    rw [applyActions, List.flatMap_cons, Effects.after_append,
      hj.after_actions hplaced hcoming]
    refine (ih (fun i hi => (hjs i hi).outcome hj.solve.solution) rfl rfl).trans ?_
    rw [List.append_assoc]
    rfl

end

end GinkgoTpl.Petsc
