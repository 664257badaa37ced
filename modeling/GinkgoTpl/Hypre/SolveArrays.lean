import GinkgoTpl.Hypre.ErrorFlag

/-!
# The arrays of a hypre solve

hypre's two vectors live as long as the state of a solver. Between applies they still point at the
arrays of an earlier apply, which the caller may have freed, and an apply that throws may have
moved only one of them. `solves_own_arrays`: whatever has happened before, a solve finds the
arrays of its own apply, the apply changes no other array, and what it stores and reports is a
function of the contents of `b` and `x`.
-/

namespace GinkgoTpl.Hypre

open Spmd Transition

variable {P w : ℕ} {V : Type} {build : Build} {describe : ℤ → String}

/-! ## What an apply does -/

section
variable {answers : SolveAnswers w} {s : ApplyState w} {b x : LinOp}
  (answer : (op : MpiOp) → op.Data → op.Data)

theorem setValues_trace (v : Operand) (values : ℕ) :
    (PlacedVector.setValues build describe answers v values s :
      Program (mpi P) _ _ _).trace answer = [.setValues v values] := by
  unfold PlacedVector.setValues
  split <;> simp

/-- The two vectors are pointed at the arrays before the solve, in which an error ends. -/
theorem solve_trace (h : s.flag = 0) (bValues xValues : ℕ) :
    (UpdatesClear build answers → (solve build describe answers bValues xValues s :
      Program (mpi P) _ _ _).trace answer =
        [.setValues .b bValues, .setValues .x xValues, .solve]) ∧
    (¬ UpdatesClear build answers → (solve build describe answers bValues xValues s :
      Program (mpi P) _ _ _).trace answer <+: [.setValues .b bValues, .setValues .x xValues]) := by
  constructor
  · intro hclear
    simp only [solve, setValues_of_clear h hclear, Program.act_bind, Program.ret_bind,
      Program.perform_bind, Program.trace_act]
    rw [Program.trace_bind_ok _ _ (outcome_collective ..), trace_collective]
    cases s.checkSolve describe answers.solve <;> simp
  · intro hclear
    unfold solve
    by_cases hb : 23300 ≤ build.release → answers.setData .b = 0
    case neg =>
      rw [Program.trace_bind_error _ _ ((setValues_outcome answer h ..).trans (if_neg hb)),
        setValues_trace]
      exact List.prefix_append [_] [_]
    have hx : ¬ (23300 ≤ build.release → answers.setData .x = 0) := fun hx =>
      hclear fun hrelease v => by
        cases v
        · exact hb hrelease
        · exact hx hrelease
    rw [Program.trace_bind_ok _ _ ((setValues_outcome answer h ..).trans (if_pos hb)),
      setValues_trace,
      Program.trace_bind_error _ _ ((setValues_outcome answer h ..).trans (if_neg hx)),
      setValues_trace]
    exact List.prefix_rfl

theorem checkOperands_trace {solver : String} {distributed : Bool} {comm : Comm}
    {numLocalRows : ℤ} : ∀ a ∈ (checkOperands solver distributed comm numLocalRows b x :
      Program (mpi P) _ _ _).trace answer, a.Reads := by
  let E : Effects ApplyAction Unit := ⟨fun _ a => a.Reads, fun s _ => s⟩
  have hwp : (checkOperands solver distributed comm numLocalRows b x :
      Program (mpi P) _ _ _).Wp E () fun _ t => t = () := wp_checkOperands fun a ha => ⟨ha, rfl⟩
  exact (hwp.trace answer).1.forall_mem fun _ _ ha => ha

/-- An apply looks at its operands, points the vectors at the arrays and solves, unless it stops
before, and ends with `rest`. -/
def ApplyTrace (reaches : Prop) (bValues xValues : ℕ) (rest tr : List ApplyAction) : Prop :=
  ∃ reads moves, tr = reads ++ moves ++ rest ∧ (∀ a ∈ reads, a.Reads) ∧
    (reaches → moves = [.setValues .b bValues, .setValues .x xValues, .solve]) ∧
    (¬ reaches → moves <+: [.setValues .b bValues, .setValues .x xValues])

theorem applyImpl_trace (h : s.flag = 0) (hplaced : WellPlaced s.solver.matrix) (others : ℕ) :
    ApplyTrace (OperandsAccepted s.solver.matrix b x others ∧ UpdatesClear build answers)
      b.values x.values [] ((applyImpl build describe answers b x s :
        Program (mpi P) _ _ _).trace (answerWith others)) := by
  have hcheck := checkOperands_outcome (P := P) (b := b) (x := x) hplaced others
  have hreads : ∀ a ∈ (checkOperands "Pcg" s.solver.matrix.distributed s.solver.matrix.comm
      s.solver.matrix.numLocalRows b x : Program (mpi P) _ _ _).trace (answerWith others),
      a.Reads := checkOperands_trace _
  cases hout : (checkOperands "Pcg" s.solver.matrix.distributed s.solver.matrix.comm
      s.solver.matrix.numLocalRows b x : Program (mpi P) ApplyAction Error Unit).outcome
      (answerWith others) with
  | error e =>
    refine ⟨_, [], ?_, hreads, fun hall => ?_, fun _ => List.nil_prefix⟩
    · rw [applyImpl, Program.trace_bind_error (e := (e, s)), Program.trace_mapError,
        List.append_nil, List.append_nil]
      rw [Program.outcome_mapError, hout]
      rfl
    · cases hout.symm.trans (hcheck.mpr hall.1)
  | ok =>
    refine ⟨_, (solve build describe answers b.values x.values s :
      Program (mpi P) _ _ _).trace (answerWith others), ?_, hreads,
      fun hall => (solve_trace _ h ..).1 hall.2,
      fun hall => (solve_trace _ h ..).2 fun hupdates => hall ⟨hcheck.mp hout, hupdates⟩⟩
    rw [applyImpl, Program.trace_bind_ok (a := ()), Program.trace_mapError, List.append_nil]
    rw [Program.outcome_mapError, hout]
    rfl

end

namespace Apply

variable {a : Apply w} {p : Solvers w}

def program (P : ℕ) (build : Build) (describe : ℤ → String) (a : Apply w) (p : Solvers w) :
    Program (mpi P) ApplyAction (Thrown w) (ApplyState w) :=
  match a.clone with
  | none => applyImpl build describe a.answers a.b a.x (a.stateBefore p)
  | some (stride, values) =>
    applyAdvanced build describe a.answers a.b a.x stride values (a.stateBefore p)

theorem outcome_eq : a.outcome P build describe p =
    (a.program P build describe p).outcome (answerWith a.others) := rfl

/-- What the apply does on a rank among `P`. -/
def trace (P : ℕ) (build : Build) (describe : ℤ → String) (a : Apply w) (p : Solvers w) :
    List ApplyAction :=
  (a.program P build describe p).trace (answerWith a.others)

/-- The apply comes to the solve. -/
def Reaches (build : Build) (a : Apply w) (p : Solvers w) : Prop :=
  OperandsAccepted (p.states (p.objects a.object)).matrix a.b a.solveX a.others ∧
    UpdatesClear build a.answers

/-- What an advanced apply does after the solve. -/
def rest (P : ℕ) (build : Build) (describe : ℤ → String) (a : Apply w) (p : Solvers w) :
    List ApplyAction :=
  if a.clone.isSome ∧ (a.outcome P build describe p).isOk then [.scale, .addScaled] else []

/-- The advanced apply goes on after a solve that has returned. -/
theorem applyAdvanced_trace {answers : SolveAnswers w} {s : ApplyState w} {b x : LinOp}
    {stride values others : ℕ} (h : s.flag = 0) (hplaced : WellPlaced s.solver.matrix) :
    (applyAdvanced build describe answers b x stride values s :
      Program (mpi P) _ _ _).trace (answerWith others) =
    (applyImpl build describe answers b (x.clone stride values) s :
      Program (mpi P) _ _ _).trace (answerWith others) ++
    if ((applyAdvanced build describe answers b x stride values s :
      Program (mpi P) _ _ _).outcome (answerWith others)).isOk then [.scale, .addScaled]
    else [] := by
  have hsimple : ReturnsIff _ answers s ((applyImpl build describe answers b
    (x.clone stride values) s : Program (mpi P) _ _ _).outcome (answerWith others)) :=
      applyImpl_outcome h hplaced others
  simp only [applyAdvanced, Program.outcome_bind]
  rcases hsimple with ⟨hall, hout⟩ | ⟨-, e, hout⟩
  · rw [Program.trace_bind_ok _ _ hout, hout, ok_bind]
    cases hx : x.vector with
    | distributed | dense =>
      simp only [addSolution, hx]
      rfl
    | other => exact absurd hall.1 (not_accepted_clone_other hx)
  · rw [Program.trace_bind_error _ _ hout, hout]
    exact (List.append_nil _).symm

/-- Only operands with an array come to the solve. -/
theorem Reaches.x_ne_other (h : a.Reaches build p) : a.x.vector ≠ .other := by
  intro hx
  have hsolveX : a.solveX.vector = .other := by
    unfold solveX
    split
    · exact hx
    · rw [LinOp.clone, hx]
  obtain ⟨⟨-, haccepted⟩, -⟩ := h
  split_ifs at haccepted
  · obtain ⟨⟨-, _, hvector⟩, -⟩ := haccepted
    cases hsolveX.symm.trans hvector
  · obtain ⟨-, _, hvector⟩ := haccepted
    cases hsolveX.symm.trans hvector

theorem trace_spec (h : p.Inv) : ApplyTrace (a.Reaches build p) a.b.values a.solveX.values
    (a.rest P build describe p) (a.trace P build describe p) := by
  have hplaced : WellPlaced (a.stateBefore p).solver.matrix := h.placed _
  have hspec : ApplyTrace _ a.b.values a.solveX.values [] ((applyImpl build describe a.answers a.b
      a.solveX (a.stateBefore p) : Program (mpi P) _ _ _).trace (answerWith a.others)) :=
    applyImpl_trace h.flag hplaced a.others
  obtain ⟨reads, moves, htrace, hreads, hreach, hstop⟩ := hspec
  refine ⟨reads, moves, ?_, hreads, hreach, hstop⟩
  rw [List.append_nil] at htrace
  unfold rest trace
  rw [outcome_eq]
  unfold program
  unfold solveX at htrace
  cases hclone : a.clone with
  | none => simpa [hclone] using htrace
  | some clone =>
    simp only [hclone] at htrace ⊢
    rw [applyAdvanced_trace h.flag hplaced, htrace]
    simp

end Apply

/-! ## Memory -/

/-- The arrays of a rank by their addresses, and where hypre's two vectors of each state point. -/
structure SolverMemory (V : Type) where
  arrays : ℕ → Option (List V)
  points : ℕ → Operand → ℕ

namespace SolverMemory

variable (m : SolverMemory V)

def store (address : ℕ) (contents : Option (List V)) : SolverMemory V :=
  { m with arrays := Function.update m.arrays address contents }

def point (k : ℕ) (v : Operand) (address : ℕ) : SolverMemory V :=
  { m with points := Function.update m.points k (Function.update (m.points k) v address) }

/-- The contents of the array of each operand. -/
def contents (address : Operand → ℕ) : List V × List V :=
  ((m.arrays (address .b)).getD [], (m.arrays (address .x)).getD [])

end SolverMemory

/-- What a solve does on this rank: the new contents of the array of `x`, the bits it sets, and
what hypre answers afterwards. -/
structure SolveOutcome (V : Type) (w : ℕ) where
  x : List V
  solve : BitVec w
  numIterations : BitVec w × ℤ
  residualNorm : BitVec w × Double
  converged : BitVec w × ℤ

def SolveOutcome.answers (o : SolveOutcome V w) (setData : Operand → BitVec w) : SolveAnswers w :=
  ⟨setData, o.solve, o.numIterations, o.residualNorm, o.converged⟩

/-- A generated solver, as one rank sees its solves: what happens depends on the contents of the
arrays of `b` and `x` on all ranks. -/
abbrev Solver (P : ℕ) (V : Type) (w : ℕ) := (Fin P → List V × List V) → SolveOutcome V w

/-- An apply with the contents that the other ranks bring to the solve, and the two operations of
an advanced apply on the local arrays. -/
structure ArrayApply (P : ℕ) (V : Type) (w : ℕ) extends Apply w where
  otherContents : Fin P → List V × List V
  scale : List V → List V
  addScaled : List V → List V → List V

namespace ArrayApply

variable (a : ArrayApply P V w) (k : ℕ) (o : SolveOutcome V w) (m : SolverMemory V)

/-- The arrays with which the apply solves. -/
def array : Operand → ℕ
  | .b => a.b.values
  | .x => a.solveX.values

/-- The memory once an advanced apply has cloned `x`. -/
def begin : SolverMemory V :=
  match a.clone with
  | none => m
  | some (_, values) => m.store values (some ((m.arrays a.x.values).getD []))

/-- The memory once the clone is gone. -/
def finish : SolverMemory V :=
  match a.clone with
  | none => m
  | some (_, values) => m.store values none

/-- What the actions of the apply on the state `k` do to the memory, for a solve with the outcome
`o`. A solve is right if it finds the arrays of this apply in both vectors, and all arrays as the
apply has found them. -/
def effects : Effects ApplyAction (SolverMemory V) where
  apply t
    | .setValues v values => t.point k v values
    | .solve => t.store (t.points k .x) (some o.x)
    | .scale => t.store a.x.values ((t.arrays a.x.values).map a.scale)
    | .addScaled => t.store a.x.values
      ((t.arrays a.x.values).map (a.addScaled ((t.arrays a.solveX.values).getD [])))
    | _ => t
  allowed t
    | .solve => (∀ v, t.points k v = a.array v) ∧ t.arrays = (a.begin m).arrays
    | _ => True

def memoryAfter (tr : List ApplyAction) : SolverMemory V :=
  a.finish ((a.effects k o m).after (a.begin m) tr)

/-- What the caller of an apply provides: operands with arrays, and room for a clone. -/
structure Provided : Prop where
  b : a.b.vector ≠ .other → (m.arrays a.b.values).isSome
  x : a.x.vector ≠ .other → (m.arrays a.x.values).isSome
  clone : ∀ stride values, a.clone = some (stride, values) → m.arrays values = none

/-- The outcome `o` is that of `solver` for what the solve finds on rank `r`, and hypre answers
accordingly. -/
structure Answered (solver : Solver P V w) (r : Fin P) (tr : List ApplyAction) : Prop where
  outcome : ∀ before after, tr = before ++ .solve :: after →
    let found := (a.effects k o m).after (a.begin m) before
    o = solver (Function.update a.otherContents r (found.contents (found.points k)))
  answers : a.answers = o.answers a.answers.setData

/-! ### What becomes of the arrays -/

variable {a k o m}

/-- An action that changes no array. -/
def KeepsArrays : ApplyAction → Prop
  | .solve | .scale | .addScaled => False
  | _ => True

theorem keepsArrays_of_reads {action : ApplyAction} (h : action.Reads) : KeepsArrays action := by
  cases action with
  | readStride | readRows => trivial
  | _ => exact h.elim

theorem arrays_after {tr : List ApplyAction} (h : ∀ action ∈ tr, KeepsArrays action)
    (t : SolverMemory V) : (a.effects k o m).Allowed t tr ∧
      ((a.effects k o m).after t tr).arrays = t.arrays := by
  induction tr generalizing t with
  | nil => exact ⟨trivial, rfl⟩
  | cons action tr ih =>
    obtain ⟨haction, htr⟩ := List.forall_mem_cons.mp h
    obtain ⟨hall, harrays⟩ := ih htr ((a.effects k o m).apply t action)
    have hkeep : (a.effects k o m).allowed t action ∧
        ((a.effects k o m).apply t action).arrays = t.arrays := by
      cases action with
      | solve | scale | addScaled => exact haction.elim
      | _ => exact ⟨trivial, rfl⟩
    exact ⟨⟨hkeep.1, hall⟩, harrays.trans hkeep.2⟩

/-- With both vectors moved, they point at the arrays of the apply, and no array has changed. -/
theorem solve_finds {reads : List ApplyAction} (hreads : ∀ action ∈ reads, action.Reads) :
    let before := reads ++ [.setValues .b a.b.values, .setValues .x a.solveX.values]
    let found := (a.effects k o m).after (a.begin m) before
    (a.effects k o m).Allowed (a.begin m) before ∧ (∀ v, found.points k v = a.array v) ∧
      found.arrays = (a.begin m).arrays := by
  intro before found
  have hkeeps : ∀ action ∈ before, KeepsArrays action := by
    intro action haction
    rcases List.mem_append.mp haction with haction | haction
    · exact keepsArrays_of_reads (hreads _ haction)
    · simp only [List.mem_cons, List.not_mem_nil, or_false] at haction
      rcases haction with rfl | rfl <;> trivial
  obtain ⟨hall, harrays⟩ := arrays_after hkeeps (a.begin m)
  refine ⟨hall, fun v => ?_, harrays⟩
  simp only [found, before, Effects.after_append]
  cases v <;> simp [effects, SolverMemory.point, array]

section
variable {reaches : Prop} {rest tr : List ApplyAction}

/-- An apply that does not come to the solve changes no array. -/
theorem stopped_spec (h : ApplyTrace reaches a.b.values a.solveX.values [] tr)
    (hstop : ¬ reaches) : (a.effects k o m).Allowed (a.begin m) tr ∧
      ((a.effects k o m).after (a.begin m) tr).arrays = (a.begin m).arrays ∧ .solve ∉ tr := by
  obtain ⟨reads, moves, rfl, hreads, -, hmoves⟩ := h
  have hkeeps : ∀ action ∈ reads ++ moves ++ [], KeepsArrays action := by
    intro action haction
    rw [List.append_nil] at haction
    rcases List.mem_append.mp haction with haction | haction
    · exact keepsArrays_of_reads (hreads _ haction)
    · have := (hmoves hstop).subset haction
      simp only [List.mem_cons, List.not_mem_nil, or_false] at this
      rcases this with rfl | rfl <;> trivial
  exact ⟨(arrays_after hkeeps _).1, (arrays_after hkeeps _).2, fun hsolve => hkeeps _ hsolve⟩

/-- An apply that comes to the solve finds its own arrays there, and then has written only to the
one of `x`. -/
theorem reached_spec (h : ApplyTrace reaches a.b.values a.solveX.values rest tr)
    (hreach : reaches) (hrest : rest = [] ∨ rest = [.scale, .addScaled]) :
    (a.effects k o m).Allowed (a.begin m) tr ∧
    (∃ before, tr = before ++ .solve :: rest ∧
      let found := (a.effects k o m).after (a.begin m) before
      found.contents (found.points k) = (a.begin m).contents a.array) ∧
    ∃ t, t.arrays = Function.update (a.begin m).arrays a.solveX.values (some o.x) ∧
      (a.effects k o m).after (a.begin m) tr = (a.effects k o m).after t rest := by
  obtain ⟨reads, moves, rfl, hreads, hmoves, -⟩ := h
  obtain rfl := hmoves hreach
  have hsplit : reads ++ [.setValues .b a.b.values, .setValues .x a.solveX.values, .solve] ++ rest =
      (reads ++ [.setValues .b a.b.values, .setValues .x a.solveX.values]) ++ .solve :: rest := by
    simp
  obtain ⟨hall, hpoints, harrays⟩ := solve_finds (a := a) (k := k) (o := o) (m := m) hreads
  rw [hsplit]
  generalize reads ++ [.setValues .b a.b.values, .setValues .x a.solveX.values] = before at *
  let found := (a.effects k o m).after (a.begin m) before
  refine ⟨(Effects.allowed_append _).mpr ⟨hall, ⟨hpoints, harrays⟩, ?_⟩, ⟨before, rfl, ?_⟩,
    found.store (found.points k .x) (some o.x), ?_, ?_⟩
  · rcases hrest with rfl | rfl
    · trivial
    · exact ⟨trivial, trivial, trivial⟩
  · simp only [SolverMemory.contents, hpoints, harrays]
  · show Function.update found.arrays (found.points k .x) _ = _
    rw [harrays, hpoints]
    rfl
  · rw [Effects.after_append]
    rfl

end

/-! ### The array of `x` and the others -/

theorem begin_of_ne {address : ℕ} (h : ∀ stride, a.clone ≠ some (stride, address)) :
    (a.begin m).arrays address = m.arrays address := by
  unfold begin
  split
  · rfl
  · rename_i stride values hclone
    exact Function.update_of_ne (fun heq => h stride (by rw [hclone, heq])) ..

theorem finish_of_ne {address : ℕ} (h : ∀ stride, a.clone ≠ some (stride, address)) :
    (a.finish m).arrays address = m.arrays address := by
  unfold finish
  split
  · rfl
  · rename_i stride values hclone
    exact Function.update_of_ne (fun heq => h stride (by rw [hclone, heq])) ..

theorem finish_clone {stride address : ℕ} (h : a.clone = some (stride, address)) :
    (a.finish m).arrays address = none := by
  simp [finish, h, SolverMemory.store]

namespace Provided

theorem x_ne_clone (h : a.Provided m) (hx : a.x.vector ≠ .other) (stride : ℕ) :
    a.clone ≠ some (stride, a.x.values) := fun hclone => by
  have := h.x hx
  rw [h.clone _ _ hclone] at this
  cases this

theorem b_ne_clone (h : a.Provided m) (hb : a.b.vector ≠ .other) (stride : ℕ) :
    a.clone ≠ some (stride, a.b.values) := fun hclone => by
  have := h.b hb
  rw [h.clone _ _ hclone] at this
  cases this

/-- An array that is there before the apply is kept if nothing but the clone may have changed it. -/
theorem memoryAfter_of_eq (h : a.Provided m) {tr : List ApplyAction} {address : ℕ}
    (heq : (∀ stride, a.clone ≠ some (stride, address)) →
      ((a.effects k o m).after (a.begin m) tr).arrays address = (a.begin m).arrays address) :
    (a.memoryAfter k o m tr).arrays address = m.arrays address := by
  by_cases hclone : ∃ stride, a.clone = some (stride, address)
  · obtain ⟨stride, hclone⟩ := hclone
    rw [memoryAfter, finish_clone hclone, h.clone _ _ hclone]
  · have hne := not_exists.mp hclone
    rw [memoryAfter, finish_of_ne hne, heq hne, begin_of_ne hne]

end Provided

theorem solveX_values_clone {stride values : ℕ} (hclone : a.clone = some (stride, values))
    (hx : a.x.vector ≠ .other) : a.solveX.values = values := by
  simp only [Apply.solveX, hclone, LinOp.values, LinOp.clone]
  cases hvector : a.x.vector with
  | other => exact absurd hvector hx
  | _ => rfl

/-- The arrays after the end of an advanced apply. -/
theorem arrays_after_rest {t : SolverMemory V} (hne : a.solveX.values ≠ a.x.values) :
    ((a.effects k o m).after t [.scale, .addScaled]).arrays =
      Function.update t.arrays a.x.values ((t.arrays a.x.values).map fun c =>
        a.addScaled ((t.arrays a.solveX.values).getD []) (a.scale c)) := by
  simp [effects, SolverMemory.store, Function.update_of_ne hne, Option.map_map,
    Function.comp_def]

/-- What the array of `x` holds after an apply that returns, from what it held before. -/
def newX (a : ArrayApply P V w) (o : SolveOutcome V w) (x : List V) : List V :=
  match a.clone with
  | none => o.x
  | some _ => a.addScaled o.x (a.scale x)

end ArrayApply

/-! ## Applies in a process -/

/-- The solvers of a process on one rank, and its memory. -/
structure ArrayProcess (V : Type) (w : ℕ) where
  solvers : Solvers w
  memory : SolverMemory V

inductive ArrayEvent (P : ℕ) (V : Type) (w : ℕ) where
  | apply (a : ArrayApply P V w)
  /-- One object is assigned to another and shares its state from then on. -/
  | copy (source target : ℕ)
  /-- A state that no object holds any more is destroyed. -/
  | drop (k : ℕ)
  /-- The caller allocates, overwrites or frees an array. -/
  | alloc (address : ℕ) (contents : List V)
  | overwrite (address : ℕ) (contents : List V)
  | free (address : ℕ)

section
variable (build : Build) (describe : ℤ → String) (generated : ℕ → Solver P V w)
  (setup : ℕ → Operand → ℕ) (r : Fin P)

/-- The steps on rank `r`. The state `k` holds the solver `generated k` and owns the arrays
`setup k`, of which the caller does not know. -/
inductive ArrayStep : ArrayProcess V w → ArrayEvent P V w → ArrayProcess V w → Prop
  | apply {p p' m a o} : ApplyStep P build describe p (.apply a.toApply) p' → a.Provided m →
    a.Answered (p.objects a.object) o m (generated (p.objects a.object)) r
      (a.trace P build describe p) →
    ArrayStep ⟨p, m⟩ (.apply a)
      ⟨p', a.memoryAfter (p.objects a.object) o m (a.trace P build describe p)⟩
  | copy {p p' m source target} : ApplyStep P build describe p (.copy source target) p' →
    ArrayStep ⟨p, m⟩ (.copy source target) ⟨p', m⟩
  | drop {p m k} : (∀ object, p.objects object ≠ k) →
    ArrayStep ⟨p, m⟩ (.drop k) ⟨p, (m.store (setup k .b) none).store (setup k .x) none⟩
  | alloc {p m address contents} : m.arrays address = none →
    ArrayStep ⟨p, m⟩ (.alloc address contents) ⟨p, m.store address (some contents)⟩
  | overwrite {p m address contents} : (m.arrays address).isSome →
    (∀ k v, address ≠ setup k v) →
    ArrayStep ⟨p, m⟩ (.overwrite address contents) ⟨p, m.store address (some contents)⟩
  | free {p m address} : (∀ k v, address ≠ setup k v) →
    ArrayStep ⟨p, m⟩ (.free address) ⟨p, m.store address none⟩

/-- The operands as the caller sees them. -/
def ArrayApply.operand (a : ArrayApply P V w) : Operand → ℕ
  | .b => a.b.values
  | .x => a.x.values

/-- What the solver of the apply does with the contents of `b` and `x`. -/
def ArrayApply.outcomeFor (a : ArrayApply P V w) (q : ArrayProcess V w) : SolveOutcome V w :=
  generated (q.solvers.objects a.object)
    (Function.update a.otherContents r (q.memory.contents a.operand))

end

/-- hypre sets no bit in the solve and the queries, other than the one for non-convergence. -/
def SolveOutcome.Clear (o : SolveOutcome V w) : Prop :=
  o.solve &&& ~~~errorConv = 0 ∧ ApplyState.QueriesClear (o.answers fun _ => 0)

/-- What the object reports after the solve. -/
def SolveOutcome.report (o : SolveOutcome V w) : ℕ × Double × Bool :=
  (castSize o.numIterations.2, o.residualNorm.2, o.converged.2 ≠ 0)

/-- The apply `a` from `q` to `q'`, whose solve has the outcome `o`, works on its own arrays. -/
structure OwnArrays (build : Build) (describe : ℤ → String) (setup : ℕ → Operand → ℕ)
    (a : ArrayApply P V w) (o : SolveOutcome V w) (q q' : ArrayProcess V w) : Prop where
  flag : q.solvers.flag = 0
  /-- The arrays of the generation are there, and the solve finds everything that is there. -/
  setup : ∀ v, ((a.begin q.memory).arrays (setup (q.solvers.objects a.object) v)).isSome
  solve : (a.effects (q.solvers.objects a.object) o q.memory).Allowed (a.begin q.memory)
    (a.trace P build describe q.solvers)
  frame : ∀ address, address ≠ a.x.values → q'.memory.arrays address = q.memory.arrays address
  returns : (a.outcome P build describe q.solvers).isOk ↔ a.Reaches build q.solvers ∧ o.Clear
  returned : (a.outcome P build describe q.solvers).isOk →
    (q'.solvers.states (q.solvers.objects a.object)).report = o.report ∧
    q'.memory.arrays a.x.values = some (a.newX o (q.memory.contents a.operand).2)
  thrown : ¬ (a.outcome P build describe q.solvers).isOk → q'.solvers = q.solvers ∧
    q'.memory.arrays a.x.values =
      if a.clone = none ∧ .solve ∈ a.trace P build describe q.solvers then some o.x
      else q.memory.arrays a.x.values
  reaches : .solve ∈ a.trace P build describe q.solvers ↔ a.Reaches build q.solvers

/-- What holds between the steps: the flag is clear, and the arrays of the generation are there for
every state that an object holds. -/
structure ArrayProcess.Inv (setup : ℕ → Operand → ℕ) (q : ArrayProcess V w) : Prop where
  solvers : q.solvers.Inv
  setup : ∀ object v, (q.memory.arrays (setup (q.solvers.objects object) v)).isSome

section
variable {a : ArrayApply P V w} {o : SolveOutcome V w} {p : Solvers w} {m : SolverMemory V}
  {k : ℕ} {r : Fin P}

theorem Apply.isOk_iff (a : Apply w) (h : p.Inv) :
    (a.outcome P build describe p).isOk ↔ a.Succeeds build p := by
  rcases Apply.outcome_spec (P := P) (a := a) h with ⟨hsucc, hout⟩ | ⟨hsucc, e, hout⟩
  · exact iff_of_true (by rw [hout]; rfl) hsucc
  · exact iff_of_false (by rw [hout]; nofun) hsucc

theorem ArrayApply.succeeds_iff (h : a.answers = o.answers a.answers.setData) :
    a.Succeeds build p ↔ a.Reaches build p ∧ o.Clear := by
  have hsolve : a.answers.solve = o.solve := by rw [h]; rfl
  have hqueries : ApplyState.QueriesClear a.answers ↔
      ApplyState.QueriesClear (o.answers fun _ => 0) := by rw [h]; rfl
  rw [SolveOutcome.Clear, ← hsolve, ← hqueries]
  exact ⟨fun ⟨hacc, hclear⟩ => ⟨⟨hacc, hclear.updates⟩, hclear.solve, hclear.queries⟩,
    fun ⟨⟨hacc, hupdates⟩, hclear, hq⟩ => ⟨hacc, hupdates, hclear, hq⟩⟩

theorem ArrayApply.queried_eq (h : a.answers = o.answers a.answers.setData) :
    a.queried = o.report := by
  rw [Apply.queried, h]
  rfl

/-- The solve finds the contents of `b` and `x`, in a clone or not. -/
theorem ArrayApply.begin_contents (hprov : a.Provided m) (hb : a.b.vector ≠ .other)
    (hx : a.x.vector ≠ .other) : (a.begin m).contents a.array = m.contents a.operand := by
  have hbegin : (a.begin m).arrays (a.array .b) = m.arrays (a.operand .b) :=
    ArrayApply.begin_of_ne (hprov.b_ne_clone hb)
  have hsolveX : ((a.begin m).arrays (a.array .x)).getD [] = (m.arrays (a.operand .x)).getD [] := by
    cases hclone : a.clone with
    | none => simp [ArrayApply.begin, ArrayApply.array, Apply.solveX, ArrayApply.operand, hclone]
    | some clone =>
      obtain ⟨stride, values⟩ := clone
      have hvalues : a.array .x = values := ArrayApply.solveX_values_clone hclone hx
      simp [ArrayApply.begin, hclone, SolverMemory.store, ArrayApply.operand, hvalues]
  rw [SolverMemory.contents, SolverMemory.contents, hbegin, hsolveX]

theorem Apply.Reaches.b_ne_other {a : Apply w} (h : a.Reaches build p) : a.b.vector ≠ .other := by
  intro hb
  obtain ⟨⟨-, haccepted⟩, -⟩ := h
  split_ifs at haccepted
  · obtain ⟨⟨⟨_, hvector⟩, -⟩, -⟩ := haccepted
    cases hb.symm.trans hvector
  · obtain ⟨⟨_, hvector⟩, -⟩ := haccepted
    cases hb.symm.trans hvector

/-- The array that the solve writes is that of `x`, or its clone. -/
theorem ArrayApply.solveX_values_ne {address : ℕ} (hx : a.x.vector ≠ .other)
    (haddress : address ≠ a.x.values) (hne : ∀ stride, a.clone ≠ some (stride, address)) :
    address ≠ a.solveX.values := by
  cases hclone : a.clone with
  | none => simpa [Apply.solveX, hclone] using haddress
  | some clone =>
    rw [ArrayApply.solveX_values_clone hclone hx]
    rintro rfl
    exact hne _ hclone

section
variable {rest tr : List ApplyAction} {t : SolverMemory V}

/-- After a solve, only the array of `x` may have changed. -/
theorem ArrayApply.frame_of_reached (hprov : a.Provided m) (hx : a.x.vector ≠ .other)
    (hrest : rest = [] ∨ a.clone.isSome ∧ rest = [.scale, .addScaled])
    (ht : t.arrays = Function.update (a.begin m).arrays a.solveX.values (some o.x))
    (hafter : (a.effects k o m).after (a.begin m) tr = (a.effects k o m).after t rest)
    {address : ℕ} (haddress : address ≠ a.x.values) :
    (a.memoryAfter k o m tr).arrays address = m.arrays address := by
  refine hprov.memoryAfter_of_eq fun hne => ?_
  have hkeep : t.arrays address = (a.begin m).arrays address := by
    rw [ht, Function.update_of_ne (a.solveX_values_ne hx haddress hne)]
  rw [hafter]
  rcases hrest with rfl | ⟨hclone, rfl⟩
  · exact hkeep
  · obtain ⟨⟨stride, values⟩, hclone⟩ := Option.isSome_iff_exists.mp hclone
    have hne' : a.solveX.values ≠ a.x.values := by
      rw [ArrayApply.solveX_values_clone hclone hx]
      rintro rfl
      exact hprov.x_ne_clone hx _ hclone
    rw [ArrayApply.arrays_after_rest hne', Function.update_of_ne haddress, hkeep]

/-- A simple apply leaves in the array of `x` what the solve has written. -/
theorem ArrayApply.x_of_simple (hprov : a.Provided m) (hx : a.x.vector ≠ .other)
    (hclone : a.clone = none)
    (ht : t.arrays = Function.update (a.begin m).arrays a.solveX.values (some o.x))
    (hafter : (a.effects k o m).after (a.begin m) tr = t) :
    (a.memoryAfter k o m tr).arrays a.x.values = some o.x := by
  have hsolveX : a.solveX = a.x := by rw [Apply.solveX, hclone]
  rw [memoryAfter, finish_of_ne (hprov.x_ne_clone hx), hafter, ht, hsolveX, Function.update_self]

/-- An advanced apply that returns combines the solution with what the array of `x` held. -/
theorem ArrayApply.x_of_advanced (hprov : a.Provided m) (hx : a.x.vector ≠ .other)
    (hclone : a.clone.isSome)
    (ht : t.arrays = Function.update (a.begin m).arrays a.solveX.values (some o.x))
    (hafter : (a.effects k o m).after (a.begin m) tr =
      (a.effects k o m).after t [.scale, .addScaled]) :
    (a.memoryAfter k o m tr).arrays a.x.values =
      some (a.addScaled o.x (a.scale (m.contents a.operand).2)) := by
  obtain ⟨⟨stride, values⟩, hclone⟩ := Option.isSome_iff_exists.mp hclone
  have hne : a.solveX.values ≠ a.x.values := by
    rw [ArrayApply.solveX_values_clone hclone hx]
    rintro rfl
    exact hprov.x_ne_clone hx _ hclone
  obtain ⟨c, hc⟩ := Option.isSome_iff_exists.mp (hprov.x hx)
  rw [memoryAfter, finish_of_ne (hprov.x_ne_clone hx), hafter, arrays_after_rest hne,
    Function.update_self, ht, Function.update_of_ne hne.symm, Function.update_self,
    begin_of_ne (hprov.x_ne_clone hx), hc]
  simp [SolverMemory.contents, operand, hc]

/-- An advanced apply that throws has only written to the clone. -/
theorem ArrayApply.x_of_clone (hprov : a.Provided m) (hx : a.x.vector ≠ .other)
    (hclone : a.clone.isSome)
    (ht : t.arrays = Function.update (a.begin m).arrays a.solveX.values (some o.x))
    (hafter : (a.effects k o m).after (a.begin m) tr = t) :
    (a.memoryAfter k o m tr).arrays a.x.values = m.arrays a.x.values := by
  obtain ⟨⟨stride, values⟩, hclone⟩ := Option.isSome_iff_exists.mp hclone
  refine hprov.memoryAfter_of_eq fun hne => ?_
  rw [hafter, ht, Function.update_of_ne]
  rw [ArrayApply.solveX_values_clone hclone hx]
  rintro rfl
  exact hne _ hclone

/-- After an apply that has solved and returns, the array of `x` holds its new contents. -/
theorem ArrayApply.x_of_returned (hprov : a.Provided m) (hx : a.x.vector ≠ .other)
    (ht : t.arrays = Function.update (a.begin m).arrays a.solveX.values (some o.x))
    (hafter : (a.effects k o m).after (a.begin m) tr =
      (a.effects k o m).after t (a.rest P build describe p))
    (hok : (a.outcome P build describe p).isOk) :
    (a.memoryAfter k o m tr).arrays a.x.values = some (a.newX o (m.contents a.operand).2) := by
  cases hclone : a.clone with
  | none =>
    rw [show a.rest P build describe p = [] from if_neg (by simp [hclone])] at hafter
    rw [ArrayApply.newX, hclone]
    exact ArrayApply.x_of_simple hprov hx hclone ht hafter
  | some clone =>
    have hsome : a.clone.isSome := by rw [hclone]; rfl
    rw [show a.rest P build describe p = _ from if_pos ⟨hsome, hok⟩] at hafter
    rw [ArrayApply.newX, hclone]
    exact ArrayApply.x_of_advanced hprov hx hsome ht hafter

/-- After an apply that has solved and throws, it holds what the solve has written, if the solve
was not given the clone. -/
theorem ArrayApply.x_of_thrown (hprov : a.Provided m) (hx : a.x.vector ≠ .other)
    (ht : t.arrays = Function.update (a.begin m).arrays a.solveX.values (some o.x))
    (hafter : (a.effects k o m).after (a.begin m) tr =
      (a.effects k o m).after t (a.rest P build describe p))
    (hthrown : ¬ (a.outcome P build describe p).isOk) :
    (a.memoryAfter k o m tr).arrays a.x.values =
      if a.clone = none then some o.x else m.arrays a.x.values := by
  rw [show a.rest P build describe p = [] from if_neg fun hall => hthrown hall.2] at hafter
  cases hclone : a.clone with
  | none =>
    rw [if_pos rfl]
    exact ArrayApply.x_of_simple hprov hx hclone ht hafter
  | some clone =>
    rw [if_neg (by simp)]
    exact ArrayApply.x_of_clone hprov hx (by rw [hclone]; rfl) ht hafter

end

end

/-! ### The arrays of the generation -/

section
variable [Inhabited V] [Zero V] {hypre : Lib V} {policy : PolicyState}
  {heap : Memory.Heap (Buffer V)} {A : Type} {r : Fin P}

omit [Zero V] in
theorem PlacedVector.wp_new {v : Operand} {comm : Comm} {rowStart localSize : ℤ} {values : ℕ}
    {location : MemoryLocation} :
    (PlacedVector.new build hypre v comm rowStart localSize values location policy heap :
      Program (mpi P) A Error _).Wp (noEffects A) () fun x _ => ∀ out, x = .ok out →
        heap.Keeps out.2.2 := by
  have hret : ∀ (vector : PlacedVector) (policy : PolicyState) (heap' : Memory.Heap (Buffer V)),
      heap.Keeps heap' → ∀ out, (Except.ok (vector, policy, heap') : Except Error _) = .ok out →
        heap.Keeps out.2.2 := by
    rintro vector policy heap' hkeeps _ ⟨⟩
    exact hkeeps
  unfold PlacedVector.new
  refine Program.wp_ofExcept_bind (fun _ => nofun) fun policy => ?_
  split
  · refine Program.wp_ofExcept_bind (fun _ => nofun) fun _ =>
      Program.wp_ofExcept_bind (fun _ => nofun) fun _ =>
      Program.wp_ofExcept_bind (fun _ => nofun) fun _ =>
      Program.wp_ofExcept_bind (fun _ => nofun) fun _ => ?_
    refine Program.wp_bind.mpr (wp_collective fun _ => ?_)
    exact Program.wp_ofExcept_bind (fun _ => nofun) fun _ =>
      Program.wp_ofExcept_bind (fun _ => nofun) fun _ =>
      hret _ _ _ (.alloc (.alloc (.refl _)))
  · split
    · exact nofun
    · exact Program.wp_ofExcept_bind (fun _ => nofun) fun _ =>
        Program.wp_ofExcept_bind (fun _ => nofun) fun _ => hret _ _ _ (.alloc (.refl _))

/-- The value arrays in a heap. -/
def heapArrays (heap : Memory.Heap (Buffer V)) (address : ℕ) : Option (List V) :=
  match heap.read address with
  | some (.reals contents) => some contents
  | _ => none

omit [Inhabited V] [Zero V] in
theorem heapArrays_eq_some {address : ℕ} {contents : List V} :
    heapArrays heap address = some contents ↔ heap.read address = some (.reals contents) := by
  unfold heapArrays
  split <;> simp_all

/-- The state holds two arrays for its setup. -/
def HoldsSetupArrays (state : PcgState) (heap : Memory.Heap (Buffer V)) : Prop :=
  ∃ setup : Operand → ℕ, state.setupBValues = some (setup .b) ∧
    state.setupXValues = some (setup .x) ∧ setup .b ≠ setup .x ∧
    ∀ v, (heapArrays heap (setup v)).isSome

/-- What the constructor leaves after the import: the matrix and all arrays in memory are kept, and
the state has the arrays of the setup. -/
structure SetUpLeaves (matrix : ParCsr) (heap : Memory.Heap (Buffer V))
    (out : PcgState × PolicyState × Memory.Heap (Buffer V)) : Prop where
  matrix : out.1.matrix = matrix
  keeps : heap.Keeps out.2.2
  arrays : HoldsSetupArrays out.1 out.2.2

theorem wp_setUp {params : Parameters} {matrix : ParCsr} :
    (setUp build hypre params matrix policy heap : Program (mpi P) A Error _).Wp (noEffects A) ()
      fun x _ => ∀ out, x = .ok out → SetUpLeaves matrix heap out := by
  let Q : Except Error (PcgState × PolicyState × Memory.Heap (Buffer V)) → Unit → Prop :=
    fun x _ => ∀ out, x = .ok out → SetUpLeaves matrix heap out
  have herror : ∀ e, Q (.error e) () := fun e out hout => nomatch hout
  show (setUp build hypre params matrix policy heap : Program (mpi P) A Error _).Wp _ () Q
  unfold setUp
  extract_lets device amg heap₁ pcg heap₂ localRows zeros setupBValues heap₃ setupXValues heap₄
  have hkeeps : heap.Keeps heap₄ := .alloc (.alloc (.alloc (.alloc (.refl heap))))
  apply Program.wp_noEffects_bind herror; intro _
  apply Program.wp_noEffects_bind herror; intro _
  apply Program.wp_noEffects_bind herror; intro _
  apply Program.wp_noEffects_bind herror; intro _
  apply Program.wp_noEffects_bind herror; intro _
  apply Program.wp_noEffects_bind herror; intro _
  refine Program.wp_bind.mpr (PlacedVector.wp_new.mono ?_)
  rintro (_ | ⟨dummyB, policyB, heapB⟩) ⟨⟩ hB
  · exact herror _
  refine Program.wp_bind.mpr (PlacedVector.wp_new.mono ?_)
  rintro (_ | ⟨dummyX, policyX, heapX⟩) ⟨⟩ hX
  · exact herror _
  have hvectors := (hB _ rfl).trans (hX _ rfl)
  have hb : heap₄.read setupBValues = some zeros :=
    (Memory.Heap.read_alloc_of_lt (by simp [heap₃, setupBValues])).trans
      Memory.Heap.read_alloc_next
  have hx : heap₄.read setupXValues = some zeros := Memory.Heap.read_alloc_next
  have hne : setupBValues ≠ setupXValues := by simp [setupBValues, setupXValues, heap₃]
  simp only [Program.before_ok]
  apply Program.wp_noEffects_bind herror; intro _
  apply Program.wp_noEffects_bind herror; intro _
  apply Program.wp_noEffects_bind herror; intro _
  apply Program.wp_noEffects_bind herror; intro _
  have hholds : ∀ state : PcgState, state.setupBValues = some setupBValues →
      state.setupXValues = some setupXValues → HoldsSetupArrays state heapX :=
    fun state hsb hsx => by
      refine ⟨fun | .b => setupBValues | .x => setupXValues, hsb, hsx, hne, fun v => ?_⟩
      cases v with
      | b => simp only [heapArrays, hvectors.read hb, zeros, Option.isSome_some]
      | x => simp only [heapArrays, hvectors.read hx, zeros, Option.isSome_some]
  split
  · apply Program.wp_noEffects_bind herror
    rintro hierarchy out ⟨⟩
    exact ⟨rfl, hkeeps.trans hvectors, hholds _ rfl rfl⟩
  · rintro out ⟨⟩
    exact ⟨rfl, hkeeps.trans hvectors, hholds _ rfl rfl⟩

/-- The state that a generation returns holds the arrays of its setup, as the runs below assume
it at their start. -/
theorem setUp_arrays {params : Parameters} {matrix : ParCsr} {Rs : List (Round (mpi P))}
    {as : List A} {state : PcgState} {policy' : PolicyState} {heap' : Memory.Heap (Buffer V)}
    (h : Leads r (setUp build hypre params matrix policy heap) Rs as
      (.ret (state, policy', heap'))) : HoldsSetupArrays state heap' :=
  ((h.wp wp_setUp).2 _ rfl).arrays

/-- A constructor on this rank has made the state, with `arrays` for the setup, and what it left in
memory is in the heap. -/
def GeneratedIn (build : Build) (r : Fin P) (state : PcgState) (arrays : Operand → ℕ)
    (heap : Memory.Heap (Buffer V)) : Prop :=
  ∃ (hypre : Lib V) (params : Parameters) (matrix : ParCsr) (policy policy' : PolicyState)
    (before after : Memory.Heap (Buffer V)) (Rs : List (Round (mpi P))),
    Leads r (setUp build hypre params matrix policy before : Program (mpi P) Empty Error _) Rs []
      (.ret (state, policy', after)) ∧ after.Keeps heap ∧
      state.setupBValues = some (arrays .b) ∧ state.setupXValues = some (arrays .x)

theorem GeneratedIn.isSome {state : PcgState} {arrays : Operand → ℕ}
    (h : GeneratedIn build r state arrays heap) (v : Operand) :
    (heapArrays heap (arrays v)).isSome := by
  obtain ⟨_, _, _, _, _, _, after, _, hsetUp, hkeeps, hb, hx⟩ := h
  obtain ⟨setup, hb', hx', -, hsome⟩ := setUp_arrays hsetUp
  have heq : arrays v = setup v := by
    cases v with
    | b => exact Option.some.inj (hb.symm.trans hb')
    | x => exact Option.some.inj (hx.symm.trans hx')
  obtain ⟨contents, hcontents⟩ := Option.isSome_iff_exists.mp (hsome v)
  rw [heq, heapArrays_eq_some.mpr (hkeeps.read (heapArrays_eq_some.mp hcontents))]
  rfl

end

section
variable {generated : ℕ → Solver P V w} {setup : ℕ → Operand → ℕ} {r : Fin P}
  {q q' : ArrayProcess V w} {a : ArrayApply P V w} {e : ArrayEvent P V w}

/-- The arrays of the generation are no clone. -/
theorem ArrayProcess.Inv.setup_begin (h : q.Inv setup) (hprov : a.Provided q.memory)
    (object : ℕ) (v : Operand) :
    ((a.begin q.memory).arrays (setup (q.solvers.objects object) v)).isSome := by
  rw [ArrayApply.begin_of_ne]
  · exact h.setup object v
  · intro stride hclone
    have := h.setup object v
    rw [hprov.clone _ _ hclone] at this
    cases this

/-- An apply that does not come to the solve changes nothing. -/
theorem ownArrays_of_stopped {p p' : Solvers w} {m : SolverMemory V} {o o' : SolveOutcome V w}
    (h : (⟨p, m⟩ : ArrayProcess V w).Inv setup)
    (hstep : ApplyStep P build describe p (.apply a.toApply) p') (hprov : a.Provided m)
    (hstop : ¬ a.Reaches build p) :
    OwnArrays build describe setup a o ⟨p, m⟩
      ⟨p', a.memoryAfter (p.objects a.object) o' m (a.trace P build describe p)⟩ := by
  have hnot : ¬ a.Succeeds build p := fun hsucc => hstop ⟨hsucc.1, hsucc.2.updates⟩
  have hthrown : ¬ (a.outcome P build describe p).isOk := mt (a.isOk_iff h.solvers).mp hnot
  have hp : p' = p := by
    rcases hstep.cases h.solvers with ⟨_, heq, hsucc, -⟩ | ⟨_, -, -, -, rfl⟩ | ⟨_, _, heq, -⟩
    · cases heq
      exact absurd hsucc hnot
    · rfl
    · cases heq
  have hspec : ApplyTrace (a.Reaches build p) a.b.values a.solveX.values []
      (a.trace P build describe p) := by
    have hrest : a.rest P build describe p = [] := if_neg fun hall => hthrown hall.2
    exact hrest ▸ a.trace_spec h.solvers
  have hkept : ∀ address, (a.memoryAfter (p.objects a.object) o' m
      (a.trace P build describe p)).arrays address = m.arrays address := fun address =>
    hprov.memoryAfter_of_eq fun _ => congrFun (ArrayApply.stopped_spec hspec hstop).2.1 address
  have hsolve : .solve ∉ a.trace P build describe p :=
    (ArrayApply.stopped_spec (a := a) (k := 0) (o := o) (m := m) hspec hstop).2.2
  exact
    { flag := h.solvers.flag
      setup := h.setup_begin hprov _
      solve := (ArrayApply.stopped_spec hspec hstop).1
      frame := fun address _ => hkept address
      returns := iff_of_false hthrown fun hall => hstop hall.1
      returned := fun hok => absurd hok hthrown
      thrown := fun _ => ⟨hp, (hkept _).trans (if_neg fun hall => hsolve hall.2).symm⟩
      reaches := iff_of_false hsolve hstop }

/-- An apply that comes to the solve. -/
theorem ownArrays_of_reached {p p' : Solvers w} {m : SolverMemory V} {o : SolveOutcome V w}
    (h : (⟨p, m⟩ : ArrayProcess V w).Inv setup)
    (hstep : ApplyStep P build describe p (.apply a.toApply) p') (hprov : a.Provided m)
    (hanswered : a.Answered (p.objects a.object) o m (generated (p.objects a.object)) r
      (a.trace P build describe p)) (hreach : a.Reaches build p) :
    OwnArrays build describe setup a (a.outcomeFor generated r ⟨p, m⟩) ⟨p, m⟩
      ⟨p', a.memoryAfter (p.objects a.object) o m (a.trace P build describe p)⟩ := by
  have hb := hreach.b_ne_other
  have hx := hreach.x_ne_other
  have hrest : a.rest P build describe p = [] ∨
      a.clone.isSome ∧ a.rest P build describe p = [.scale, .addScaled] := by
    unfold Apply.rest
    split_ifs with hall
    · exact .inr ⟨hall.1, rfl⟩
    · exact .inl rfl
  have hspec := ArrayApply.reached_spec (k := p.objects a.object) (o := o) (m := m)
    (a.trace_spec (P := P) h.solvers) hreach (hrest.imp_right And.right)
  obtain ⟨hall, ⟨before, htr, hfound⟩, t, ht, hafter⟩ := hspec
  -- the outcome is that for the contents of `b` and `x`
  obtain rfl : o = a.outcomeFor generated r ⟨p, m⟩ :=
    (hanswered.outcome before _ htr).trans <|
      congrArg (fun c => generated (p.objects a.object) (Function.update a.otherContents r c))
        (hfound.trans (ArrayApply.begin_contents hprov hb hx))
  have hisOk : (a.outcome P build describe p).isOk ↔ a.Succeeds build p := a.isOk_iff h.solvers
  have hsolve : .solve ∈ a.trace P build describe p := by
    rw [show a.trace P build describe p = _ from htr]
    exact List.mem_append_right _ List.mem_cons_self
  refine
    { flag := h.solvers.flag
      setup := h.setup_begin hprov _
      solve := hall
      frame := fun address haddress =>
        ArrayApply.frame_of_reached hprov hx hrest ht hafter haddress
      returns := hisOk.trans (ArrayApply.succeeds_iff hanswered.answers)
      returned := fun hok => ?_
      thrown := fun hthrown => ?_
      reaches := iff_of_true hsolve hreach }
  · rcases hstep.cases h.solvers with ⟨_, heq, -, -, rfl⟩ | ⟨_, heq, -, hnot, -⟩ | ⟨_, _, heq, -⟩
    · cases heq
      refine ⟨?_, ArrayApply.x_of_returned hprov hx ht hafter hok⟩
      rw [← ArrayApply.queried_eq hanswered.answers]
      simp [Solvers.after, ApplyState.store, PcgState.report, Apply.queried]
    · cases heq
      exact absurd hok hnot
    · cases heq
  · rcases hstep.cases h.solvers with ⟨_, heq, -, hok, -⟩ | ⟨_, -, -, -, rfl⟩ | ⟨_, _, heq, -⟩
    · cases heq
      exact absurd hok hthrown
    · refine ⟨rfl, (ArrayApply.x_of_thrown hprov hx ht hafter hthrown).trans ?_⟩
      simp only [hsolve, and_true]
    · cases heq

/-- What one apply does in a process between the steps of which the flag is clear. -/
theorem ArrayStep.ownArrays (hstep : ArrayStep build describe generated setup r q (.apply a) q')
    (h : q.Inv setup) : OwnArrays build describe setup a (a.outcomeFor generated r q) q q' := by
  cases hstep with
  | @apply p p' m a o hstep hprov hanswered =>
    by_cases hreach : a.Reaches build p
    · exact ownArrays_of_reached h hstep hprov hanswered hreach
    · exact ownArrays_of_stopped h hstep hprov hreach

/-- No apply frees an array. -/
theorem OwnArrays.isSome {o : SolveOutcome V w} (h : OwnArrays build describe setup a o q q')
    {address : ℕ} (hsome : (q.memory.arrays address).isSome) :
    (q'.memory.arrays address).isSome := by
  by_cases haddress : address = a.x.values
  · subst haddress
    by_cases hok : (a.outcome P build describe q.solvers).isOk
    · rw [(h.returned hok).2]
      rfl
    · rw [(h.thrown hok).2]
      split_ifs
      · rfl
      · exact hsome
  · rwa [h.frame _ haddress]

theorem ApplyStep.objects_eq {p p' : Solvers w} {a : Apply w}
    (hstep : ApplyStep P build describe p (.apply a) p') : p'.objects = p.objects := by
  cases hstep with
  | returns | throws => rfl

theorem ArrayStep.inv (hstep : ArrayStep build describe generated setup r q e q')
    (hdistinct : ∀ k k' v v', setup k v = setup k' v' → k = k') (h : q.Inv setup) :
    q'.Inv setup := by
  cases hstep with
  | apply happly hprov hanswered =>
    have hown := (ArrayStep.apply happly hprov hanswered).ownArrays h
    refine ⟨happly.inv h.solvers, fun object v => ?_⟩
    rw [happly.objects_eq]
    exact hown.isSome (h.setup object v)
  | @copy p p' m source target hcopy =>
    refine ⟨hcopy.inv h.solvers, fun object v => ?_⟩
    cases hcopy
    by_cases hobject : object = target
    · subst hobject
      simpa using h.setup source v
    · simpa [hobject] using h.setup object v
  | @drop p m k hunused =>
    refine ⟨h.solvers, fun object v => ?_⟩
    have hne : ∀ u, setup (p.objects object) v ≠ setup k u := fun u heq =>
      hunused object (hdistinct _ _ _ _ heq)
    simpa [SolverMemory.store, Function.update_of_ne (hne _)] using h.setup object v
  | @alloc p m address contents hfree =>
    refine ⟨h.solvers, fun object v => ?_⟩
    have hne : setup (p.objects object) v ≠ address := fun heq => by
      have := h.setup object v
      rw [heq, hfree] at this
      cases this
    simpa [SolverMemory.store, Function.update_of_ne hne] using h.setup object v
  | @overwrite p m address contents _ hne =>
    refine ⟨h.solvers, fun object v => ?_⟩
    simpa [SolverMemory.store, Function.update_of_ne (hne _ v).symm] using h.setup object v
  | @free p m address hne =>
    refine ⟨h.solvers, fun object v => ?_⟩
    simpa [SolverMemory.store, Function.update_of_ne (hne _ v).symm] using h.setup object v

theorem ArrayStep.ownArrays_of_run
    {tr : List (ArrayProcess V w × ArrayEvent P V w × ArrayProcess V w)}
    (h : Run (ArrayStep build describe generated setup r) q tr q') (hinv : q.Inv setup)
    (hdistinct : ∀ k k' v v', setup k v = setup k' v' → k = k') :
    ∀ p a p', (p, .apply a, p') ∈ tr →
      OwnArrays build describe setup a (a.outcomeFor generated r p) p p' := by
  intro p a p' ht
  obtain ⟨hstep, hinv⟩ := h.invariant_mem hinv (fun _ _ _ _ hstep => hstep.inv hdistinct) ht
  exact hstep.ownArrays hinv

/-- Whatever applies, copies and changes of the caller's arrays have come before: every apply
solves with its own arrays, which it finds as they are, while the arrays of the generation are
still there. It changes no array but that of `x`, and what it leaves there and reports is what the
solver does with the contents of `b` and `x`. -/
theorem solves_own_arrays {tr : List (ArrayProcess V w × ArrayEvent P V w × ArrayProcess V w)}
    (h : Run (ArrayStep build describe generated setup r) q tr q') (hflag : q.solvers.flag = 0)
    (hplaced : ∀ k, WellPlaced (q.solvers.states k).matrix)
    (hdistinct : ∀ k k' v v', setup k v = setup k' v' → k = k')
    (hsetup : ∀ object v, (q.memory.arrays (setup (q.solvers.objects object) v)).isSome) :
    ∀ p a p', (p, .apply a, p') ∈ tr →
      OwnArrays build describe setup a (a.outcomeFor generated r p) p p' :=
  ArrayStep.ownArrays_of_run h ⟨⟨hflag, hplaced⟩, hsetup⟩ hdistinct

/-- The solvers of the objects come from constructors, whose heap the run starts in. -/
theorem solves_own_arrays_of_generated [Inhabited V] [Zero V] {heap : Memory.Heap (Buffer V)}
    {tr : List (ArrayProcess V w × ArrayEvent P V w × ArrayProcess V w)}
    (h : Run (ArrayStep build describe generated setup r) q tr q') (hflag : q.solvers.flag = 0)
    (hplaced : ∀ k, WellPlaced (q.solvers.states k).matrix)
    (hdistinct : ∀ k k' v v', setup k v = setup k' v' → k = k')
    (hheap : q.memory.arrays = heapArrays heap)
    (hgenerated : ∀ object, GeneratedIn build r (q.solvers.states (q.solvers.objects object))
      (setup (q.solvers.objects object)) heap) :
    ∀ p a p', (p, .apply a, p') ∈ tr →
      OwnArrays build describe setup a (a.outcomeFor generated r p) p p' :=
  ArrayStep.ownArrays_of_run h
    ⟨⟨hflag, hplaced⟩, fun object v => hheap ▸ (hgenerated object).isSome v⟩ hdistinct

end

/-- A solver whose solve copies `b`, and does not converge. -/
def copyingSolver : Solver 1 ℤ 32 := fun c =>
  ⟨(c (Fin.last 0)).1, 256, (0, 100), (0, .finite (1 / 2)), (0, 0)⟩

/-- An apply from the array at 0 to the array at 1. -/
def copyingApply : ArrayApply 1 ℤ 32 where
  toApply := unconverged
  otherContents := fun _ => ([], [])
  scale := id
  addScaled := fun _ x => x

def copyingProcess : ArrayProcess ℤ 32 where
  solvers := ⟨0, fun _ => .new, fun _ => 0⟩
  memory := ⟨fun address => some (if address = 0 then [1, 2, 3, 4] else [0, 0, 0, 0]),
    fun _ _ => 7⟩

/-- The vectors point at other arrays before it, and afterwards `x` holds what `b` holds. -/
theorem solves_own_arrays_copying :
    ∃ q', ArrayStep .host (fun _ => "") (fun _ => copyingSolver)
        (fun k v => 2 * k + if v = .b then 2 else 3) 0 copyingProcess (.apply copyingApply) q' ∧
      q'.memory.arrays 1 = some [1, 2, 3, 4] ∧ q'.memory.arrays 0 = some [1, 2, 3, 4] := by
  have happly : ApplyStep 1 .host (fun _ => "") copyingProcess.solvers
    (.apply copyingApply.toApply) _ := .returns rfl
  have htrace : copyingApply.trace 1 .host (fun _ => "") copyingProcess.solvers =
    [.setValues .b 0, .setValues .x 1, .solve] := rfl
  have hanswered : copyingApply.Answered 0 (copyingSolver fun _ => ([1, 2, 3, 4], []))
      copyingProcess.memory copyingSolver 0
      (copyingApply.trace 1 .host (fun _ => "") copyingProcess.solvers) := by
    refine ⟨fun before after h => ?_, rfl⟩
    rw [htrace] at h
    match before, h with
    | [_, _], h =>
      simp only [List.cons_append, List.nil_append, List.cons.injEq] at h
      obtain ⟨rfl, rfl, -⟩ := h
      rfl
    | _ :: _ :: _ :: _, h => simp at h
  have hstep : ArrayStep .host (fun _ => "") (fun _ => copyingSolver)
      (fun k v => 2 * k + if v = .b then 2 else 3) 0 copyingProcess (.apply copyingApply) _ :=
    .apply happly ⟨fun _ => rfl, fun _ => rfl, nofun⟩ hanswered
  have hown := solves_own_arrays (.snoc .nil hstep) rfl (fun _ => nofun)
    (fun k k' v v' h => by split_ifs at h <;> omega) (fun _ _ => rfl) _ _ _
    (List.mem_singleton_self _)
  refine ⟨_, hstep, ?_, hown.frame 0 nofun⟩
  exact (hown.returned rfl).2

end GinkgoTpl.Hypre
