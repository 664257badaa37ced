import GinkgoTpl.Hypre.SolveArrays
import GinkgoTpl.Memory.Arrays
import GinkgoTpl.SolverLives

/-!
# Applies of a Pcg solver on the arrays of their callers

Any number of simple applies on all ranks, on the heap of each rank. An apply is rejected on all
ranks if some rank has bad operands. Otherwise hypre's vectors are pointed at the arrays of each
rank, and the solve leaves a solution in that of `x`; it may report errors, after which the caller
goes on. In memory, applies are the solves of those that are accepted, and nothing else
(`solves_applyActions`).
-/

namespace GinkgoTpl.Hypre

open Memory Spmd

variable {P w : ℕ} {V : Type} {build : Build} {describe : ℤ → String}

/-- An apply of a solver on one rank, and the solution that hypre leaves in `x`. -/
structure Job (V : Type) (w : ℕ) where
  answers : SolveAnswers w
  b : LinOp
  x : LinOp
  solution : List V

namespace Job

variable (j : Job V w)

def request : PcgRequest w := ⟨j.answers, j.b, j.x, none⟩

/-- The apply as its caller sees it. -/
def solve : Solve ℕ V := ⟨j.b.values, j.x.values, j.solution⟩

/-- What an apply does after the check. -/
def solveActions : List ApplyAction :=
  [.setValues .b j.b.values, .setValues .x j.x.values, .solve]

end Job

/-! ## The ranks -/

/-- The operands of an apply are accepted on all ranks. -/
def AllAccepted (ownedRows : Fin P → ℕ) (J : Fin P → Job V w) : Prop :=
  ∀ r, Accepted (J r).b (J r).x (ownedRows r)

instance (b x : LinOp) (ownedRows : ℕ) : Decidable (Accepted b x ownedRows) :=
  have : Decidable (NoFlags (localFlags b x ownedRows).1) := inferInstanceAs (Decidable (_ ∧ _))
  decidable_of_iff _ noFlags_localFlags

instance (ownedRows : Fin P → ℕ) (J : Fin P → Job V w) : Decidable (AllAccepted ownedRows J) :=
  inferInstanceAs (Decidable (∀ _, _))

/-- The rounds of an apply. -/
def applyRounds (ownedRows : Fin P → ℕ) (J : Fin P → Job V w) : List (Round (mpi P)) :=
  checkRound (fun r => (J r).b) (fun r => (J r).x) ownedRows ::
    if AllAccepted ownedRows J then [libraryRound .hypreParCsrPcgSolve] else []

/-- What an apply does on rank `r`. -/
def applyActions (ownedRows : Fin P → ℕ) (J : Fin P → Job V w) (r : Fin P) : List ApplyAction :=
  localReads (J r).b (J r).x ++ if AllAccepted ownedRows J then (J r).solveActions else []

/-- The solver is distributed and owns `ownedRows` rows, and hypre's error flag is clear. -/
structure Serves (s : ApplyState w) (ownedRows : ℕ) : Prop where
  flag : s.flag = 0
  distributed : s.solver.matrix.distributed
  comm : s.solver.matrix.comm = .matrix
  numLocalRows : castSize s.solver.matrix.numLocalRows = ownedRows

section
variable {s s' : ApplyState w} {ownedRows : ℕ} {r : Fin P}

theorem SameSolver.serves (h : SameSolver s s') (hs : Serves s ownedRows) : Serves s' ownedRows :=
  ⟨h.flag, h.matrix ▸ hs.distributed, h.matrix ▸ hs.comm, h.matrix ▸ hs.numLocalRows⟩

theorem leads_solve (describe : ℤ → String) (h : Serves s ownedRows) {j : Job V w}
    (hupdates : UpdatesClear build j.answers) : ∃ x : Except (Thrown w) (ApplyState w),
      Leads r (solve build describe j.answers j.b.values j.x.values s)
        [libraryRound .hypreParCsrPcgSolve] j.solveActions (.ofExcept x) := by
  refine ⟨s.checkSolve describe j.answers.solve >>= ApplyState.query describe j.answers, ?_⟩
  simp only [solve, setValues_of_clear h.flag hupdates, Program.act_bind, Program.ret_bind, h.comm]
  refine .act (.act (.act (leads_collective (.library .hypreParCsrPcgSolve) (fun _ => ()) rfl ?_)))
  cases s.checkSolve describe j.answers.solve with
  | error e => exact .refl
  | ok s => exact .refl

/-- What an apply does on a rank, whatever the operands of the ranks are. -/
theorem leads_run (describe : ℤ → String) {ownedRows : Fin P → ℕ} {J : Fin P → Job V w}
    (hs : Serves s (ownedRows r)) (hready : (J r).request.Ready build) :
    ∃ x : Except (Thrown w) (ApplyState w), SameSolver s (leftBy x) ∧
      Leads r ((J r).request.run build describe s) (applyRounds ownedRows J)
        (applyActions ownedRows J r) (.ofExcept x) := by
  have hrun : ((J r).request.run build describe s : Program (mpi P) _ _ _) =
      (checkDistributed .matrix (J r).b (J r).x (ownedRows r)).mapError (fun e => (e, s)) >>=
        fun _ => solve build describe (J r).answers (J r).b.values (J r).x.values s := by
    rw [← hs.numLocalRows]
    exact applyImpl_distributed hs.distributed hs.comm hready.cols
  have key : ∃ x : Except (Thrown w) (ApplyState w),
      Leads r ((J r).request.run build describe s) (applyRounds ownedRows J)
        (applyActions ownedRows J r) (.ofExcept x) := by
    rw [hrun, applyRounds, applyActions]
    by_cases hall : AllAccepted ownedRows J
    · obtain ⟨x, hsolve⟩ := leads_solve (r := r) describe hs hready.updates
      have hcheck := (checkDistributed_together hall r).mapError_ret fun e => (e, s)
      rw [if_pos hall, if_pos hall]
      exact ⟨x, hcheck.seq hsolve⟩
    · obtain ⟨es, -, htogether⟩ := checkDistributed_rejects hall
      have hcheck := (htogether r).mapError_raise fun e => (e, s)
      rw [if_neg hall, if_neg hall, List.append_nil]
      exact ⟨.error (es r, s), hcheck.bind_raise⟩
  obtain ⟨x, hx⟩ := key
  have hsame := (hx.wp (wp_run (J r).request hready hs.flag)).2
  exact ⟨x, Program.wp_ofExcept.mp hsame, hx⟩

end

/-- All ranks get through any number of applies. -/
theorem together_applies {ε : Type} (describe : ℤ → String) {ownedRows : Fin P → ℕ}
    {jobs : List (Fin P → Job V w)} (hjobs : ∀ J ∈ jobs, ∀ r, (J r).request.Ready build)
    {s : Fin P → ApplyState w} (hs : ∀ r, Serves (s r) (ownedRows r)) :
    ∃ out : Fin P → ApplyState w, (∀ r, SameSolver (s r) (out r)) ∧
      Together (C := mpi P) (ε := ε)
        (fun r => applies build describe (jobs.map fun J => (J r).request) (s r))
        (jobs.flatMap (applyRounds ownedRows))
        (fun r => jobs.flatMap fun J => applyActions ownedRows J r) fun r => .ret (out r) := by
  induction jobs generalizing s with
  | nil => exact ⟨s, fun r => .refl (hs r).flag, fun _ => .refl⟩
  | cons J jobs ih =>
    obtain ⟨hJ, hjobs⟩ := List.forall_mem_cons.mp hjobs
    choose x hsame hrun using fun r => leads_run describe (J := J) (hs r) (hJ r)
    obtain ⟨out, hout, hrest⟩ := ih hjobs fun r => (hsame r).serves (hs r)
    refine ⟨out, fun r => (hsame r).trans (hout r), fun r => ?_⟩
    have hattempt : Leads r (((J r).request.run build describe (s r)).attempt :
        Program (mpi P) ApplyAction ε _) _ _ _ := (hrun r).attempt
    rw [Program.attempt_ofExcept] at hattempt
    exact hattempt.seq (hrest r)

/-! ## Memory -/

section
variable {heap : Heap (Buffer V)} {address n : ℕ} {values : List V}

/-- A solution in the first `n` values of an array. -/
def storeSolution (heap : Heap (Buffer V)) (address n : ℕ) (values : List V) : Heap (Buffer V) :=
  heap.write address (.reals (values.take n ++ (reals heap address).drop n))

theorem first_heapArrays :
    Arrays.first (heapArrays heap) address n = (reals heap address).take n := by
  unfold Arrays.first heapArrays reals
  cases heap.read address with
  | none => rfl
  | some buffer => cases buffer <;> rfl

theorem fits_of_keeps {heap' : Heap (Buffer V)} {s : Solve ℕ V} (hk : heap.Keeps heap')
    (h : s.Fits n (heapArrays heap)) : s.Fits n (heapArrays heap') := by
  have hholds : ∀ {a}, Arrays.Holds (heapArrays heap) a n → Arrays.Holds (heapArrays heap') a n :=
    fun ⟨values, hvalues, hn⟩ =>
      ⟨values, heapArrays_eq_some.mpr (hk.read (heapArrays_eq_some.mp hvalues)), hn⟩
  exact ⟨h.solution, hholds h.b, hholds h.x⟩

/-- In the arrays of the heap, a solution overwrites the first values. -/
theorem heapArrays_storeSolution (h : Arrays.Holds (heapArrays heap) address n) :
    heapArrays (storeSolution heap address n values) =
      Arrays.write (heapArrays heap) address n values := by
  obtain ⟨old, hold, -⟩ := h
  have hread := heapArrays_eq_some.mp hold
  funext a
  by_cases ha : a = address
  · subst ha
    rw [Arrays.write, Function.update_self, hold, Option.map_some, heapArrays_eq_some,
      storeSolution, Heap.read_write_self (Heap.lt_next_of_read hread), reals, hread]
  · rw [Arrays.write_of_ne ha, heapArrays, storeSolution, Heap.read_write_of_ne ha, heapArrays]

end

/-- What a solve has found: the heap, and the first values of `b` and `x`. -/
structure SolveCall (V : Type) where
  heap : Heap (Buffer V)
  b : List V
  x : List V

def SolveCall.given (c : SolveCall V) : List V × List V := (c.b, c.x)

/-- The heap, where hypre's vectors point, the solutions that hypre will come to, and what its
solves have found. -/
structure SolveMemory (V : Type) where
  heap : Heap (Buffer V)
  points : Operand → ℕ
  coming : List (List V)
  calls : List (SolveCall V)

namespace SolveMemory

/-- What an action of an apply does on a rank with `n` rows. -/
def act (n : ℕ) (m : SolveMemory V) : ApplyAction → SolveMemory V
  | .setValues v values => { m with points := Function.update m.points v values }
  | .solve =>
    { m with
      heap := storeSolution m.heap (m.points .x) n (m.coming.headD [])
      coming := m.coming.tail
      calls := m.calls ++
        [⟨m.heap, (reals m.heap (m.points .b)).take n, (reals m.heap (m.points .x)).take n⟩] }
  | _ => m

def effects (V : Type) (n : ℕ) : Effects ApplyAction (SolveMemory V) := ⟨fun _ _ => True, act n⟩

variable {m : SolveMemory V} {n : ℕ}

theorem after_reads {as : List ApplyAction} (has : ∀ a ∈ as, a.Reads) :
    (effects V n).after m as = m := by
  induction as with
  | nil => rfl
  | cons a as ih =>
    obtain ⟨ha, has⟩ := List.forall_mem_cons.mp has
    have hact : (effects V n).apply m a = m := by
      cases a with
      | readStride | readRows => rfl
      | _ => exact ha.elim
    rw [Effects.after_cons, hact, ih has]

/-- From `m` to `m'` the given solves have been run: the arrays are those after them, nothing else
in memory has changed, and each solve has found what its caller had in `b` and `x`. -/
structure Solves (n : ℕ) (m m' : SolveMemory V) (ss : List (Solve ℕ V)) : Prop where
  arrays : heapArrays m'.heap = outcomes n (heapArrays m.heap) ss
  frame : m.heap.Frame m'.heap (ss.map Solve.x)
  calls : ∃ calls, m'.calls = m.calls ++ calls ∧
    calls.map SolveCall.given = givens n (heapArrays m.heap) ss ∧
    ∀ c ∈ calls, m.heap.Frame c.heap (ss.map Solve.x)

theorem Solves.refl (n : ℕ) (m : SolveMemory V) : Solves n m m [] :=
  ⟨rfl, .refl _ _, [], (List.append_nil _).symm, rfl, nofun⟩

theorem Solves.trans {m' m'' : SolveMemory V} {ss ss' : List (Solve ℕ V)} (h : Solves n m m' ss)
    (h' : Solves n m' m'' ss') : Solves n m m'' (ss ++ ss') := by
  obtain ⟨calls, hcalls, hgivens, hframes⟩ := h.calls
  obtain ⟨calls', hcalls', hgivens', hframes'⟩ := h'.calls
  rw [h.arrays] at hgivens'
  have hleft : ss.map Solve.x ⊆ (ss ++ ss').map Solve.x := by simp
  have hright : ss'.map Solve.x ⊆ (ss ++ ss').map Solve.x := by simp
  have hframe : m.heap.Frame m'.heap ((ss ++ ss').map Solve.x) := h.frame.mono hleft
  refine ⟨?_, hframe.trans (h'.frame.mono hright), calls ++ calls', ?_, ?_, fun c hc => ?_⟩
  · rw [h'.arrays, h.arrays, outcomes_append]
  · rw [hcalls', hcalls, List.append_assoc]
  · rw [List.map_append, hgivens, hgivens', givens_append]
  · rcases List.mem_append.mp hc with hc | hc
    · exact (hframes c hc).mono hleft
    · exact hframe.trans ((hframes' c hc).mono hright)

/-- Wherever the vectors have pointed, a solve works on the arrays of its own apply. -/
theorem solves_solveActions {j : Job V w} {rest : List (List V)}
    (hcoming : m.coming = j.solution :: rest) (hj : j.solve.Fits n (heapArrays m.heap)) :
    Solves n m ((effects V n).after m j.solveActions) [j.solve] ∧
      ((effects V n).after m j.solveActions).coming = rest := by
  obtain ⟨heap, points, coming, calls⟩ := m
  cases hcoming
  have hafter : (effects V n).after ⟨heap, points, j.solution :: rest, calls⟩ j.solveActions =
      ⟨storeSolution heap j.x.values n j.solution,
        Function.update (Function.update points .b j.b.values) .x j.x.values, rest, calls ++
          [⟨heap, (reals heap j.b.values).take n, (reals heap j.x.values).take n⟩]⟩ := by
    simp [Job.solveActions, effects, act]
  rw [hafter]
  refine ⟨⟨heapArrays_storeSolution hj.x, Heap.Frame.write, _, rfl, ?_, ?_⟩, rfl⟩
  · rw [givens, Solve.given, first_heapArrays, first_heapArrays]
    rfl
  · exact List.forall_mem_singleton.mpr (.refl _ _)

end SolveMemory

/-- The applies that are accepted. -/
def accepted (ownedRows : Fin P → ℕ) (jobs : List (Fin P → Job V w)) : List (Fin P → Job V w) :=
  jobs.filter fun J => AllAccepted ownedRows J

/-- The solves on rank `r`. -/
def solvesOf (ownedRows : Fin P → ℕ) (jobs : List (Fin P → Job V w)) (r : Fin P) :
    List (Solve ℕ V) :=
  (accepted ownedRows jobs).map fun J => (J r).solve

section
variable {ownedRows : Fin P → ℕ} {J : Fin P → Job V w} {r : Fin P} {n : ℕ} {m : SolveMemory V}
  {rest : List (List V)}

theorem solvesOf_cons (jobs : List (Fin P → Job V w)) : solvesOf ownedRows (J :: jobs) r =
    (if AllAccepted ownedRows J then [(J r).solve] else []) ++ solvesOf ownedRows jobs r := by
  rw [solvesOf, accepted, List.filter_cons]
  by_cases hall : AllAccepted ownedRows J
  · simp only [hall, decide_true, if_true]
    rfl
  · simp only [hall, decide_false, Bool.false_eq_true, if_false]
    rfl

/-- In memory, applies are the solves of those that are accepted, and nothing else. -/
theorem solves_applyActions (jobs : List (Fin P → Job V w))
    (hcoming : m.coming = (solvesOf ownedRows jobs r).map Solve.solution)
    (hfits : ∀ s ∈ solvesOf ownedRows jobs r, s.Fits n (heapArrays m.heap)) :
    m.Solves n ((SolveMemory.effects V n).after m
      (jobs.flatMap fun J => applyActions ownedRows J r)) (solvesOf ownedRows jobs r) := by
  induction jobs generalizing m with
  | nil => exact .refl n m
  | cons J jobs ih =>
    have hreads := SolveMemory.after_reads (m := m) (n := n) fun a =>
      reads_of_mem_localReads (b := (J r).b) (x := (J r).x) (a := a)
    rw [solvesOf_cons] at hcoming hfits ⊢
    rw [List.flatMap_cons, Effects.after_append, applyActions, Effects.after_append, hreads]
    by_cases hall : AllAccepted ownedRows J
    · rw [if_pos hall] at hcoming hfits ⊢
      rw [if_pos hall]
      obtain ⟨hJ, hfits⟩ := List.forall_mem_cons.mp hfits
      obtain ⟨hsolve, hrest⟩ := SolveMemory.solves_solveActions (j := J r) hcoming hJ
      refine hsolve.trans (ih hrest fun s hs => ?_)
      rw [hsolve.arrays]
      exact (hfits s hs).outcome hJ.solution
    · rw [if_neg hall] at hcoming hfits ⊢
      rw [if_neg hall, Effects.after_nil]
      exact ih hcoming hfits

end

end GinkgoTpl.Hypre
