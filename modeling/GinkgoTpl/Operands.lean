import GinkgoTpl.Error
import GinkgoTpl.MachineInt
import GinkgoTpl.Mpi
import GinkgoTpl.Spmd.Outcome
import GinkgoTpl.Spmd.Progress

/-!
# The operands of a distributed apply

The checks that `Pcg::apply_impl` and `Ksp::apply_impl` have in common. What is wrong with the
operands of a rank is put into a bit mask, and the masks of all ranks are reduced before any rank
throws: `decidedAlike_of_check` says of every program that starts with the check that the ranks
either all go on to the collective solve or all throw.
-/

namespace GinkgoTpl

open Spmd

variable {P : ℕ}

/-- The two vectors of a solve. -/
inductive Operand where
  | b
  | x
  deriving DecidableEq

/-- The dynamic type of a linear operator, with what an apply reads of it: the stride and the
address of its array, and the rows of a local vector. -/
inductive VectorType where
  | distributed (localStride localRows values : ℕ)
  | dense (stride values : ℕ)
  | other

structure LinOp where
  typeName : String
  size : ℕ × ℕ
  vector : VectorType

/-- The address of the array of a vector. -/
def LinOp.values (x : LinOp) : ℕ :=
  match x.vector with
  | .distributed _ _ values | .dense _ values => values
  | .other => 0

/-- `gko::clone`: an operator of the same type and size, with a stride and an array of its own. -/
def LinOp.clone (x : LinOp) (stride values : ℕ) : LinOp :=
  { x with
    vector := match x.vector with
      | .distributed _ localRows _ => .distributed stride localRows values
      | .dense .. => .dense stride values
      | .other => .other }

/-- What an apply does on a rank between its collective calls. -/
inductive ApplyAction where
  /-- Looks at the stride or the size of the local vector of a distributed operand. -/
  | readStride (v : Operand)
  | readRows (v : Operand)
  /-- Points the hypre vector of an operand at an array. -/
  | setValues (v : Operand) (values : ℕ)
  /-- Places a host or a device array in the PETSc vector of an operand, and takes it out again. -/
  | placeArray (v : Operand) (device : Bool) (values : ℕ)
  | resetArray (v : Operand) (device : Bool)
  /-- Calls the solve of the library. -/
  | solve
  /-- Copies `n` values of an operand to a new host array, or of a host array to `x`. -/
  | copyToHost (v : Operand) (n source target : ℕ)
  | copyBack (n source target : ℕ)
  | freeHost (v : Operand) (values : ℕ)
  /-- Works on `x` after the solve of an advanced apply. -/
  | scale
  | addScaled
  deriving DecidableEq

/-- The action only looks at an operand. -/
def ApplyAction.Reads : ApplyAction → Prop
  | readStride _ | readRows _ => True
  | _ => False

/-! ## Errors -/

/-- The exception for operators whose dimensions do not match. -/
def dimensionMismatch (first : String) (firstSize : ℕ × ℕ) (second : String) (secondSize : ℕ × ℕ)
    (clarification : String) : Error :=
  .dimensionMismatch ("attempting to combine operators " ++ first ++ " [" ++
    toString firstSize.1 ++ " x " ++ toString firstSize.2 ++ "] and " ++ second ++ " [" ++
    toString secondSize.1 ++ " x " ++ toString secondSize.2 ++ "]: " ++ clarification)

def castError : Error :=
  .notSupported "b and x must both be experimental::distributed::Vector<ValueType> on every rank"

def strideError : Error :=
  .notSupported "a distributed::Vector with a local stride other than 1 on at least one rank"

def sizeError (ownedRows localBRows localXRows : ℕ) : Error :=
  dimensionMismatch "local b" (localBRows, 1) "local x" (localXRows, 1)
    ("the local rows of b and x must match the " ++ toString ownedRows ++
      " rows this rank owns in the system matrix; this check " ++
      "is collective, so the sizes shown may belong to a rank " ++
      "whose local rows actually matched")

/-! ## The checks -/

/-- The column count is the same on every rank, so rejecting it cannot make ranks diverge. -/
def checkColumns (solver : String) (b x : LinOp) : Except Error Unit :=
  if b.size.2 ≠ 1 then
    .error (dimensionMismatch "b" b.size "x" x.size
      (solver ++ " supports only a single right-hand side"))
  else .ok ()

/-- The check of the serial operands. -/
def checkDense (b x : LinOp) : Except Error Unit :=
  match b.vector, x.vector with
  | .dense strideB _, .dense strideX _ =>
    if strideB ≠ 1 ∨ strideX ≠ 1 then
      .error (.notSupported "matrix::Dense with a stride other than 1")
    else .ok ()
  | .dense .., _ => .error (.notSupported x.typeName)
  | _, _ => .error (.notSupported b.typeName)

def badCastFlag : ℕ := 1
def strideFlag : ℕ := 2
def sizeFlag : ℕ := 4

/-- The flags of one rank, and its local rows of `b` and `x` as far as it has looked at them. -/
def localFlags (b x : LinOp) (ownedRows : ℕ) : ℕ × ℕ × ℕ :=
  match b.vector, x.vector with
  | .distributed strideB rowsB _, .distributed strideX rowsX _ =>
    let flags := if strideB ≠ 1 ∨ strideX ≠ 1 then strideFlag else 0
    let flags := if rowsB ≠ ownedRows ∨ rowsX ≠ ownedRows then flags ||| sizeFlag else flags
    (flags, rowsB, rowsX)
  | _, _ => (badCastFlag, 0, 0)

/-- What a rank looks at for its flags, in this order. -/
def localReads (b x : LinOp) : List ApplyAction :=
  match b.vector, x.vector with
  | .distributed strideB .., .distributed .. =>
    [.readStride .b] ++ (if strideB ≠ 1 then [] else [.readStride .x]) ++
      [.readRows .b, .readRows .x]
  | _, _ => []

/-- The exception for the flags of all ranks. -/
def rejection (ownedRows localBRows localXRows flags : ℕ) : Except Error Unit :=
  if flags &&& badCastFlag ≠ 0 then .error castError
  else if flags &&& strideFlag ≠ 0 then .error strideError
  else if flags &&& sizeFlag ≠ 0 then .error (sizeError ownedRows localBRows localXRows)
  else .ok ()

/-- The check of the distributed operands, in which all ranks take part whatever they have. -/
def checkDistributed (comm : Comm) (b x : LinOp) (ownedRows : ℕ) :
    Program (mpi P) ApplyAction Error Unit := do
  Program.performAll (localReads b x)
  let (flags, localBRows, localXRows) := localFlags b x ownedRows
  let flags ← collective comm .allreduceBor flags
  Program.ofExcept (rejection ownedRows localBRows localXRows flags)

/-- What an apply of `solver` checks before the solve. The matrix has `numLocalRows` rows on this
rank. -/
def checkOperands (solver : String) (distributed : Bool) (comm : Comm) (numLocalRows : ℤ)
    (b x : LinOp) : Program (mpi P) ApplyAction Error Unit := do
  Program.ofExcept (checkColumns solver b x)
  if distributed then
    checkDistributed comm b x (castSize numLocalRows)
  else
    Program.ofExcept (checkDense b x)

theorem checkOperands_distributed {solver : String} {comm : Comm} {numLocalRows : ℤ} {b x : LinOp}
    (hcols : b.size.2 = 1) :
    (checkOperands solver true comm numLocalRows b x : Program (mpi P) _ _ _)
      = checkDistributed comm b x (castSize numLocalRows) := by
  simp [checkOperands, checkColumns, hcols]

/-- The end of an advanced apply: `x` becomes `alpha * x_solve + beta * x`. -/
def addSolution (x : LinOp) : Program (mpi P) ApplyAction Error Unit :=
  match x.vector with
  | .distributed .. | .dense .. => do
    Program.perform .scale
    Program.perform .addScaled
  | .other => .raise (.notSupported x.typeName)

theorem local_addSolution (x : LinOp) : (addSolution x : Program (mpi P) _ _ _).Local := by
  unfold addSolution
  split <;> trivial

/-! ## What the flags say -/

/-- The operands of a rank are not both distributed vectors. -/
def BadCast (b x : LinOp) : Prop :=
  match b.vector, x.vector with
  | .distributed .., .distributed .. => False
  | _, _ => True

/-- A local stride is not 1. -/
def BadStride (b x : LinOp) : Prop :=
  match b.vector, x.vector with
  | .distributed strideB .., .distributed strideX .. => strideB ≠ 1 ∨ strideX ≠ 1
  | _, _ => False

/-- A local vector has not as many rows as the rank owns. -/
def BadSize (b x : LinOp) (ownedRows : ℕ) : Prop :=
  match b.vector, x.vector with
  | .distributed _ rowsB _, .distributed _ rowsX _ => rowsB ≠ ownedRows ∨ rowsX ≠ ownedRows
  | _, _ => False

/-- Distributed vectors with local stride 1 and the rows that the rank owns. -/
def Accepted (b x : LinOp) (ownedRows : ℕ) : Prop :=
  (∃ values, b.vector = .distributed 1 ownedRows values) ∧
    ∃ values, x.vector = .distributed 1 ownedRows values

theorem accepted_iff {b x : LinOp} {ownedRows : ℕ} :
    Accepted b x ownedRows ↔ ¬ BadCast b x ∧ ¬ BadStride b x ∧ ¬ BadSize b x ownedRows := by
  unfold Accepted BadCast BadStride BadSize
  cases b.vector <;> cases x.vector <;> simp [and_assoc, and_left_comm, and_comm]

/-- The flags of a rank say what is wrong with its operands. -/
theorem localFlags_spec (b x : LinOp) (ownedRows : ℕ) :
    ((localFlags b x ownedRows).1 &&& badCastFlag ≠ 0 ↔ BadCast b x) ∧
    ((localFlags b x ownedRows).1 &&& strideFlag ≠ 0 ↔ BadStride b x) ∧
    ((localFlags b x ownedRows).1 &&& sizeFlag ≠ 0 ↔ BadSize b x ownedRows) := by
  unfold localFlags BadCast BadStride BadSize
  cases b.vector with
  | distributed =>
    cases x.vector with
    | distributed =>
      simp only [badCastFlag, strideFlag, sizeFlag]
      split_ifs <;> simp_all
    | dense | other => simp [badCastFlag, strideFlag, sizeFlag]
  | dense | other => simp [badCastFlag, strideFlag, sizeFlag]

/-- None of the flags of the check is set. -/
def NoFlags (flags : ℕ) : Prop :=
  flags &&& badCastFlag = 0 ∧ flags &&& strideFlag = 0 ∧ flags &&& sizeFlag = 0

theorem noFlags_or {flags flags' : ℕ} :
    NoFlags (flags ||| flags') ↔ NoFlags flags ∧ NoFlags flags' := by
  simp only [NoFlags, Nat.and_or_distrib_right, Nat.or_eq_zero_iff]
  tauto

theorem noFlags_localFlags {b x : LinOp} {ownedRows : ℕ} :
    NoFlags (localFlags b x ownedRows).1 ↔ Accepted b x ownedRows := by
  obtain ⟨hcast, hstride, hsize⟩ := localFlags_spec b x ownedRows
  rw [accepted_iff, ← hcast, ← hstride, ← hsize]
  simp only [NoFlags, not_not]

theorem rejection_eq_ok {rows rowsB rowsX flags : ℕ} :
    rejection rows rowsB rowsX flags = .ok () ↔ NoFlags flags := by
  unfold rejection NoFlags
  split_ifs <;> simp_all

theorem checkColumns_eq_ok {solver : String} {b x : LinOp} :
    checkColumns solver b x = .ok () ↔ b.size.2 = 1 := by
  simp [checkColumns]

theorem checkDense_eq_ok {b x : LinOp} : checkDense b x = .ok () ↔
    (∃ values, b.vector = .dense 1 values) ∧ ∃ values, x.vector = .dense 1 values := by
  unfold checkDense
  cases b.vector <;> cases x.vector <;> simp

/-- A rank whose cast has failed looks at nothing. -/
theorem localReads_of_badCast {b x : LinOp} (h : BadCast b x) : localReads b x = [] := by
  unfold BadCast at h
  unfold localReads
  split at h
  · exact h.elim
  · rfl

theorem reads_of_mem_localReads {b x : LinOp} {a : ApplyAction} (h : a ∈ localReads b x) :
    a.Reads := by
  unfold localReads at h
  split at h
  · simp only [List.mem_append, List.mem_cons, List.not_mem_nil, or_false] at h
    rcases h with (rfl | h) | rfl | rfl
    · trivial
    · split_ifs at h <;> simp only [List.mem_cons, List.not_mem_nil, or_false] at h
      subst h
      trivial
    · trivial
    · trivial
  · cases h

/-- The checks leave every state as it is that an action which only looks leaves as it is. -/
theorem wp_checkOperands {σ : Type} {E : Effects ApplyAction σ} {s : σ} {solver : String}
    {distributed : Bool} {comm : Comm} {numLocalRows : ℤ} {b x : LinOp}
    (hreads : ∀ a : ApplyAction, a.Reads → E.allowed s a ∧ E.apply s a = s) :
    (checkOperands solver distributed comm numLocalRows b x :
      Program (mpi P) ApplyAction Error Unit).Wp E s fun _ t => t = s := by
  have hlooks : ∀ as : List ApplyAction, (∀ a ∈ as, a.Reads) →
      E.Allowed s as ∧ E.after s as = s := by
    intro as
    induction as with
    | nil => exact fun _ => ⟨trivial, rfl⟩
    | cons a as ih =>
      intro has
      obtain ⟨hall, happly⟩ := hreads a (has a List.mem_cons_self)
      obtain ⟨halls, hafter⟩ := ih fun a ha => has a (List.mem_cons_of_mem _ ha)
      rw [Effects.allowed_cons, Effects.after_cons, happly]
      exact ⟨⟨hall, halls⟩, hafter⟩
  refine Program.wp_ofExcept_bind (fun _ => rfl) fun _ => ?_
  cases distributed with
  | false => exact Program.wp_ofExcept.mpr rfl
  | true =>
    obtain ⟨hall, hafter⟩ := hlooks (localReads b x) fun a => reads_of_mem_localReads
    refine Program.wp_bind.mpr (Program.wp_performAll.mpr ⟨hall, ?_⟩)
    rw [hafter]
    exact Program.wp_bind.mpr (wp_collective fun _ => Program.wp_ofExcept.mpr rfl)

/-! ## The decision of all ranks -/

section
variable {b x : Fin P → LinOp} {ownedRows : Fin P → ℕ}

/-- The flags that a rank contributes. -/
def flagsOf (b x : Fin P → LinOp) (ownedRows : Fin P → ℕ) (r : Fin P) : ℕ :=
  (localFlags (b r) (x r) (ownedRows r)).1

/-- The exception of rank `r` for the operands of all ranks: a bad cast comes before a bad stride,
and that before a bad size. -/
def RejectedWith (b x : Fin P → LinOp) (ownedRows : Fin P → ℕ) (r : Fin P) (e : Error) : Prop :=
  (∃ s, BadCast (b s) (x s)) ∧ e = castError ∨
  (∀ s, ¬ BadCast (b s) (x s)) ∧ (∃ s, BadStride (b s) (x s)) ∧ e = strideError ∨
  (∀ s, ¬ BadCast (b s) (x s) ∧ ¬ BadStride (b s) (x s)) ∧
    ∃ rowsB rowsX, e = sizeError (ownedRows r) rowsB rowsX

variable (b x ownedRows) in
/-- The reduced flags say what is wrong on some rank. -/
theorem bor_flagsOf :
    (MpiOp.bor (flagsOf b x ownedRows) &&& badCastFlag ≠ 0 ↔ ∃ s, BadCast (b s) (x s)) ∧
    (MpiOp.bor (flagsOf b x ownedRows) &&& strideFlag ≠ 0 ↔ ∃ s, BadStride (b s) (x s)) ∧
    (MpiOp.bor (flagsOf b x ownedRows) &&& sizeFlag ≠ 0 ↔
      ∃ s, BadSize (b s) (x s) (ownedRows s)) :=
  ⟨MpiOp.bor_and_ne_zero.trans (exists_congr fun _ => (localFlags_spec ..).1),
    MpiOp.bor_and_ne_zero.trans (exists_congr fun _ => (localFlags_spec ..).2.1),
    MpiOp.bor_and_ne_zero.trans (exists_congr fun _ => (localFlags_spec ..).2.2)⟩

/-- The reduced flags let every rank through if the operands of all ranks are accepted. -/
theorem rejection_of_accepted (hall : ∀ s, Accepted (b s) (x s) (ownedRows s))
    (rows rowsB rowsX : ℕ) :
    rejection rows rowsB rowsX (MpiOp.bor (flagsOf b x ownedRows)) = .ok () := by
  obtain ⟨hcast, hstride, hsize⟩ := bor_flagsOf b x ownedRows
  have hall := fun s => accepted_iff.mp (hall s)
  unfold rejection
  rw [if_neg (hcast.not.mpr (not_exists.mpr fun s => (hall s).1)),
    if_neg (hstride.not.mpr (not_exists.mpr fun s => (hall s).2.1)),
    if_neg (hsize.not.mpr (not_exists.mpr fun s => (hall s).2.2))]

/-- The reduced flags make every rank throw if the operands of some rank are not accepted. -/
theorem rejection_of_not_accepted (hall : ¬ ∀ s, Accepted (b s) (x s) (ownedRows s)) (r : Fin P)
    (rowsB rowsX : ℕ) : ∃ e, RejectedWith b x ownedRows r e ∧
      rejection (ownedRows r) rowsB rowsX (MpiOp.bor (flagsOf b x ownedRows)) = .error e := by
  obtain ⟨hcast, hstride, hsize⟩ := bor_flagsOf b x ownedRows
  unfold rejection
  split_ifs with h1 h2 h3
  · exact ⟨_, .inl ⟨hcast.mp h1, rfl⟩, rfl⟩
  · exact ⟨_, .inr (.inl ⟨not_exists.mp (hcast.not.mp h1), hstride.mp h2, rfl⟩), rfl⟩
  · exact ⟨_, .inr (.inr ⟨fun s => ⟨not_exists.mp (hcast.not.mp h1) s,
      not_exists.mp (hstride.not.mp h2) s⟩, _, _, rfl⟩), rfl⟩
  · exact absurd (fun s => accepted_iff.mpr ⟨not_exists.mp (hcast.not.mp h1) s,
      not_exists.mp (hstride.not.mp h2) s, not_exists.mp (hsize.not.mp h3) s⟩) hall

/-- The round of the check. -/
def checkRound (b x : Fin P → LinOp) (ownedRows : Fin P → ℕ) : Round (mpi P) :=
  ⟨MpiOp.allreduceBor, flagsOf b x ownedRows⟩

variable (b x ownedRows) in
/-- Every rank takes part in the round of the check, whatever it has. -/
theorem checkDistributed_leads (r : Fin P) :
    Leads r (checkDistributed .matrix (b r) (x r) (ownedRows r)) [checkRound b x ownedRows]
      (localReads (b r) (x r)) (Program.ofExcept (rejection (ownedRows r)
        (localFlags (b r) (x r) (ownedRows r)).2.1 (localFlags (b r) (x r) (ownedRows r)).2.2
        (MpiOp.bor (flagsOf b x ownedRows)))) := by
  rw [← List.append_nil (localReads (b r) (x r))]
  rcases hflags : localFlags (b r) (x r) (ownedRows r) with ⟨flags, rowsB, rowsX⟩
  have hr : flagsOf b x ownedRows r = flags := by rw [flagsOf, hflags]
  simp only [checkDistributed, hflags]
  exact .performAll (leads_collective .allreduceBor (flagsOf b x ownedRows) hr .refl)

/-- All ranks get through the check if their operands are accepted. -/
theorem checkDistributed_together (hall : ∀ r, Accepted (b r) (x r) (ownedRows r)) :
    Together (fun r => checkDistributed .matrix (b r) (x r) (ownedRows r))
      [checkRound b x ownedRows] (fun r => localReads (b r) (x r)) fun _ => .ret () := by
  intro r
  have h := checkDistributed_leads b x ownedRows r
  rwa [rejection_of_accepted hall] at h

/-- All ranks throw in the check if the operands of some rank are not accepted. -/
theorem checkDistributed_rejects (hall : ¬ ∀ r, Accepted (b r) (x r) (ownedRows r)) :
    ∃ es : Fin P → Error, (∀ r, RejectedWith b x ownedRows r (es r)) ∧
      Together (fun r => checkDistributed .matrix (b r) (x r) (ownedRows r))
        [checkRound b x ownedRows] (fun r => localReads (b r) (x r)) fun r => .raise (es r) := by
  choose es hes hrej using fun r => rejection_of_not_accepted hall r
    (localFlags (b r) (x r) (ownedRows r)).2.1 (localFlags (b r) (x r) (ownedRows r)).2.2
  refine ⟨es, hes, fun r => ?_⟩
  have h := checkDistributed_leads b x ownedRows r
  rwa [hrej] at h

/-! ## Applies -/

variable {ε α : Type}

/-- The programs `ps` of an apply decide alike: `error` is the exception in what they raise, and
`solve` the collective solve. -/
structure DecidedAlike (ps : Fin P → Program (mpi P) ApplyAction ε α) (error : ε → Error)
    (b x : Fin P → LinOp) (ownedRows : Fin P → ℕ) (solve : LibraryCall) : Prop where
  /-- No interleaving leaves a rank blocked. -/
  progress : ∀ st, Reach (start ps) st → ∀ r, ¬ st.Done r → ∃ st', Step st st'
  completes : ∀ st, Reach (start ps) st → ∃ st', Reach st st' ∧ ∀ r, st'.Done r
  /-- Either every rank enters the reduction and the solve, or every rank throws after the
  reduction, which it has entered, and has only looked at its operands. -/
  alike : (∀ r, Accepted (b r) (x r) (ownedRows r)) ∧ (∀ st, Reach (start ps) st → ∀ r, st.Done r →
      (st r).entered.map Sigma.fst = [MpiOp.allreduceBor, MpiOp.library solve]) ∨
    (¬ ∀ r, Accepted (b r) (x r) (ownedRows r)) ∧ ∀ st, Reach (start ps) st → ∀ r,
      (∀ a ∈ (st r).log, a.Reads) ∧ (st.Done r →
        (st r).entered.map Sigma.fst = [MpiOp.allreduceBor] ∧
        ∃ e, (st r).phase = .run (.raise e) ∧ RejectedWith b x ownedRows r (error e))
  /-- A rank whose own cast has failed looks at no vector. -/
  untouched : ∀ st, Reach (start ps) st → ∀ r, BadCast (b r) (x r) → (st r).log = []

/-- Programs that start with the check and then go on to the solve decide alike. -/
theorem decidedAlike_of_check {ps : Fin P → Program (mpi P) ApplyAction ε α} {error : ε → Error}
    {thrown : Fin P → Error → ε} (rest : Fin P → Unit → Program (mpi P) ApplyAction ε α)
    {solve : LibraryCall} (hps : ∀ r, ps r =
      (checkDistributed .matrix (b r) (x r) (ownedRows r)).mapError (thrown r) >>= rest r)
    (herror : ∀ r e, error (thrown r e) = e)
    (hrest : ∀ r, Accepted (b r) (x r) (ownedRows r) →
      EndsAfter r (rest r ()) [libraryRound solve]) :
    DecidedAlike ps error b x ownedRows solve := by
  obtain rfl : ps = _ := funext hps
  by_cases hall : ∀ r, Accepted (b r) (x r) (ownedRows r)
  · choose as qs hleads hfinal using fun r => hrest r (hall r)
    have htog : Together _ _ _ qs := fun r =>
      ((checkDistributed_together hall r).mapError_ret (thrown r)).seq (hleads r)
    refine ⟨fun st hst r hr => htog.progress hfinal hst hr,
      fun st hst => htog.completes hfinal hst, .inl ⟨hall, fun st hst r ⟨p, hp, hpf⟩ => ?_⟩, ?_⟩
    · obtain ⟨-, hent, -⟩ := htog.outcome hst (hfinal r) hp hpf
      simp [hent, checkRound, libraryRound, Round.post]
    · exact fun st hst r hbad => absurd hbad (accepted_iff.mp (hall r)).1
  · obtain ⟨es, hes, htog⟩ := checkDistributed_rejects hall
    have htog : Together _ _ _ fun r => .raise (thrown r (es r)) := fun r =>
      ((htog r).mapError_raise (thrown r)).bind_raise (f := rest r)
    have hlog : ∀ st, Reach (start _) st → ∀ r, (st r).log <+: localReads (b r) (x r) :=
      fun st hst r => (htog.onPath hst .raise).log_le
    refine ⟨fun st hst r hr => htog.progress (fun _ => .raise) hst hr,
      fun st hst => htog.completes (fun _ => .raise) hst, .inr ⟨hall, fun st hst r => ⟨?_, ?_⟩⟩, ?_⟩
    · exact fun a ha => reads_of_mem_localReads ((hlog st hst r).subset ha)
    · rintro ⟨p, hp, hpf⟩
      obtain ⟨rfl, hent, -⟩ := htog.outcome hst .raise hp hpf
      exact ⟨by simp [hent, checkRound, Round.post], _, hp, by rw [herror]; exact hes r⟩
    · intro st hst r hbad
      have := hlog st hst r
      rwa [localReads_of_badCast hbad, List.prefix_nil] at this

end

end GinkgoTpl
