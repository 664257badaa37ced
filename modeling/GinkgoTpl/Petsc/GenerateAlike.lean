import GinkgoTpl.Petsc.Generate

/-!
# The ranks generate a Ksp together

If PETSc succeeds and fails on all ranks alike, the constructors of all ranks end alike, and no
rank is ever stranded: not when the import throws, not when a call of PETSc fails, and not while
the objects made until then are released, which is collective again. `generate_joint` says so for
every distributed matrix, whatever its partition.
-/

namespace GinkgoTpl.Petsc

open Sparse Ginkgo Spmd

variable {P : ℕ} {V : Type} {needs : PetscOp → Fin P → Fin P → Prop}
  {answers : Fin P → GenerateAnswers} {process : PetscProcess} {bits : ℕ}

/-! ## The import of all ranks -/

section
variable [Inhabited V]

theorem importSystemMatrix_eq {A : Type} (bits : ℕ) (petscInitialized : Bool)
    (systemMatrix : SystemMatrix P V) :
    importSystemMatrix (A := A) bits petscInitialized systemMatrix =
      (Program.ofExcept (checkSystemMatrix bits petscInitialized systemMatrix) >>= fun _ =>
        importCoo bits systemMatrix) := by
  unfold importSystemMatrix checkSystemMatrix
  split
  · rfl
  split
  · rfl
  cases toPetscInt bits (castInt 64 systemMatrix.size.1) with
  | error e => rfl
  | ok v => cases systemMatrix <;> rfl

theorem checkSystemMatrix_distributed {M : DistMatrix P V} (hn : M.n < 2 ^ 63) (r : Fin P) :
    checkSystemMatrix bits true (.distributed (M.rank r)) =
      (toPetscInt bits M.n).map fun _ => () := by
  have hsize : (M.rank r).size = (M.n, M.n) := by
    rw [(M.read r).size, M.rowPart_size, M.colPart_size]
  simp only [checkSystemMatrix, SystemMatrix.size, hsize, castInt_size hn, Bool.not_true,
    Bool.false_eq_true, if_false, ne_eq, not_true_eq_false]
  cases toPetscInt bits M.n <;> rfl

/-- The ranks import their own rows, or all of them throw. -/
theorem joint_importCoo {A : Type} (M : DistMatrix P V) (hfits : IntFits bits M.n) :
    Joint (A := A) (fun r => importCoo bits (.distributed (M.rank r))) fun x =>
      (M.rowPart.hasOrderedParts ∧ ∃ coos : Fin P → CooData V, (x = fun r => .ok (coos r)) ∧
        ∀ r, cooFromRow bits (M.rank r) (M.rowPart.start r) = .ok (coos r)) ∨
      ¬ M.rowPart.hasOrderedParts ∧ ∃ es : Fin P → Error, x = fun r => .error (es r) := by
  by_cases hord : M.rowPart.hasOrderedParts
  · obtain ⟨coos, Rs, as, hcoos⟩ := buildDistributedCoo_returns A M hord hfits
    exact ⟨Rs, as, fun r => .ok (coos r), hcoos, .inl ⟨hord, coos, rfl,
      fun r => (buildDistributedCoo_cooFromRow hcoos r).2.2⟩⟩
  · have hraise : ∀ r, importCoo (A := A) bits (.distributed (M.rank r)) =
        .raise (.notSupported ("distributed::Matrix without a row partition of " ++
          "contiguous parts ordered by rank")) := fun r => by
      have hpart : (M.rank r).rowPartition = some M.rowPart := (M.read r).rowPartition
      simp [importCoo, buildDistributedCoo, hpart, hord]
    simp only [hraise]
    exact .raise (.inr ⟨hord, _, rfl⟩)

end

/-! ## The calls of all ranks -/

theorem throwing_ofExcept {A α : Type} (state : GenerationState) (x : Except Error α) :
    (throwing state (.ofExcept x) : Program (mpiPetsc P needs) A _ α) =
      .ofExcept (x.mapError (·, state)) := by
  cases x <;> rfl

theorem assertNoPetscErrors_ne_zero {code : ℤ} (h : code ≠ 0) (call : String) :
    ∃ e, assertNoPetscErrors code call = .error e := ⟨_, if_pos h⟩

/-- A call fails on all ranks or on none, and the ranks see the same type of solver. -/
structure AnswersAlike (answers : Fin P → GenerateAnswers) : Prop where
  code : ∀ call r s, (answers r).code call = 0 → (answers s).code call = 0
  kspType : ∀ r s, (answers r).kspType = (answers s).kspType

/-- The same objects are set, on the same communicator and in the same memory. -/
structure SameObjects (s s' : GenerationState) : Prop where
  comm : s.comm = s'.comm
  deviceVectors : s.deviceVectors = s'.deviceVectors
  mat : s.mat = s'.mat
  ksp : s.ksp = s'.ksp
  b : s.b = s'.b
  x : s.x = s'.x

/-- Some call fails on all ranks. -/
def CallFails (answers : Fin P → GenerateAnswers) : Prop := ∃ call, ∀ r, (answers r).code call ≠ 0

/-- `Q` holds if a call fails and all ranks throw in states with the same objects. -/
def AllowsErrors {β : Type} (answers : Fin P → GenerateAnswers)
    (Q : (Fin P → Except (Error × GenerationState) β) → Prop) : Prop :=
  CallFails answers → ∀ (es : Fin P → Error) (st : Fin P → GenerationState) (s : GenerationState),
    (∀ r, SameObjects (st r) s) → Q fun r => .error (es r, st r)

namespace SameObjects

variable {s s' : GenerationState}

theorem setMat (h : SameObjects s s') (device : Bool) :
    SameObjects { s with mat := true, deviceVectors := device }
      { s' with mat := true, deviceVectors := device } :=
  ⟨h.comm, rfl, rfl, h.ksp, h.b, h.x⟩

theorem setKsp (h : SameObjects s s') : SameObjects { s with ksp := true, x := true, b := true }
    { s' with ksp := true, x := true, b := true } :=
  ⟨h.comm, h.deviceVectors, h.mat, rfl, rfl, rfl⟩

end SameObjects

section
variable {A ε β : Type} {st : Fin P → GenerationState} {comm : Comm}

theorem joint_petscCollective {op : PetscOp} {f : Fin P → Program (mpiPetsc P needs) A ε β}
    {Q : (Fin P → Except ε β) → Prop} (h : Joint f Q) :
    Joint (fun r => petscCollective comm op >>= fun _ => f r) Q := by
  cases comm with
  | null | self => exact h
  | matrix =>
    show Joint (fun r => Program.call (C := mpiPetsc P needs) (.inr op) () fun _ => f r) Q
    exact .call h

theorem joint_destroyObject {isSet : Bool} {o : KspObject}
    {f : Fin P → Program (mpiPetsc P needs) (KspAction V) ε β} {Q : (Fin P → Except ε β) → Prop}
    (h : Joint f Q) : Joint (fun r => destroyObject comm isSet o >>= fun _ => f r) Q := by
  cases isSet with
  | false => exact h
  | true =>
    simp only [destroyObject, if_true, Program.bind_assoc]
    exact joint_petscCollective (.act h)

/-- Ranks with the same objects release them together. -/
theorem joint_destroyState {s : GenerationState} (hcomm : ∀ r, (st r).comm = s.comm)
    (hmat : ∀ r, (st r).mat = s.mat) (hksp : ∀ r, (st r).ksp = s.ksp) (hb : ∀ r, (st r).b = s.b)
    (hx : ∀ r, (st r).x = s.x)
    {f : Fin P → Program (mpiPetsc P needs) (KspAction V) ε β} {Q : (Fin P → Except ε β) → Prop}
    (h : Joint f Q) : Joint (fun r => destroyState process (st r) >>= fun _ => f r) Q := by
  unfold destroyState
  split
  · exact h
  · simp only [Program.bind_assoc, hcomm, hmat, hksp, hb, hx]
    exact joint_destroyObject (joint_destroyObject (joint_destroyObject (joint_destroyObject h)))

theorem SameObjects.joint_destroyState {s : GenerationState} (hst : ∀ r, SameObjects (st r) s)
    {f : Fin P → Program (mpiPetsc P needs) (KspAction V) ε β} {Q : (Fin P → Except ε β) → Prop}
    (h : Joint f Q) : Joint (fun r => destroyState process (st r) >>= fun _ => f r) Q :=
  Petsc.joint_destroyState (fun r => (hst r).comm) (fun r => (hst r).mat) (fun r => (hst r).ksp)
    (fun r => (hst r).b) (fun r => (hst r).x) h

theorem joint_enterCall {call : GenerateCall}
    {f : Fin P → Program (mpiPetsc P needs) A ε β} {Q : (Fin P → Except ε β) → Prop}
    (h : Joint f Q) : Joint (fun r => enterCall comm call >>= fun _ => f r) Q := by
  unfold enterCall
  split
  · exact joint_petscCollective h
  · exact h

/-- The ranks make a checked call: they go on together, or all throw in the states they are in. -/
theorem joint_checkedCall (halike : AnswersAlike answers) {s : GenerationState}
    (hst : ∀ r, SameObjects (st r) s) {call : GenerateCall} {handed : Fin P → Handed V}
    {f : Fin P → Program (mpiPetsc P needs) (KspAction V) (Error × GenerationState) β}
    {Q : (Fin P → Except (Error × GenerationState) β) → Prop} (herror : AllowsErrors answers Q)
    (h : Joint f Q) :
    Joint (fun r => checkedCall (answers r) (st r) call (handed r) >>= fun _ => f r) Q := by
  simp only [checkedCall, Program.bind_assoc, (hst _).comm, throwing_ofExcept]
  refine joint_enterCall ?_
  by_cases hcode : ∀ r, (answers r).code call = 0
  · simp only [hcode]
    exact .act h
  · have hne : ∀ r, (answers r).code call ≠ 0 := fun r hr =>
      hcode fun s => halike.code call r s hr
    choose es hes using fun r => assertNoPetscErrors_ne_zero (hne r) call.text
    simp only [hes]
    exact .raise (herror ⟨call, hne⟩ es st s hst)

/-! ## The phases of the constructor -/

variable {Q : (Fin P → Except (Error × GenerationState) β) → Prop} {s : GenerationState}
  {clock : Clock} {device : Bool} {coo : Fin P → CooData V} {options : Fin P → Chars}
  {id : Fin P → ℕ}

theorem joint_endOfPhase (halike : AnswersAlike answers) (hst : ∀ r, SameObjects (st r) s)
    {f : Fin P → Program (mpiPetsc P needs) (KspAction V) (Error × GenerationState) β}
    (herror : AllowsErrors answers Q) (h : Joint f Q) :
    Joint (fun r => endOfPhase (answers r) (st r) clock >>= fun _ => f r) Q := by
  have hbarrier : Joint (C := mpiPetsc P needs) (fun r =>
      (collective s.comm .barrier ()).inl >>= fun _ =>
        Program.perform (.readClock clock) >>= fun _ => f r) Q := by
    cases s.comm with
    | null | self => exact .act h
    | matrix =>
      show Joint (fun r => Program.call (C := mpiPetsc P needs) (.inl .barrier) () fun _ =>
        .act (.readClock clock) (f r)) Q
      exact .call (.act h)
  simp only [endOfPhase, Program.bind_assoc, (hst _).comm]
  unfold waitForDevice
  simp only [(hst _).deviceVectors]
  split
  · simp only [Program.bind_assoc]
    exact joint_checkedCall halike hst herror (joint_checkedCall halike hst herror hbarrier)
  · exact hbarrier

theorem joint_createMat (halike : AnswersAlike answers) (hst : ∀ r, SameObjects (st r) s)
    {f : Fin P → GenerationState →
      Program (mpiPetsc P needs) (KspAction V) (Error × GenerationState) β}
    (herror : AllowsErrors answers Q)
    (h : Joint (fun r => f r { st r with mat := true, deviceVectors := device }) Q) :
    Joint (fun r => createMat (answers r) device (coo r) (st r) >>= f r) Q := by
  have hmat : ∀ r, SameObjects { st r with mat := true } { s with mat := true } := fun r =>
    ⟨(hst r).comm, (hst r).deviceVectors, rfl, (hst r).ksp, (hst r).b, (hst r).x⟩
  have hdevice := fun r => (hst r).setMat device
  simp only [createMat, Program.bind_assoc, Program.pure_eq, Program.ret_bind]
  refine joint_checkedCall halike hst herror ?_
  refine joint_checkedCall halike hmat herror ?_
  refine joint_checkedCall halike hdevice herror ?_
  refine joint_checkedCall halike hdevice herror ?_
  exact joint_checkedCall halike hdevice herror h

theorem joint_createKsp (halike : AnswersAlike answers) (hst : ∀ r, SameObjects (st r) s)
    {f : Fin P → GenerationState →
      Program (mpiPetsc P needs) (KspAction V) (Error × GenerationState) β}
    (herror : AllowsErrors answers Q)
    (h : Joint (fun r => f r { st r with ksp := true, x := true, b := true }) Q) :
    Joint (fun r => createKsp (answers r) (options r) (id r) (st r) >>= f r) Q := by
  have hksp : ∀ r, SameObjects { st r with ksp := true } { s with ksp := true } := fun r =>
    ⟨(hst r).comm, (hst r).deviceVectors, (hst r).mat, rfl, (hst r).b, (hst r).x⟩
  have hcall : ∀ {call : GenerateCall} {handed : Fin P → Handed V}
      {g : Fin P → Program (mpiPetsc P needs) (KspAction V) (Error × GenerationState) β},
      Joint g Q → Joint (fun r => checkedCall (answers r) { st r with ksp := true } call (handed r)
        >>= fun _ => g r) Q := fun hg =>
    joint_checkedCall halike hksp herror hg
  simp only [createKsp, Program.bind_assoc, Program.pure_eq, Program.ret_bind]
  refine joint_checkedCall halike hst herror ?_
  refine hcall (hcall (hcall (hcall (hcall ?_))))
  -- all ranks see the same type
  unfold setInitialGuess
  by_cases htype : ∃ r, (answers r).kspType = "preonly".toList
  · obtain ⟨r₀, hr₀⟩ := htype
    simp only [fun r => (halike.kspType r r₀).trans hr₀, ne_eq, not_true_eq_false, if_false]
    exact hcall h
  · have hne : ∀ r, (answers r).kspType ≠ "preonly".toList := fun r hr => htype ⟨r, hr⟩
    simp only [hne, ne_eq, not_false_eq_true, if_true]
    exact hcall (hcall h)

end

/-! ## The whole constructor -/

section
variable [Inhabited V]

/-- A solver on the communicator of the matrix that owns all its objects. -/
structure OwnsAll (M : DistMatrix P V) (r : Fin P) (s : GenerationState) : Prop where
  comm : s.comm = .matrix
  distributed : s.distributed
  numLocalRows : s.numLocalRows = M.rowPart.partSize r
  mat : s.mat
  ksp : s.ksp
  b : s.b
  x : s.x

/-- What the constructor checks: PETSc is initialized, the global size fits into `PetscInt`, and the
parts of the row partition are contiguous and ordered by rank. -/
structure Importable (bits : ℕ) (process : PetscProcess) (M : DistMatrix P V) : Prop where
  initialized : process.petscInitialized
  fits : IntFits bits M.n
  ordered : M.rowPart.hasOrderedParts

/-- How the ranks end: each owns the objects of its solver, or all have thrown because of a check
or of a call that fails. -/
def GeneratedAlike (bits : ℕ) (process : PetscProcess) (answers : Fin P → GenerateAnswers)
    (M : DistMatrix P V) (x : Fin P → Except Error GenerationState) : Prop :=
  (Importable bits process M ∧ ∃ out : Fin P → GenerationState, (x = fun r => .ok (out r)) ∧
    ∀ r, OwnsAll M r (out r)) ∨
  (Importable bits process M → CallFails answers) ∧ ∃ es : Fin P → Error, x = fun r => .error (es r)

variable {cudaBuild cuda : Bool} {factory : Fin P → KspFactory} {id : Fin P → ℕ}
  {M : DistMatrix P V}

theorem joint_generateBody (halike : AnswersAlike answers)
    (hcuda : ∀ r, (factory r).cudaExecutor = cuda) (hn : M.n < 2 ^ 63)
    {Q : (Fin P → Except (Error × GenerationState) GenerationState) → Prop}
    (herror : AllowsErrors answers Q)
    (hnew : ¬ Importable bits process M → ∀ es : Fin P → Error, Q fun r => .error (es r, .new))
    (h : Importable bits process M → ∀ out : Fin P → GenerationState, (∀ r, OwnsAll M r (out r)) →
      Q fun r => .ok (out r)) :
    Joint (C := mpiPetsc P needs) (fun r => generateBody bits cudaBuild (answers r) process
      (factory r) (id r) (.distributed (M.rank r))) Q := by
  simp only [generateBody, throwing_ofExcept]
  by_cases hinit : process.petscInitialized
  swap
  · have hfalse : process.petscInitialized = false := by simpa using hinit
    simp only [checkSystemMatrix, hfalse, Bool.not_false, if_true]
    exact .raise (hnew (fun himport => hinit himport.initialized) _)
  simp only [hinit, checkSystemMatrix_distributed hn]
  by_cases hfits : IntFits bits M.n
  swap
  · obtain ⟨e, he⟩ : ∃ e, toPetscInt bits M.n = .error e := by
      cases hx : toPetscInt bits M.n with
      | error e => exact ⟨e, rfl⟩
      | ok v => exact absurd (toPetscInt_eq_ok.mp hx).1 hfits
    simp only [he]
    exact .raise (hnew (fun himport => hfits himport.fits) _)
  simp only [toPetscInt_eq_ok.mpr ⟨hfits, rfl⟩, Except.map, mapError_ok, Program.ofExcept_ok,
    Program.ret_bind, Program.perform_bind]
  refine .act (.bind (.mapError (.inl ((joint_importCoo M hfits).mono fun x hx => ?_))))
  rcases hx with ⟨hord, coos, rfl, hcoos⟩ | ⟨hord, es, rfl⟩
  swap
  · exact .inr ⟨_, rfl, hnew (fun himport => hord himport.ordered) es⟩
  refine .inl ⟨coos, rfl, ?_⟩
  have hcoo : ∀ r, (coos r).comm = .matrix ∧ (coos r).distributed ∧
      (coos r).numLocalRows = M.rowPart.partSize r := fun r => by
    obtain ⟨-, -, hr⟩ := cooFromRow_eq_ok.mp (hcoos r)
    rw [hr, ← (M.read r).diag_rows]
    exact ⟨rfl, rfl, rfl⟩
  have hst : ∀ r, SameObjects { GenerationState.new with
      distributed := (coos r).distributed
      numLocalRows := (coos r).numLocalRows
      comm := (coos r).comm } { GenerationState.new with comm := .matrix } := fun r =>
    ⟨(hcoo r).1, rfl, rfl, rfl, rfl, rfl⟩
  simp only [hcuda]
  refine joint_createMat halike hst herror ?_
  have hmat := fun r => (hst r).setMat (cudaBuild && cuda)
  refine joint_createKsp halike hmat herror ?_
  have hksp := fun r => (hmat r).setKsp
  refine joint_endOfPhase halike hksp herror ?_
  refine joint_checkedCall halike hksp herror ?_
  refine joint_endOfPhase halike hksp herror ?_
  exact .ret (h ⟨hinit, hfits, hord⟩ _ fun r =>
    ⟨(hcoo r).1, (hcoo r).2.1, (hcoo r).2.2, rfl, rfl, rfl, rfl⟩)

/-- The ranks generate their solvers together: all return, or all throw after they have released
the same objects. -/
theorem joint_generate (halike : AnswersAlike answers)
    (hcuda : ∀ r, (factory r).cudaExecutor = cuda) (hn : M.n < 2 ^ 63) :
    Joint (C := mpiPetsc P needs) (fun r => generate bits cudaBuild (answers r) process
      (factory r) (id r) (.distributed (M.rank r))) (GeneratedAlike bits process answers M) := by
  unfold generate destroying
  refine .bind (.attempt (joint_generateBody halike hcuda hn (fun hfails es st s hst => ?_)
    (fun himport es => ?_) fun himport out hout => ?_))
  · refine .inl ⟨_, rfl, ?_⟩
    exact SameObjects.joint_destroyState hst (.raise (.inr ⟨fun _ => hfails, es, rfl⟩))
  · refine .inl ⟨_, rfl, ?_⟩
    exact joint_destroyState (s := .new) (fun _ => rfl) (fun _ => rfl) (fun _ => rfl)
      (fun _ => rfl) (fun _ => rfl) (.raise (.inr ⟨fun h => absurd h himport, es, rfl⟩))
  · exact .inl ⟨_, rfl, .ret (.inl ⟨himport, out, rfl, hout⟩)⟩

/-- In every interleaving of the constructors of all ranks, no rank is ever stranded, and the job
can be completed. Then all ranks own their solvers, or all have thrown; the latter only because of
a check that all of them make or of a call that fails on all of them. -/
theorem generate_completes (halike : AnswersAlike answers)
    (hcuda : ∀ r, (factory r).cudaExecutor = cuda) (hn : M.n < 2 ^ 63)
    {st : State (mpiPetsc P needs) (KspAction V) Error GenerationState}
    (hst : Reach (start fun r => generate bits cudaBuild (answers r) process (factory r) (id r)
      (.distributed (M.rank r))) st) :
    (∀ r s, ¬ st.Strands r s) ∧ ∃ st', Reach st st' ∧ ∃ x,
      GeneratedAlike bits process answers M x ∧ ∀ r, (st' r).phase = .run (.ofExcept (x r)) :=
  have hjoint := joint_generate halike hcuda hn
  ⟨fun r s => hjoint.not_strands hst r s, hjoint.completes hst⟩

end

/-! ## Two ranks -/

/-- Two rows, the first of them on rank 0. -/
def twoRows : DistMatrix 2 ℤ :=
  .ofEntries ⟨2, fun g => if g = 0 then 0 else 1, by decide⟩
    ⟨2, fun g => if g = 0 then 0 else 1, by decide⟩ rfl [⟨0, 0, 5⟩, ⟨0, 1, 7⟩, ⟨1, 1, 3⟩]
    (by decide)

/-- All calls succeed, and the solver is a CG. -/
def succeeding : GenerateAnswers := ⟨fun _ => 0, "cg".toList⟩

theorem importable_twoRows : Importable 32 ⟨false, true⟩ twoRows :=
  ⟨rfl, by decide, by decide⟩

/-- Both ranks return. -/
theorem generate_completes_two : ∃ (st : State (mpiPetsc 2 fun _ _ _ => True) (KspAction ℤ) Error
      GenerationState) (out : Fin 2 → GenerationState),
    Reach (start fun r => generate 32 false succeeding ⟨false, true⟩ ⟨[], false⟩ r
      (.distributed (twoRows.rank r))) st ∧
    ∀ r, (st r).phase = .run (.ret (out r)) ∧ OwnsAll twoRows r (out r) := by
  have halike : AnswersAlike fun _ : Fin 2 => succeeding := ⟨fun _ _ _ => id, fun _ _ => rfl⟩
  let ps (r : Fin 2) :
      Program (mpiPetsc 2 fun _ _ _ => True) (KspAction ℤ) Error GenerationState :=
    generate 32 false succeeding ⟨false, true⟩ ⟨[], false⟩ r (.distributed (twoRows.rank r))
  obtain ⟨-, st, hst, x, hx, hphase⟩ := generate_completes halike (fun _ => rfl) (by decide)
    (show Reach (start ps) (start ps) from .refl)
  rcases hx with ⟨-, out, rfl, hout⟩ | ⟨hfails, -⟩
  · exact ⟨st, out, hst, fun r => ⟨hphase r, hout r⟩⟩
  · obtain ⟨call, hcall⟩ := hfails importable_twoRows
    exact absurd rfl (hcall 0)

end GinkgoTpl.Petsc
