import GinkgoTpl.Petsc.Generate
import GinkgoTpl.Spmd.Contract

/-!
# What a generation of a Ksp leaves behind

Wherever the constructor throws on a rank, it has handed PETSc only objects that exist, and the
destructor of `state` has released each of them once. `generate_owned` says so in every
interleaving, whatever the other ranks run and whichever calls fail on this one.
-/

namespace GinkgoTpl.Petsc

open Sparse Ginkgo Spmd

variable {P : ℕ} {V : Type} {needs : PetscOp → Fin P → Fin P → Prop}
  {answers : GenerateAnswers} {process : PetscProcess}

/-- The objects that PETSc has made and that have not been released. -/
abbrev Live := KspObject → Bool

namespace GenerateCall

/-- The objects that a call makes. -/
def creates : GenerateCall → List KspObject
  | matCreate => [.mat]
  | kspCreate => [.ksp]
  | matCreateVecs => [.x, .b]
  | _ => []

/-- The objects that are handed to a call. -/
def uses : GenerateCall → List KspObject
  | matSetSizes | matSetType | matSetPreallocationCoo | matSetValuesCoo | matCreateVecs => [.mat]
  | kspSetOperators => [.ksp, .mat]
  | kspSetOptionsPrefix | kspSetFromOptions | kspGetType | kspSetInitialGuessNonzero
  | kspSetUp => [.ksp]
  | _ => []

end GenerateCall

/-- A call uses objects that are there and makes objects that are not; an object that is there is
released. -/
def kspEffects (V : Type) : Effects (KspAction V) Live where
  allowed live
    | .readClock _ => True
    | .petsc call _ => (∀ o ∈ call.uses, live o) ∧ ∀ o ∈ call.creates, live o = false
    | .destroy o => live o
  apply live
    | .readClock _ => live
    | .petsc call _ => fun o => call.creates.contains o || live o
    | .destroy o => Function.update live o false

/-- The objects that are set in a state. -/
def GenerationState.owned (s : GenerationState) : Live
  | .mat => s.mat
  | .ksp => s.ksp
  | .b => s.b
  | .x => s.x

/-- `Q` holds when a part of the constructor throws and the state knows what is there. -/
def AllowsThrow {β : Type} (Q : Except (Error × GenerationState) β → Live → Prop) : Prop :=
  ∀ e s, Q (.error (e, s)) s.owned

section
variable {state : GenerationState} {live : Live} {A ε α β : Type}

theorem wp_petscCollective_bind {A σ ε β : Type} {E : Effects A σ} {s : σ} {comm : Comm}
    {op : PetscOp} {f : Unit → Program (mpiPetsc P needs) A ε β} {Q : Except ε β → σ → Prop}
    (h : (f ()).Wp E s Q) : (petscCollective comm op >>= f).Wp E s Q := by
  cases comm with
  | null | self => exact h
  | matrix => exact fun _ => h

variable {Q : Except (Error × GenerationState) β → Live → Prop} {s t : GenerationState}

/-- A part that changes nothing and may throw. -/
theorem wp_throwing_bind {σ : Type} {E : Effects A σ} {t : σ} {p : Program (mpiPetsc P needs) A _ α}
    {f : α → Program (mpiPetsc P needs) A _ β} {Q : Except (Error × GenerationState) β → σ → Prop}
    (hp : p.Wp E t fun _ t' => t' = t) (herror : ∀ e, Q (.error (e, s)) t)
    (hok : ∀ a, (f a).Wp E t Q) : (throwing s p >>= f).Wp E t Q := by
  rw [throwing, Program.wp_bind, Program.wp_mapError]
  refine hp.mono ?_
  rintro (e | a) _ rfl
  · exact herror e
  · exact hok a

/-- A checked call from a state that knows what is there: it throws, or PETSc carries it out and
`t` knows what is there. -/
theorem wp_checkedCall_bind (hQ : AllowsThrow Q) {call : GenerateCall} {handed : Handed V}
    {f : Unit → Program (mpiPetsc P needs) (KspAction V) (Error × GenerationState) β}
    (huses : ∀ o ∈ call.uses, s.owned o) (hcreates : ∀ o ∈ call.creates, s.owned o = false)
    (hs' : ∀ o, t.owned o = (call.creates.contains o || s.owned o))
    (hok : (f ()).Wp (kspEffects V) t.owned Q) :
    (checkedCall answers s call handed >>= f).Wp (kspEffects V) s.owned Q := by
  have hcall : (throwing s (.ofExcept (assertNoPetscErrors (answers.code call) call.text)) >>=
      fun _ => Program.perform (.petsc call handed) >>= f : Program (mpiPetsc P needs) (KspAction V)
        (Error × GenerationState) β).Wp (kspEffects V) s.owned Q := by
    refine wp_throwing_bind (Program.wp_ofExcept.mpr rfl) (fun e => hQ e s) fun _ => ?_
    refine ⟨⟨huses, hcreates⟩, ?_⟩
    rw [show t.owned = _ from funext hs'] at hok
    exact hok
  rw [checkedCall, Program.bind_assoc, enterCall]
  simp only [Program.bind_assoc]
  split
  · exact wp_petscCollective_bind hcall
  · exact hcall

/-- A call that makes nothing. -/
theorem wp_plainCall_bind (hQ : AllowsThrow Q) {call : GenerateCall} {handed : Handed V}
    {f : Unit → Program (mpiPetsc P needs) (KspAction V) (Error × GenerationState) β}
    (hcreates : call.creates = []) (huses : ∀ o ∈ call.uses, s.owned o)
    (hok : (f ()).Wp (kspEffects V) s.owned Q) :
    (checkedCall answers s call handed >>= f).Wp (kspEffects V) s.owned Q :=
  wp_checkedCall_bind (t := s) hQ huses (by simp [hcreates]) (by simp [hcreates]) hok

theorem wp_endOfPhase_bind (hQ : AllowsThrow Q) {clock : Clock}
    {f : Unit → Program (mpiPetsc P needs) (KspAction V) (Error × GenerationState) β}
    (h : (f ()).Wp (kspEffects V) s.owned Q) :
    (endOfPhase answers s clock >>= f).Wp (kspEffects V) s.owned Q := by
  have hbarrier : ((collective s.comm .barrier ()).inl >>= fun _ =>
      Program.perform (.readClock clock) >>= f : Program (mpiPetsc P needs) (KspAction V)
        (Error × GenerationState) β).Wp (kspEffects V) s.owned Q := by
    cases s.comm with
    | null | self => exact ⟨trivial, h⟩
    | matrix => exact fun _ => ⟨trivial, h⟩
  simp only [endOfPhase, Program.bind_assoc, waitForDevice]
  split
  · rw [Program.bind_assoc]
    exact wp_plainCall_bind hQ rfl nofun (wp_plainCall_bind hQ rfl nofun hbarrier)
  · exact hbarrier

theorem wp_createMat_bind (hQ : AllowsThrow Q) {device : Bool} {coo : CooData V}
    {f : GenerationState →
      Program (mpiPetsc P needs) (KspAction V) (Error × GenerationState) β}
    (hmat : s.mat = false)
    (h : (f { s with mat := true, deviceVectors := device }).Wp (kspEffects V)
      (GenerationState.owned { s with mat := true }) Q) :
    (createMat answers device coo s >>= f).Wp (kspEffects V) s.owned Q := by
  simp only [createMat, Program.bind_assoc, Program.pure_eq, Program.ret_bind]
  refine wp_checkedCall_bind (t := { s with mat := true }) hQ nofun ?_ ?_ ?_
  · simpa [GenerateCall.creates, GenerationState.owned] using hmat
  · intro o
    cases o <;> rfl
  have hlive : ∀ o ∈ [KspObject.mat], GenerationState.owned { s with mat := true } o := by
    simp [GenerationState.owned]
  refine wp_plainCall_bind hQ rfl hlive ?_
  refine wp_plainCall_bind (s := { s with mat := true, deviceVectors := device }) hQ rfl hlive ?_
  refine wp_plainCall_bind (s := { s with mat := true, deviceVectors := device }) hQ rfl hlive ?_
  exact wp_plainCall_bind (s := { s with mat := true, deviceVectors := device }) hQ rfl hlive h

theorem wp_createKsp_bind (hQ : AllowsThrow Q) {options : Chars} {id : ℕ}
    {f : GenerationState →
      Program (mpiPetsc P needs) (KspAction V) (Error × GenerationState) β}
    (hmat : s.mat) (hksp : s.ksp = false) (hb : s.b = false) (hx : s.x = false)
    (h : (f { s with ksp := true, x := true, b := true }).Wp (kspEffects V)
      (GenerationState.owned { s with ksp := true, x := true, b := true }) Q) :
    (createKsp answers options id s >>= f).Wp (kspEffects V) s.owned Q := by
  let s₁ := { s with ksp := true }
  have hlive : ∀ call : GenerateCall, call.uses ⊆ [.ksp, .mat] → ∀ o ∈ call.uses, s₁.owned o := by
    intro call hcall o ho
    rcases List.mem_pair.mp (hcall ho) with rfl | rfl
    · rfl
    · exact hmat
  simp only [createKsp, Program.bind_assoc, Program.pure_eq, Program.ret_bind]
  refine wp_checkedCall_bind (t := s₁) hQ nofun ?_ ?_ ?_
  · simpa [GenerateCall.creates, GenerationState.owned] using hksp
  · intro o
    cases o <;> rfl
  have hvecs : (checkedCall answers s₁ .matCreateVecs .nothing >>= fun _ =>
      f { s₁ with x := true, b := true }).Wp (kspEffects V) s₁.owned Q := by
    refine wp_checkedCall_bind (t := { s₁ with x := true, b := true }) hQ
      (hlive _ (by decide)) ?_ ?_ h
    · simpa [GenerateCall.creates] using ⟨hx, hb⟩
    · intro o
      cases o <;> rfl
  refine wp_plainCall_bind hQ rfl (hlive _ (by decide)) ?_
  refine wp_plainCall_bind hQ rfl (hlive _ (by decide)) ?_
  refine wp_plainCall_bind hQ rfl (hlive _ (by decide)) ?_
  refine wp_plainCall_bind hQ rfl (hlive _ (by decide)) ?_
  refine wp_plainCall_bind hQ rfl (hlive _ (by decide)) ?_
  unfold setInitialGuess
  split
  · exact wp_plainCall_bind hQ rfl (hlive _ (by decide)) hvecs
  · exact hvecs

/-! ## The whole constructor -/

theorem wp_destroyObject {comm : Comm} {o : KspObject} {isSet : Bool} {live : Live}
    {f : Unit → Program (mpiPetsc P needs) (KspAction V) ε β} {Q : Except ε β → Live → Prop}
    (hset : isSet = live o) (h : (f ()).Wp (kspEffects V) (Function.update live o false) Q) :
    (destroyObject comm isSet o >>= f).Wp (kspEffects V) live Q := by
  cases isSet with
  | false =>
    rw [show Function.update live o false = live by rw [hset, Function.update_eq_self]] at h
    exact h
  | true =>
    simp only [destroyObject, if_true, Program.bind_assoc]
    exact wp_petscCollective_bind ⟨hset.symm, h⟩

/-- The destructor of a state that knows what is there releases all of it. -/
theorem wp_destroyState (hrun : process.mpiFinalized = false) (hinit : process.petscInitialized)
    {f : Unit → Program (mpiPetsc P needs) (KspAction V) ε β} {Q : Except ε β → Live → Prop}
    (h : (f ()).Wp (kspEffects V) (fun _ => false) Q) :
    (destroyState process s >>= f).Wp (kspEffects V) s.owned Q := by
  simp only [destroyState, hrun, hinit, Bool.not_true, Bool.false_eq_true, or_self, if_false,
    Program.bind_assoc]
  refine wp_destroyObject rfl (wp_destroyObject rfl (wp_destroyObject rfl
    (wp_destroyObject rfl ?_)))
  convert h using 1
  funext o
  cases o <;> rfl

end

section
variable [Inhabited V] {bits : ℕ} {cudaBuild : Bool} {factory : KspFactory} {id : ℕ}
  {systemMatrix : SystemMatrix P V}

/-- The import takes no actions. -/
theorem wp_importCoo {A σ : Type} {E : Effects A σ} {s : σ} :
    (importCoo bits systemMatrix).Wp E s fun _ t => t = s := by
  cases systemMatrix with
  | csr hostCsr => exact Program.wp_ofExcept.mpr rfl
  | other => exact rfl
  | distributed L =>
    simp only [importCoo, buildDistributedCoo]
    split
    · rfl
    · exact fun o => Program.wp_ofExcept.mpr rfl

/-- However the body ends, the state knows what is there, and if it returns, everything is. -/
def KnowsOwned (x : Except (Error × GenerationState) GenerationState) (live : Live) : Prop :=
  match x with
  | .ok s => live = s.owned ∧ ∀ o, s.owned o
  | .error (_, s) => live = s.owned

theorem wp_generateBody :
    (generateBody bits cudaBuild answers process factory id systemMatrix :
      Program (mpiPetsc P needs) (KspAction V) _ GenerationState).Wp (kspEffects V)
      GenerationState.new.owned KnowsOwned := by
  have hQ : AllowsThrow KnowsOwned := fun _ _ => rfl
  refine wp_throwing_bind (Program.wp_ofExcept.mpr rfl) (fun _ => rfl) fun _ => ⟨trivial, ?_⟩
  refine wp_throwing_bind wp_importCoo.inl (fun _ => rfl) fun coo => ?_
  let s : GenerationState := { GenerationState.new with
    distributed := coo.distributed
    numLocalRows := coo.numLocalRows
    comm := coo.comm }
  refine wp_createMat_bind (s := s) hQ rfl ?_
  let s₁ := { s with mat := true, deviceVectors := cudaBuild && factory.cudaExecutor }
  refine wp_createKsp_bind (s := s₁) hQ rfl rfl rfl rfl ?_
  refine wp_endOfPhase_bind hQ (wp_plainCall_bind hQ rfl ?_ (wp_endOfPhase_bind hQ ?_))
  · simp [GenerateCall.uses, GenerationState.owned]
  · exact ⟨rfl, fun o => by cases o <;> rfl⟩

/-- What is there when the constructor has ended. -/
def LeavesOwned (x : Except Error GenerationState) (live : Live) : Prop :=
  match x with
  | .ok s => live = s.owned ∧ ∀ o, s.owned o
  | .error _ => live = fun _ => false

theorem wp_generate (hrun : process.mpiFinalized = false) :
    (generate bits cudaBuild answers process factory id systemMatrix :
      Program (mpiPetsc P needs) (KspAction V) Error GenerationState).Wp (kspEffects V)
      (fun _ => false) LeavesOwned := by
  have hnew : GenerationState.new.owned = fun _ => false := by
    funext o
    cases o <;> rfl
  by_cases hinit : process.petscInitialized
  swap
  · have hfalse : process.petscInitialized = false := by simpa using hinit
    simp only [generate, destroying, generateBody, checkSystemMatrix, hfalse, Bool.not_false,
      if_true, destroyState, or_true]
    rfl
  rw [← hnew]
  refine Program.wp_bind.mpr (Program.wp_attempt.mpr (wp_generateBody.mono ?_))
  rintro (⟨e, s⟩ | s) live hlive
  · subst hlive
    exact wp_destroyState hrun hinit rfl
  · exact hlive

/-- In every interleaving and wherever the constructor throws, PETSc has been given only objects
that it had made and that were not released, and none is left. If the constructor returns, its
state owns all four objects, and nothing else is left. -/
theorem generate_owned {ps : Fin P → Program (mpiPetsc P needs) (KspAction V) Error GenerationState}
    {r : Fin P} (hps : ps r = generate bits cudaBuild answers process factory id systemMatrix)
    (hrun : process.mpiFinalized = false)
    {st : State (mpiPetsc P needs) (KspAction V) Error GenerationState}
    (hst : Reach (start ps) st) :
    (kspEffects V).Allowed (fun _ => false) (st r).log ∧
      (∀ e, (st r).phase = .run (.raise e) →
        (kspEffects V).after (fun _ => false) (st r).log = fun _ => false) ∧
      ∀ s, (st r).phase = .run (.ret s) →
        (kspEffects V).after (fun _ => false) (st r).log = s.owned ∧ ∀ o, s.owned o := by
  obtain ⟨hallowed, hphase⟩ := hst.wp (hps ▸ wp_generate hrun)
  refine ⟨hallowed, fun e he => ?_, fun s hs => ?_⟩
  · rw [he] at hphase
    exact hphase
  · rw [hs] at hphase
    exact hphase

end

/-- A matrix with one row, on the communicator of one rank. -/
def oneRow : Csr ℤ := ⟨1, 1, [0, 1], [0], [5]⟩

/-- PETSc is running, and `KSPSetUp` fails. -/
def setUpFails : GenerateAnswers := ⟨fun call => if call = .kspSetUp then 76 else 0, "cg".toList⟩

/-- `KSPSetUp` fails after all objects have been made: the constructor throws, and none is left. -/
theorem generate_owned_setUpFails :
    ∃ st : State (mpiPetsc 1 fun _ _ _ => True) (KspAction ℤ) Error GenerationState,
      Reach (start fun _ => generate 32 false setUpFails ⟨false, true⟩ ⟨[], false⟩ 0 (.csr oneRow))
        st ∧ st.Threw 0 ∧ (st 0).log.length = 19 ∧
      (kspEffects ℤ).Allowed (fun _ => false) (st 0).log ∧
      (kspEffects ℤ).after (fun _ => false) (st 0).log = fun _ => false := by
  have hleads : ∃ as e, Leads (C := mpiPetsc 1 fun _ _ _ => True) 0
      (generate 32 false setUpFails ⟨false, true⟩ ⟨[], false⟩ 0 (.csr oneRow)) [] as (.raise e) ∧
        as.length = 19 :=
    ⟨_, _, .act (.act (.act (.act (.act (.act (.act (.act (.act (.act (.act (.act (.act (.act
      (.act (.act (.act (.act (.act .refl)))))))))))))))))), by decide⟩
  obtain ⟨as, e, hleads, hlength⟩ := hleads
  let ps (_ : Fin 1) : Program (mpiPetsc 1 fun _ _ _ => True) (KspAction ℤ) Error GenerationState :=
    generate 32 false setUpFails ⟨false, true⟩ ⟨[], false⟩ 0 (.csr oneRow)
  have hreach := hleads.reach (show start ps 0 = ⟨.run (ps 0), [], []⟩ from rfl)
  obtain ⟨hallowed, hraise, -⟩ := generate_owned rfl rfl hreach
  refine ⟨_, hreach, ⟨e, by simp⟩, by simp [hlength], hallowed, hraise e (by simp)⟩

end GinkgoTpl.Petsc
