import GinkgoTpl.Petsc.GenerateAlike
import GinkgoTpl.Petsc.GenerateOwned
import GinkgoTpl.Spmd.Causality

/-!
# The phases of a generation of a Ksp

`get_import_time` and `get_setup_time` are differences of clock readings that a rank makes behind
barriers. In every interleaving and with any times of the steps, a rank reads the end of its import
phase no earlier than any rank has taken the last action of its own import, and the end of its
setup phase no earlier than any rank's `KSPSetUp` has returned: `phases_ordered`. So the import
time includes waiting for the slowest rank.
-/

namespace GinkgoTpl.Petsc

open Sparse Ginkgo Spmd

variable {P : ℕ} {V : Type} {needs : PetscOp → Fin P → Fin P → Prop}
  {answers : GenerateAnswers} {A ε β : Type} {r : Fin P}

/-! ## What a rank does when its calls succeed -/

/-- The rounds of some collective calls. -/
def roundsOf (needs : PetscOp → Fin P → Fin P → Prop) (calls : List GenerateCall) :
    List (Round (mpiPetsc P needs)) := calls.map fun call => ⟨.inr (.call call), fun _ => ()⟩

section
variable {s : GenerationState}
  {q : Program (mpiPetsc P needs) (KspAction V) (Error × GenerationState) β}
  {Rs : List (Round (mpiPetsc P needs))} {as : List (KspAction V)}

/-- The ranks meet in a collective call of PETSc. -/
theorem leads_petscCollective {A ε : Type} {op : PetscOp}
    {f : Unit → Program (mpiPetsc P needs) A ε β} {Rs : List (Round (mpiPetsc P needs))}
    {as : List A} {q : Program (mpiPetsc P needs) A ε β} (h : Leads r (f ()) Rs as q) :
    Leads r (petscCollective .matrix op >>= f) (⟨.inr op, fun _ => ()⟩ :: Rs) as q :=
  Leads.call (C := mpiPetsc P needs) (R := ⟨.inr op, fun _ => ()⟩) (k := f) h

/-- A collective call that succeeds. -/
theorem leads_checkedCall (hcode : ∀ call, answers.code call = 0) (hcomm : s.comm = .matrix)
    {call : GenerateCall} (hcall : call.isCollective) {handed : Handed V}
    {calls : List GenerateCall}
    {f : Unit → Program (mpiPetsc P needs) (KspAction V) (Error × GenerationState) β}
    (h : Leads r (f ()) (roundsOf needs calls ++ Rs) as q) :
    Leads r (checkedCall answers s call handed >>= f) (roundsOf needs (call :: calls) ++ Rs)
      (.petsc call handed :: as) q := by
  simp only [checkedCall, Program.bind_assoc, hcomm, throwing_ofExcept, hcode, enterCall, hcall,
    if_true]
  exact leads_petscCollective (.act h)

/-- A local call that succeeds. -/
theorem leads_localCall (hcode : ∀ call, answers.code call = 0) {call : GenerateCall}
    (hcall : call.isCollective = false) {handed : Handed V}
    {f : Unit → Program (mpiPetsc P needs) (KspAction V) (Error × GenerationState) β}
    (h : Leads r (f ()) Rs as q) : Leads r (checkedCall answers s call handed >>= f) Rs
      (.petsc call handed :: as) q := by
  simp only [checkedCall, Program.bind_assoc, throwing_ofExcept, hcode, enterCall, hcall,
    Bool.false_eq_true, if_false]
  exact .act h

theorem leads_barrier {A ε : Type} {k : Unit → Program (mpiPetsc P needs) A ε β}
    {Rs : List (Round (mpiPetsc P needs))} {as : List A} {q : Program (mpiPetsc P needs) A ε β}
    (h : Leads r (k ()) Rs as q) :
    Leads r (.call (C := mpiPetsc P needs) (.inl .barrier) () k)
      (⟨.inl .barrier, fun _ => ()⟩ :: Rs) as q :=
  Leads.call (C := mpiPetsc P needs) (R := ⟨.inl .barrier, fun _ => ()⟩) (k := k) h

/-- What a rank does in `createMat`. -/
def matLog (device : Bool) (coo : CooData V) : List (KspAction V) :=
  [.petsc .matCreate .nothing, .petsc .matSetSizes (.sizes coo.numLocalRows),
    .petsc .matSetType (.type device), .petsc .matSetPreallocationCoo (.indices coo.rows coo.cols),
    .petsc .matSetValuesCoo (.values coo.values)]

/-- What a rank does in `createKsp`. -/
def kspLog (kspType options : Chars) (id : ℕ) : List (KspAction V) :=
  [.petsc .kspCreate .nothing, .petsc .kspSetOperators .nothing,
    .petsc .optionsInsertString (.text (cStr (prefixOptions options (instancePrefix id)))),
    .petsc .kspSetOptionsPrefix (.text (instancePrefix id)), .petsc .kspSetFromOptions .nothing,
    .petsc .kspGetType .nothing] ++
  (if kspType ≠ "preonly".toList then [.petsc .kspSetInitialGuessNonzero .nothing] else []) ++
  [.petsc .matCreateVecs .nothing]

/-- What a rank does before the barrier at the end of a phase. -/
def waitLog (deviceVectors : Bool) (phaseEnd : Clock) : List (KspAction V) :=
  if deviceVectors then [.petsc (.deviceContextGetCurrentContext phaseEnd) .nothing,
    .petsc (.deviceContextSynchronize phaseEnd) .nothing] else []

theorem leads_createMat (hcode : ∀ call, answers.code call = 0) (hcomm : s.comm = .matrix)
    {device : Bool} {coo : CooData V}
    {f : GenerationState → Program (mpiPetsc P needs) (KspAction V) (Error × GenerationState) β}
    (h : Leads r (f { s with mat := true, deviceVectors := device }) Rs as q) :
    Leads r (createMat answers device coo s >>= f)
      (roundsOf needs [.matCreate, .matSetSizes, .matSetType, .matSetPreallocationCoo,
        .matSetValuesCoo] ++ Rs) (matLog device coo ++ as) q := by
  simp only [createMat, Program.bind_assoc, Program.pure_eq, Program.ret_bind]
  refine leads_checkedCall hcode hcomm rfl (leads_checkedCall hcode ?_ rfl
    (leads_checkedCall hcode ?_ rfl (leads_checkedCall hcode ?_ rfl
      (leads_checkedCall hcode ?_ rfl h))))
  all_goals exact hcomm

/-- Whether the initial guess is set does not change the rounds, since that call is local. -/
theorem leads_createKsp (hcode : ∀ call, answers.code call = 0) (hcomm : s.comm = .matrix)
    {options : Chars} {id : ℕ}
    {f : GenerationState → Program (mpiPetsc P needs) (KspAction V) (Error × GenerationState) β}
    (h : Leads r (f { s with ksp := true, x := true, b := true }) Rs as q) :
    Leads r (createKsp answers options id s >>= f)
      (roundsOf needs [.kspCreate, .kspSetOperators, .kspSetFromOptions, .matCreateVecs] ++ Rs)
      (kspLog answers.kspType options id ++ as) q := by
  simp only [createKsp, Program.bind_assoc, Program.pure_eq, Program.ret_bind, kspLog,
    setInitialGuess]
  have hvecs : Leads r (checkedCall answers { s with ksp := true } .matCreateVecs .nothing >>=
      fun _ => f { s with ksp := true, x := true, b := true })
      (roundsOf needs [.matCreateVecs] ++ Rs) (.petsc .matCreateVecs .nothing :: as) q := by
    refine leads_checkedCall hcode ?_ rfl h
    exact hcomm
  refine leads_checkedCall hcode hcomm rfl (leads_checkedCall hcode ?_ rfl
    (leads_localCall hcode rfl (leads_localCall hcode rfl (leads_checkedCall hcode ?_ rfl
      (leads_localCall hcode rfl ?_)))))
  · exact hcomm
  · exact hcomm
  split
  · exact leads_localCall hcode rfl hvecs
  · exact hvecs

theorem leads_waitForDevice (hcode : ∀ call, answers.code call = 0) {clock : Clock}
    {f : Unit → Program (mpiPetsc P needs) (KspAction V) (Error × GenerationState) β}
    (h : Leads r (f ()) Rs as q) : Leads r (waitForDevice answers s clock >>= f) Rs
      (waitLog s.deviceVectors clock ++ as) q := by
  simp only [waitForDevice, waitLog]
  split
  · rw [Program.bind_assoc]
    exact leads_localCall hcode rfl (leads_localCall hcode rfl h)
  · exact h

end

/-! ## The constructor up to its barriers -/

section
variable [Inhabited V] {bits : ℕ} {cudaBuild cuda : Bool} {process : PetscProcess}
  {factory : KspFactory} {id : ℕ} {M : DistMatrix P V}

/-- The triplets of rank `r`. -/
def rankCoo (M : DistMatrix P V) (r : Fin P) : CooData V :=
  CooData.append ⟨.matrix, true, (M.rank r).diag.csr.numRows, [], [], []⟩
    (rankTriplets (M.rank r) (M.rowPart.start r))

/-- What a rank does in the import phase. -/
def importLog (device : Bool) (coo : CooData V) (kspType options : Chars) (id : ℕ) :
    List (KspAction V) :=
  .readClock .importStart :: (matLog device coo ++ (kspLog kspType options id ++
    (waitLog device .setupStart ++ [])))

/-- What a rank does in the setup phase. -/
def setupLog (V : Type) (device : Bool) : List (KspAction V) :=
  .readClock .setupStart :: .petsc .kspSetUp .nothing :: (waitLog device .setupEnd ++ [])

/-- The rounds of the import phase: the scan, and the collective calls of PETSc. -/
def importRounds (needs : PetscOp → Fin P → Fin P → Prop) (M : DistMatrix P V) :
    List (Round (mpiPetsc P needs)) :=
  Round.inl ⟨MpiOp.scan, fun s => (M.rowPart.partSize s : ℤ)⟩ ::
    (roundsOf needs [.matCreate, .matSetSizes, .matSetType, .matSetPreallocationCoo,
      .matSetValuesCoo] ++
    (roundsOf needs [.kspCreate, .kspSetOperators, .kspSetFromOptions, .matCreateVecs] ++ []))

/-- The state at the end of the import phase. -/
def importedState (device : Bool) (coo : CooData V) : GenerationState :=
  ⟨⟨coo.comm, coo.distributed, device, coo.numLocalRows, 0, 0, 0⟩, true, true, true, true⟩

theorem leads_importCoo {A : Type} (hord : M.rowPart.hasOrderedParts) (hfits : IntFits bits M.n)
    (r : Fin P) : Leads (A := A) r (importCoo bits (.distributed (M.rank r)))
      [⟨MpiOp.scan, fun s => (M.rowPart.partSize s : ℤ)⟩] [] (.ret (rankCoo M r)) := by
  obtain ⟨coos, Rs, as, hcoos⟩ := buildDistributedCoo_returns A M hord hfits
  obtain ⟨-, rfl, hcoo⟩ := buildDistributedCoo_cooFromRow hcoos r
  have hlog : as r = [] := by
    have hwp : (importCoo bits (.distributed (M.rank r))).Wp ⟨fun _ (_ : A) => False, fun s _ => s⟩
      () fun _ t => t = () := wp_importCoo
    have hallowed := ((hcoos r).wp hwp).1
    cases has : as r with
    | nil => rfl
    | cons => exact (has ▸ hallowed).1.elim
  have hret : coos r = rankCoo M r := (cooFromRow_eq_ok.mp hcoo).2.2
  exact hret ▸ hlog ▸ hcoos r

/-- What follows the barrier at the end of the import phase. -/
def afterImport (answers : GenerateAnswers) (state : GenerationState) :
    Program (mpiPetsc P needs) (KspAction V) (Error × GenerationState) GenerationState := do
  Program.perform (.readClock .setupStart)
  checkedCall answers state .kspSetUp .nothing
  endOfPhase answers state .setupEnd
  return state

/-- The constructor's body comes to the barrier at the end of the import phase. -/
theorem leads_generateBody (hcode : ∀ call, answers.code call = 0)
    (himport : Importable bits process M) (hn : M.n < 2 ^ 63) (hcuda : factory.cudaExecutor = cuda)
    (r : Fin P) :
    Leads r (generateBody bits cudaBuild answers process factory id (.distributed (M.rank r)))
      (importRounds needs M)
      (importLog (cudaBuild && cuda) (rankCoo M r) answers.kspType factory.options id)
      (.call (.inl .barrier) () fun _ =>
        afterImport answers (importedState (cudaBuild && cuda) (rankCoo M r))) := by
  have hcheck : checkSystemMatrix bits process.petscInitialized (.distributed (M.rank r)) =
      .ok () := by
    rw [himport.initialized, checkSystemMatrix_distributed hn,
      toPetscInt_eq_ok.mpr ⟨himport.fits, rfl⟩]
    rfl
  have hcoo := ((leads_importCoo (A := KspAction V) himport.ordered himport.fits r).inl
    (D := petsc P needs)).mapError_ret (·, GenerationState.new)
  simp only [generateBody, afterImport, hcheck, Program.perform_bind, hcuda, endOfPhase,
    Program.bind_assoc]
  refine .act (hcoo.seq ?_)
  refine leads_createMat hcode rfl (leads_createKsp hcode rfl (leads_waitForDevice hcode ?_))
  exact .refl

omit [Inhabited V] in
/-- From there it comes to the barrier at the end of the setup phase. -/
theorem leads_afterImport (hcode : ∀ call, answers.code call = 0) {state : GenerationState}
    (hcomm : state.comm = .matrix) :
    Leads r (afterImport answers state : Program (mpiPetsc P needs) (KspAction V) _ _)
      (roundsOf needs [.kspSetUp] ++ []) (setupLog V state.deviceVectors)
      (.call (.inl .barrier) () fun _ => .act (.readClock .setupEnd) (.ret state)) := by
  simp only [afterImport, endOfPhase, Program.bind_assoc, Program.perform_bind, hcomm]
  refine .act (leads_checkedCall hcode hcomm rfl (leads_waitForDevice hcode ?_))
  exact .refl

end

/-! ## All ranks -/

section
variable [Inhabited V] {bits : ℕ} {cudaBuild cuda : Bool} {process : PetscProcess}
  {answers : Fin P → GenerateAnswers} {factory : Fin P → KspFactory} {id : Fin P → ℕ}
  {M : DistMatrix P V}

/-- All calls of PETSc succeed, and the executors are alike. -/
structure Succeeds (cuda : Bool) (answers : Fin P → GenerateAnswers)
    (factory : Fin P → KspFactory) : Prop where
  code : ∀ r call, (answers r).code call = 0
  cuda : ∀ r, (factory r).cudaExecutor = cuda

/-- What rank `r` does before the first barrier. -/
def importActions (device : Bool) (answers : Fin P → GenerateAnswers) (factory : Fin P → KspFactory)
    (id : Fin P → ℕ) (M : DistMatrix P V) (r : Fin P) : List (KspAction V) :=
  importLog device (rankCoo M r) (answers r).kspType (factory r).options (id r)

omit [Inhabited V] in
theorem leads_destroying {r : Fin P}
    {body body' : Program (mpiPetsc P needs) (KspAction V) _ GenerationState}
    {Rs : List (Round (mpiPetsc P needs))} {as : List (KspAction V)}
    (h : Leads r body Rs as body') :
    Leads r (destroying process body) Rs as (destroying process body') :=
  h.attempt.bind

/-- All ranks come to the barrier at the end of the import phase. -/
theorem together_importEnd (needs : PetscOp → Fin P → Fin P → Prop) (cudaBuild : Bool)
    (id : Fin P → ℕ) (h : Succeeds cuda answers factory) (himport : Importable bits process M)
    (hn : M.n < 2 ^ 63) :
    Together (fun r => generate bits cudaBuild (answers r) process (factory r) (id r)
      (.distributed (M.rank r))) (importRounds needs M)
      (importActions (cudaBuild && cuda) answers factory id M)
      fun r => .call (C := mpiPetsc P needs) (.inl .barrier) () fun _ => destroying process
        (afterImport (answers r) (importedState (cudaBuild && cuda) (rankCoo M r))) :=
  fun r => leads_destroying (leads_generateBody (h.code r) himport hn (h.cuda r) r)

/-- What rank `r` does before the second barrier. -/
def setupActions (device : Bool) (answers : Fin P → GenerateAnswers) (factory : Fin P → KspFactory)
    (id : Fin P → ℕ) (M : DistMatrix P V) (r : Fin P) : List (KspAction V) :=
  importActions device answers factory id M r ++ setupLog V device

/-- The rounds before the second barrier. -/
def setupRounds (needs : PetscOp → Fin P → Fin P → Prop) (M : DistMatrix P V) :
    List (Round (mpiPetsc P needs)) :=
  importRounds needs M ++ (⟨.inl .barrier, fun _ => ()⟩ :: (roundsOf needs [.kspSetUp] ++ []))

/-- All ranks come to the barrier at the end of the setup phase, and return from there. -/
theorem together_setupEnd (needs : PetscOp → Fin P → Fin P → Prop) (cudaBuild : Bool)
    (id : Fin P → ℕ) (h : Succeeds cuda answers factory) (himport : Importable bits process M)
    (hn : M.n < 2 ^ 63) :
    Together (fun r => generate bits cudaBuild (answers r) process (factory r) (id r)
      (.distributed (M.rank r))) (setupRounds needs M)
      (setupActions (cudaBuild && cuda) answers factory id M)
      fun r => .call (C := mpiPetsc P needs) (.inl .barrier) () fun _ =>
        .act (.readClock .setupEnd) (.ret (importedState (cudaBuild && cuda) (rankCoo M r))) := by
  intro r
  refine (together_importEnd needs cudaBuild id h himport hn r).trans
    (leads_barrier ?_)
  let state := importedState (cudaBuild && cuda) (rankCoo M r)
  have hsetup : Leads r (afterImport (answers r) state :
      Program (mpiPetsc P needs) (KspAction V) _ _) _ _ _ := leads_afterImport (h.code r) rfl
  exact leads_destroying hsetup

/-- All ranks return. -/
theorem together_generate (needs : PetscOp → Fin P → Fin P → Prop) (cudaBuild : Bool)
    (id : Fin P → ℕ) (h : Succeeds cuda answers factory) (himport : Importable bits process M)
    (hn : M.n < 2 ^ 63) :
    Together (fun r => generate bits cudaBuild (answers r) process (factory r) (id r)
      (.distributed (M.rank r))) (setupRounds needs M ++ [⟨.inl .barrier, fun _ => ()⟩])
      (fun r => setupActions (cudaBuild && cuda) answers factory id M r ++ [.readClock .setupEnd])
      fun r => .ret (importedState (cudaBuild && cuda) (rankCoo M r)) :=
  fun r => (together_setupEnd needs cudaBuild id h himport hn r).trans
    (leads_barrier (.act .refl))

omit [Inhabited V] in
/-- The clock is read once in the import phase. -/
theorem readClock_mem_importLog {device : Bool} {coo : CooData V} {kspType options : Chars}
    {id : ℕ} {c : Clock} (h : .readClock c ∈ importLog device coo kspType options id) :
    c = .importStart := by
  unfold importLog matLog kspLog waitLog at h
  split at h <;> split at h <;> simpa using h

omit [Inhabited V] in
theorem readClock_mem_setupLog {device : Bool} {c : Clock} (h : .readClock c ∈ setupLog V device) :
    c = .setupStart := by
  unfold setupLog waitLog at h
  split at h <;> simpa using h

/-- If all calls succeed, then in every interleaving and at any times: when a rank reads the end
of its import phase, every rank has taken all actions of its import, and none later; and when it
reads the end of its setup phase, the same holds of all actions of import and setup. -/
theorem phases_ordered (h : Succeeds cuda answers factory) (himport : Importable bits process M)
    (hn : M.n < 2 ^ 63) {T : Type} [Preorder T] {t₀ t' : T}
    {x : TimedState (mpiPetsc P needs) (KspAction V) Error GenerationState T}
    (hx : TimedReach (.start (fun r => generate bits cudaBuild (answers r) process (factory r)
      (id r) (.distributed (M.rank r))) t₀) x) (r s : Fin P) :
    (x.At r (.readClock .setupStart) t' →
      ∀ a ∈ importActions (cudaBuild && cuda) answers factory id M s, ∃ t, x.At s a t ∧ t ≤ t') ∧
    (x.At r (.readClock .setupEnd) t' →
      ∀ a ∈ setupActions (cudaBuild && cuda) answers factory id M s, ∃ t, x.At s a t ∧ t ≤ t') := by
  have himportEnd := together_importEnd needs cudaBuild id h himport hn
  have hsetupEnd := together_setupEnd needs cudaBuild id h himport hn
  constructor
  · intro hr a ha
    refine himportEnd.at_le hx trivial hr (fun hmem => ?_) ha
    exact absurd (readClock_mem_importLog hmem) (by decide)
  · intro hr a ha
    refine hsetupEnd.at_le hx trivial hr (fun hmem => ?_) ha
    rcases List.mem_append.mp hmem with hmem | hmem
    · exact absurd (readClock_mem_importLog hmem) (by decide)
    · exact absurd (readClock_mem_setupLog hmem) (by decide)

end

/-! ## Two ranks -/

theorem succeeds_succeeding : Succeeds false (fun _ : Fin 2 => succeeding) fun _ => ⟨[], false⟩ :=
  ⟨fun _ _ => rfl, fun _ => rfl⟩

/-- The two ranks generate their solvers, and each reads the end of its setup when both are through
with `KSPSetUp`. -/
theorem phases_ordered_two : ∃ (x : TimedState (mpiPetsc 2 fun _ _ _ => True) (KspAction ℤ) Error
      GenerationState ℕ) (t' : ℕ), (∀ r, x.state.Done r) ∧ x.At 0 (.readClock .setupEnd) t' ∧
    ∃ t, x.At 1 (.petsc .kspSetUp .nothing) t ∧ t ≤ t' := by
  have htogether := together_generate (fun _ _ _ => True) false (fun _ => 0) succeeds_succeeding
    importable_twoRows (by decide)
  obtain ⟨x, hx, hstate, -⟩ := Reach.timed (htogether.reach_end (fun _ => []) (fun _ => [])
    fun _ => rfl) 0
  have hlog : ∃ l : List (KspAction ℤ), (x.state 0).log = l ++ [.readClock .setupEnd] :=
    ⟨_, by rw [hstate]; exact (List.append_assoc ..).symm⟩
  obtain ⟨l, hl⟩ := hlog
  have hlt : l.length < (x.stamps 0).length := by
    rw [(TimedReach.stamped hx).length, hl]
    simp
  have hat : x.At 0 (.readClock .setupEnd) (x.stamps 0)[l.length] :=
    ⟨l.length, by simp [hl], List.getElem?_eq_getElem hlt⟩
  refine ⟨x, _, fun r => ⟨_, by rw [hstate], .ret⟩, hat, ?_⟩
  refine (phases_ordered succeeds_succeeding importable_twoRows (by decide) hx 0 1).2 hat _ ?_
  simp [setupActions, setupLog]

end GinkgoTpl.Petsc
