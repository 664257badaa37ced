import GinkgoTpl.Environment
import GinkgoTpl.Memory.SharedPtr
import GinkgoTpl.Petsc.GenerateOwned

/-!
# Ksp objects and the lifetime of PETSc

Ksp objects share a `state` by a `std::shared_ptr`, and the one that gives up the last pointer runs
`~state`, at any time: PETSc or MPI may be finalized by then, and PETSc may even have been
initialized again. Whatever the order of all this, nothing is done to PETSc outside its lifetime,
and its objects are released at most once (`ksp_kept`). If PETSc and MPI are finalized only when
no Ksp has a state, as the documentation of the class asks, everything is released, and in the
lifetime of PETSc in which it was made (`ksp_released`).
-/

namespace GinkgoTpl.Petsc

open Memory Sparse Spmd Transition

variable {P : ℕ} {V : Type} [Inhabited V] {needs : PetscOp → Fin P → Fin P → Prop}

/-! ## Processes -/

inductive ProcessEvent where
  | constructEnvironment (codes : ℤ × ℤ)
  | destroyEnvironment (env : Environment)
  | initializeByApplication
  | finalizeByApplication
  | mpiInit
  | mpiFinalize

inductive ProcessStep : Process → ProcessEvent → Process → Prop
  | constructEnvironment {p codes result p'} : environment codes p = (result, p') →
    ProcessStep p (.constructEnvironment codes) p'
  | destroyEnvironment {p env} :
    ProcessStep p (.destroyEnvironment env) (environment.destroy env p)
  | initializeByApplication {p} : p.library ≠ .initialized →
    ProcessStep p .initializeByApplication p.initializeLibrary
  | finalizeByApplication {p} : p.library = .initialized →
    ProcessStep p .finalizeByApplication p.finalizeLibrary
  | mpiInit {p} : p.mpi = .notInitialized → ProcessStep p .mpiInit { p with mpi := .running }
  | mpiFinalize {p} : p.mpi = .running →
    ProcessStep p .mpiFinalize { p with mpi := .finalized }

/-- What a constructor or destructor is told of the process. -/
def PetscProcess.of (p : Process) : PetscProcess := ⟨p.mpiFinalized, p.libraryInitialized⟩

/-- PETSc is initialized, and MPI is not finalized. -/
def MayCallPetsc (p : Process) : Prop := p.mpi ≠ .finalized ∧ p.library = .initialized

/-- The lifetimes of PETSc are numbered by its initializations. -/
def lifetime (p : Process) : ℕ := p.calls.count .initializes

/-! ## Ksp objects -/

/-- What a constructor of `Ksp` leaves: the shared state unless it throws, and what has been done
to PETSc for it, each action with the process at that time. -/
structure Owner (V : Type) where
  state : Option GenerationState
  born : Process
  died : Option Process
  log : List (KspAction V × Process)

/-- The objects of a process are the pointers to their states, which are numbered. -/
structure KspJob (V : Type) where
  process : Process
  pointers : SharedPtrs
  owners : List (Owner V)

inductive KspEvent where
  | process (e : ProcessEvent)
  | generate
  /-- A copy, a move or a destruction. -/
  | objects (op : PtrOp)

/-- The operations on rank `r`. MPI is not finalized when a solver is generated. -/
inductive KspStep (bits : ℕ) (cudaBuild : Bool) (needs : PetscOp → Fin P → Fin P → Prop)
    (r : Fin P) : KspJob V → KspEvent → KspJob V → Prop
  | process {p e p' w owners} : ProcessStep p e p' →
    KspStep bits cudaBuild needs r ⟨p, w, owners⟩ (.process e) ⟨p', w, owners⟩
  | generate {p w owners answers factory id} {systemMatrix : SystemMatrix P V} {s Rs as} :
    p.mpi ≠ .finalized →
    Leads (C := mpiPetsc P needs) r
      (generate bits cudaBuild answers (.of p) factory id systemMatrix) Rs as (.ret s) →
    KspStep bits cudaBuild needs r ⟨p, w, owners⟩ .generate
      ⟨p, w.make owners.length, owners ++ [⟨some s, p, none, as.map (·, p)⟩]⟩
  | throws {p w owners answers factory id} {systemMatrix : SystemMatrix P V} {e Rs as} :
    p.mpi ≠ .finalized →
    Leads (C := mpiPetsc P needs) r
      (generate bits cudaBuild answers (.of p) factory id systemMatrix) Rs as (.raise e) →
    KspStep bits cudaBuild needs r ⟨p, w, owners⟩ .generate
      ⟨p, w, owners ++ [⟨none, p, some p, as.map (·, p)⟩]⟩
  | objects {p owners op} {w w' : SharedPtrs} : op.Valid w → op.perform w = (w', none) →
    KspStep bits cudaBuild needs r ⟨p, w, owners⟩ (.objects op) ⟨p, w', owners⟩
  | lastPointer {p owners op k born log s Rs as} {w w' : SharedPtrs} : op.Valid w →
    op.perform w = (w', some k) → owners[k]? = some ⟨some s, born, none, log⟩ →
    Leads (C := mpiPetsc P needs) (ε := Error) r (destroyState (.of p) s) Rs as (.ret ()) →
    KspStep bits cudaBuild needs r ⟨p, w, owners⟩ (.objects op)
      ⟨p, w', owners.set k ⟨some s, born, some p, log ++ as.map (·, p)⟩⟩

/-- The PETSc objects that are left of what was made for a state. -/
def Owner.left (o : Owner V) : Live := (kspEffects V).after (fun _ => false) (o.log.map Prod.fst)

/-! ## Every object is released at most once -/

/-- What the pointers guarantee for the state with number `k`. -/
structure Owner.Kept (w : SharedPtrs) (k : ℕ) (o : Owner V) : Prop where
  /-- No object is used before it is made or after it is released. -/
  order : (kspEffects V).Allowed (fun _ => false) (o.log.map Prod.fst)
  lawful : ∀ t ∈ o.log, MayCallPetsc t.2
  pointsTo : w.PointsTo k ↔ o.died = none
  /-- While there is a pointer to it, all its objects are there. -/
  alive : o.died = none → ∃ s, o.state = some s ∧ o.left = s.owned ∧ ∀ object, s.owned object
  released : ∀ p, o.died = some p → MayCallPetsc p ∨ o.state = none → o.left = fun _ => false
  /-- What is not released is left to the end of the process. -/
  leaked : ∀ p, o.died = some p → ¬ MayCallPetsc p → o.state.isSome → o.left = fun _ => true

section
variable {bits : ℕ} {cudaBuild : Bool} {r : Fin P} {p p' : Process} {w w' : SharedPtrs} {k : ℕ}
  {o : Owner V} {j j' : KspJob V} {e : KspEvent} {s : GenerationState}
  {Rs : List (Round (mpiPetsc P needs))} {as : List (KspAction V)}

theorem getElem?_append_singleton {α : Type} {l : List α} {a b : α}
    (h : (l ++ [a])[k]? = some b) : l[k]? = some b ∨ k = l.length ∧ a = b := by
  rw [List.getElem?_append] at h
  split at h
  · exact .inl h
  · obtain ⟨hlt, rfl⟩ := List.getElem?_eq_some_iff.mp h
    rw [List.length_singleton] at hlt
    exact .inr ⟨by omega, by simp⟩

omit [Inhabited V] in
theorem Owner.Kept.congr (h : o.Kept w k) (hw : w'.PointsTo k ↔ w.PointsTo k) : o.Kept w' k :=
  { h with pointsTo := hw.trans h.pointsTo }

/-- Without PETSc the constructor throws and does nothing. -/
theorem leads_generate_not_initialized {answers : GenerateAnswers} {factory : KspFactory} {id : ℕ}
    {systemMatrix : SystemMatrix P V}
    {q : Program (mpiPetsc P needs) (KspAction V) Error GenerationState}
    (hinit : p.library ≠ .initialized)
    (h : Leads r (generate bits cudaBuild answers (.of p) factory id systemMatrix) Rs as q) :
    as = [] ∧ ∃ err, q = .raise err := by
  have hof : (PetscProcess.of p).petscInitialized = false := by
    simp [PetscProcess.of, Process.libraryInitialized, hinit]
  simp only [generate, destroying, generateBody, checkSystemMatrix, hof, Bool.not_false, if_true,
    destroyState, or_true] at h
  obtain ⟨-, has, hq⟩ := h.eq_of_final .raise
  exact ⟨has, _, hq⟩

/-- A generation acts in the lifetime of PETSc only. -/
theorem generate_lawful {answers : GenerateAnswers} {factory : KspFactory} {id : ℕ}
    {systemMatrix : SystemMatrix P V}
    {q : Program (mpiPetsc P needs) (KspAction V) Error GenerationState} (hmpi : p.mpi ≠ .finalized)
    (h : Leads r (generate bits cudaBuild answers (.of p) factory id systemMatrix) Rs as q) :
    ∀ t ∈ as.map (·, p), MayCallPetsc t.2 := by
  by_cases hinit : p.library = .initialized
  · exact List.forall_mem_map.mpr fun _ _ => ⟨hmpi, hinit⟩
  · rw [(leads_generate_not_initialized hinit h).1]
    exact nofun

omit [Inhabited V] in
/-- `~state` releases everything that the state owns, or nothing. -/
theorem leads_destroyState (h : Leads (ε := Error) r (destroyState (.of p) s) Rs as (.ret ())) :
    (¬ MayCallPetsc p ∧ as = []) ∨
      MayCallPetsc p ∧ (kspEffects V).Allowed s.owned as ∧
        (kspEffects V).after s.owned as = fun _ => false := by
  by_cases hp : MayCallPetsc p
  · refine .inr ⟨hp, ?_⟩
    have hrelease : (destroyState (.of p) s : Program (mpiPetsc P needs) (KspAction V) Error
        Unit).Wp (kspEffects V) s.owned fun _ live => live = fun _ => false := by
      have hwp : (destroyState (.of p) s >>= .ret : Program (mpiPetsc P needs) (KspAction V) Error
          Unit).Wp (kspEffects V) s.owned fun _ live => live = fun _ => false :=
        wp_destroyState (by simp [PetscProcess.of, Process.mpiFinalized, hp.1])
          (by simp [PetscProcess.of, Process.libraryInitialized, hp.2]) rfl
      refine (Program.wp_bind.mp hwp).mono ?_
      rintro (_ | _) live hlive
      · exact hlive
      · exact hlive
    exact h.wp hrelease
  · refine .inl ⟨hp, ?_⟩
    have hnone : (destroyState (.of p) s : Program (mpiPetsc P needs) (KspAction V) Error Unit) =
        .ret () := by
      rw [destroyState, if_pos]
      by_contra hn
      simp only [PetscProcess.of, Process.mpiFinalized, Process.libraryInitialized, not_or] at hn
      exact hp (by simpa [MayCallPetsc] using hn)
    rw [hnone] at h
    exact (h.eq_of_final .ret).2.1

/-- What a generated solver guarantees. -/
theorem kept_generate {answers : GenerateAnswers} {factory : KspFactory} {id : ℕ}
    {systemMatrix : SystemMatrix P V} (hmpi : p.mpi ≠ .finalized)
    (h : Leads (C := mpiPetsc P needs) r
      (generate bits cudaBuild answers (.of p) factory id systemMatrix) Rs as (.ret s))
    (hk : w.PointsTo k) : (⟨some s, p, none, as.map (·, p)⟩ : Owner V).Kept w k := by
  have hlog : (as.map (·, p)).map Prod.fst = as := by simp [Function.comp_def]
  obtain ⟨horder, hleft⟩ := h.wp (wp_generate (by simp [PetscProcess.of, Process.mpiFinalized,
    hmpi]))
  exact
    { order := by rwa [hlog]
      lawful := generate_lawful hmpi h
      pointsTo := iff_of_true hk rfl
      alive := fun _ => ⟨s, rfl, by rw [Owner.left, hlog]; exact hleft.1, hleft.2⟩
      released := fun _ h => by cases h
      leaked := fun _ h => by cases h }

/-- A constructor that throws leaves nothing. -/
theorem kept_throws {answers : GenerateAnswers} {factory : KspFactory} {id : ℕ}
    {systemMatrix : SystemMatrix P V} {err : Error} (hmpi : p.mpi ≠ .finalized)
    (h : Leads (C := mpiPetsc P needs) r
      (generate bits cudaBuild answers (.of p) factory id systemMatrix) Rs as (.raise err))
    (hk : ¬ w.PointsTo k) : (⟨none, p, some p, as.map (·, p)⟩ : Owner V).Kept w k := by
  have hlog : (as.map (·, p)).map Prod.fst = as := by simp [Function.comp_def]
  obtain ⟨horder, hleft⟩ := h.wp (wp_generate (by simp [PetscProcess.of, Process.mpiFinalized,
    hmpi]))
  exact
    { order := by rwa [hlog]
      lawful := generate_lawful hmpi h
      pointsTo := iff_of_false hk (Option.some_ne_none p)
      alive := fun h => by cases h
      released := fun _ _ _ => by rw [Owner.left, hlog]; exact hleft
      leaked := fun _ _ _ hs => absurd hs (by simp) }

omit [Inhabited V] in
/-- `~state` after the last pointer is gone. -/
theorem Owner.Kept.lastPointer {born : Process} {log : List (KspAction V × Process)}
    (h : (⟨some s, born, none, log⟩ : Owner V).Kept w k)
    (hd : Leads (C := mpiPetsc P needs) (ε := Error) r (destroyState (.of p) s) Rs as (.ret ()))
    (hk : ¬ w'.PointsTo k) :
    (⟨some s, born, some p, log ++ as.map (·, p)⟩ : Owner V).Kept w' k := by
  obtain ⟨s', hs', hleft, hall⟩ := h.alive rfl
  cases hs'
  have hlog : (log ++ as.map (·, p)).map Prod.fst = log.map Prod.fst ++ as := by
    simp [Function.comp_def]
  have hlive : (kspEffects V).after (fun _ => false) (log.map Prod.fst) = s.owned := hleft
  rcases leads_destroyState hd with ⟨hp, rfl⟩ | ⟨hp, hallowed, hafter⟩
  · rw [List.map_nil, List.append_nil]
    exact
      { order := h.order
        lawful := h.lawful
        pointsTo := iff_of_false hk nofun
        alive := nofun
        released := by
          rintro _ ⟨⟩ (hp' | hs)
          · exact absurd hp' hp
          · cases hs
        leaked := fun _ _ _ _ => hleft.trans (funext hall) }
  · exact
      { order := by rw [hlog, Effects.allowed_append, hlive]; exact ⟨h.order, hallowed⟩
        lawful := List.forall_mem_append.mpr ⟨h.lawful, List.forall_mem_map.mpr fun _ _ => hp⟩
        pointsTo := iff_of_false hk nofun
        alive := nofun
        released := fun _ _ _ => by
          rw [Owner.left, hlog, Effects.after_append, hlive, hafter]
        leaked := by
          rintro _ ⟨⟩ hn
          exact absurd hp hn }

/-- The invariant of a process: the counts are right, and every state is kept. -/
structure KspJob.Kept (j : KspJob V) : Prop where
  counted : j.pointers.Counted
  bound : ∀ k, j.pointers.PointsTo k → k < j.owners.length
  kept : ∀ k (o : Owner V), j.owners[k]? = some o → o.Kept j.pointers k

theorem KspStep.kept (hstep : KspStep bits cudaBuild needs r j e j') (h : j.Kept) : j'.Kept := by
  -- the states made so far have other numbers than a new one
  have hlt : ∀ {k o}, j.owners[k]? = some o → k < j.owners.length := fun hk =>
    (List.getElem?_eq_some_iff.mp hk).1
  have hfresh : ¬ j.pointers.PointsTo j.owners.length := fun hk =>
    absurd (h.bound _ hk) (Nat.lt_irrefl _)
  cases hstep with
  | process => exact ⟨h.counted, h.bound, h.kept⟩
  | generate hmpi hl =>
    refine ⟨h.counted.make hfresh, fun k hk => ?_, fun k o hk => ?_⟩
    · rw [List.length_append, List.length_singleton]
      rcases SharedPtrs.make_pointsTo.mp hk with hk | rfl
      · exact Nat.lt_succ_of_lt (h.bound k hk)
      · exact Nat.lt_succ_self _
    · rcases getElem?_append_singleton hk with hk | ⟨rfl, rfl⟩
      · refine (h.kept k o hk).congr (SharedPtrs.make_pointsTo.trans (or_iff_left ?_))
        exact Nat.ne_of_lt (hlt hk)
      · exact kept_generate hmpi hl (SharedPtrs.make_pointsTo.mpr (.inr rfl))
  | throws hmpi hl =>
    refine ⟨h.counted, fun k hk => ?_, fun k o hk => ?_⟩
    · rw [List.length_append]
      exact Nat.lt_add_right _ (h.bound k hk)
    · rcases getElem?_append_singleton hk with hk | ⟨rfl, rfl⟩
      · exact h.kept k o hk
      · exact kept_throws hmpi hl hfresh
  | @objects p owners op w w' hop hperform =>
    have hdrops := PtrOp.perform_drops h.counted hop
    rw [hperform] at hdrops
    refine ⟨hdrops.counted, fun k hk => h.bound k (hdrops.pointsTo k hk), fun k o hk =>
      (h.kept k o hk).congr ⟨hdrops.pointsTo k, fun hw => ?_⟩⟩
    by_contra hn
    cases (hdrops.dropped k).mpr ⟨hw, hn⟩
  | @lastPointer p owners op k born log s Rs as w w' hop hperform hk hd =>
    have hdrops := PtrOp.perform_drops h.counted hop
    rw [hperform] at hdrops
    obtain ⟨-, hgone⟩ := (hdrops.dropped k).mp rfl
    refine ⟨hdrops.counted, fun k' hk' => ?_, fun k' o hk' => ?_⟩
    · rw [List.length_set]
      exact h.bound k' (hdrops.pointsTo k' hk')
    · by_cases hkk : k = k'
      · subst hkk
        rw [List.getElem?_set_self (hlt hk)] at hk'
        cases hk'
        exact (h.kept k _ hk).lastPointer hd hgone
      · rw [List.getElem?_set_ne hkk] at hk'
        refine (h.kept k' o hk').congr ⟨hdrops.pointsTo k', fun hw => ?_⟩
        by_contra hn
        exact hkk (Option.some.inj ((hdrops.dropped k').mpr ⟨hw, hn⟩))

omit [Inhabited V] in
/-- The job before any Ksp. -/
theorem KspJob.kept_new (p : Process) : (⟨p, .new, []⟩ : KspJob V).Kept :=
  ⟨SharedPtrs.new_counted, fun k hk => absurd hk List.not_mem_nil, fun _ _ hk => by cases hk⟩

/-- In every run of generations, copies, moves and destructions, with MPI, PETSc and environments
that come and go in any order, each PETSc object is used and released only while it is there and
PETSc and MPI are in their lifetime. An object has all of them while it has its state; when the
last pointer to a state is given up, they are released, unless PETSc or MPI is finalized. -/
theorem ksp_kept {tr : List (KspJob V × KspEvent × KspJob V)}
    (h : Run (KspStep bits cudaBuild needs r) ⟨p, .new, []⟩ tr j) (hk : j.owners[k]? = some o) :
    o.Kept j.pointers k :=
  (h.invariant (KspJob.kept_new p) fun _ _ _ _ hstep => hstep.kept).kept k o hk

end

/-! ## Solvers that PETSc outlives -/

/-- PETSc and MPI are not finalized while there is a pointer to a state. -/
def Outlives : KspJob V × KspEvent × KspJob V → Prop
  | (a, .process _, b) => MayCallPetsc a.process →
    MayCallPetsc b.process ∨ ∀ k, ¬ a.pointers.PointsTo k
  | _ => True

/-- What is done to PETSc for a state is done in one lifetime of it, and while there is a pointer to
the state, this is the present one. -/
structure Owner.InLifetime (p : Process) (o : Owner V) : Prop where
  log : ∀ t ∈ o.log, lifetime t.2 = lifetime o.born
  alive : o.died = none → MayCallPetsc p ∧ lifetime p = lifetime o.born
  died : ∀ p', o.died = some p' → MayCallPetsc p' ∨ o.state = none

section
variable {bits : ℕ} {cudaBuild : Bool} {r : Fin P} {p p' : Process} {k : ℕ} {o : Owner V}
  {j j' : KspJob V} {e : KspEvent}

/-- A process that stays in a lifetime of PETSc stays in the same one. -/
theorem ProcessStep.calls_eq {e : ProcessEvent} (h : ProcessStep p e p')
    (hp : p.library = .initialized) (hp' : p'.library = .initialized) : p'.calls = p.calls := by
  cases h with
  | @constructEnvironment codes _ _ hc =>
    rcases environmentClass_scoped.construct codes p with ⟨_, h1⟩ | ⟨_, h1⟩ | ⟨hn, _⟩
    · cases h1.symm.trans hc
      rfl
    · cases h1.symm.trans hc
      rfl
    · exact absurd hp hn
  | @destroyEnvironment env =>
    have hdestroy : environment.destroy env p = _ := environmentClass_scoped.destroy env p hp
    rw [hdestroy] at hp' ⊢
    split at hp'
    · cases hp'
    · rename_i hn
      rw [if_neg hn]
  | initializeByApplication hn => exact absurd hp hn
  | finalizeByApplication => cases hp'
  | mpiInit | mpiFinalize => rfl

/-- What `InLifetime` says of every state. -/
def KspJob.InLifetime (j : KspJob V) : Prop :=
  ∀ (k : ℕ) (o : Owner V), j.owners[k]? = some o → o.InLifetime j.process

theorem KspStep.inLifetime (hstep : KspStep bits cudaBuild needs r j e j')
    (hout : Outlives (j, e, j')) (hkept : j.Kept) (h : j.InLifetime) : j'.InLifetime := by
  have hat : ∀ {as : List (KspAction V)} {p : Process}, ∀ t ∈ as.map (·, p),
      lifetime t.2 = lifetime p := List.forall_mem_map.mpr fun _ _ => rfl
  cases hstep with
  | @process p e p' w owners hp =>
    intro k o hk
    refine { h k o hk with alive := fun hd => ?_ }
    obtain ⟨hmay, hsame⟩ := (h k o hk).alive hd
    have hmay' := (hout hmay).resolve_right fun hn => hn k ((hkept.kept k o hk).pointsTo.mpr hd)
    exact ⟨hmay', by rw [← hsame, lifetime, lifetime, hp.calls_eq hmay.2 hmay'.2]⟩
  | @generate p w owners answers factory id systemMatrix s Rs as hmpi hl =>
    intro k o hk
    rcases getElem?_append_singleton hk with hk | ⟨-, rfl⟩
    · exact h k o hk
    · refine ⟨hat, fun _ => ⟨⟨hmpi, ?_⟩, rfl⟩, nofun⟩
      by_contra hinit
      obtain ⟨-, err, herr⟩ := leads_generate_not_initialized hinit hl
      cases herr
  | throws hmpi hl =>
    intro k o hk
    rcases getElem?_append_singleton hk with hk | ⟨-, rfl⟩
    · exact h k o hk
    · exact ⟨hat, nofun, fun _ _ => .inr rfl⟩
  | objects => exact h
  | @lastPointer p owners op k born log s Rs as w w' hop hperform hk hd =>
    intro k' o hk'
    have hold := h k _ hk
    obtain ⟨hmay, hsame⟩ := hold.alive rfl
    by_cases hkk : k = k'
    · subst hkk
      rw [List.getElem?_set_self (List.getElem?_eq_some_iff.mp hk).1] at hk'
      cases hk'
      refine ⟨List.forall_mem_append.mpr ⟨hold.log, fun t ht => (hat t ht).trans hsame⟩, nofun, ?_⟩
      rintro _ ⟨⟩
      exact .inl hmay
    · rw [List.getElem?_set_ne hkk] at hk'
      exact h k' o hk'

/-- If PETSc and MPI are finalized only when no Ksp has a state, everything that is done to PETSc
for a state is done in the lifetime of PETSc in which it was made. This is the present one while
there is a pointer to the state, and its objects are there; then they are all released. -/
theorem ksp_released {tr : List (KspJob V × KspEvent × KspJob V)}
    (h : Run (KspStep bits cudaBuild needs r) ⟨p, .new, []⟩ tr j) (hout : ∀ t ∈ tr, Outlives t)
    (hk : j.owners[k]? = some o) :
    (∀ t ∈ o.log, MayCallPetsc t.2 ∧ lifetime t.2 = lifetime o.born) ∧
      (j.pointers.PointsTo k → MayCallPetsc j.process ∧ lifetime j.process = lifetime o.born ∧
        o.left = fun _ => true) ∧
      (¬ j.pointers.PointsTo k → o.left = fun _ => false) := by
  have h0 : (⟨p, .new, []⟩ : KspJob V).Kept ∧ (⟨p, .new, []⟩ : KspJob V).InLifetime :=
    ⟨KspJob.kept_new p, fun _ _ hk => by cases hk⟩
  have hstep : ∀ a e b, (a, e, b) ∈ tr → KspStep bits cudaBuild needs r a e b →
      a.Kept ∧ a.InLifetime → b.Kept ∧ b.InLifetime := fun a e b ht hstep ha =>
    ⟨hstep.kept ha.1, hstep.inLifetime (hout _ ht) ha.1 ha.2⟩
  obtain ⟨hall, hinv⟩ := h.invariant h0 hstep
  have hkept := hall.kept k o hk
  have hin := hinv k o hk
  refine ⟨fun t ht => ⟨hkept.lawful t ht, hin.log t ht⟩, fun hpoints => ?_, fun hgone => ?_⟩
  · have hd := hkept.pointsTo.mp hpoints
    obtain ⟨s, -, hleft, hall⟩ := hkept.alive hd
    obtain ⟨hmay, hsame⟩ := hin.alive hd
    exact ⟨hmay, hsame, hleft.trans (funext hall)⟩
  · obtain ⟨p', hp'⟩ := Option.ne_none_iff_exists'.mp fun hd => hgone (hkept.pointsTo.mpr hd)
    exact hkept.released p' hp' (hin.died p' hp')

end

/-! ## Two objects with one state -/

/-- The solver of a matrix with one row. -/
def oneRowSolver : GenerationState := ⟨⟨.self, false, false, 1, 0, 0, 0⟩, true, true, true, true⟩

/-- A call of PETSc answers that nothing has failed. -/
def nothingFails : GenerateAnswers := ⟨fun _ => 0, "cg".toList⟩

/-- The process after an environment has initialized PETSc. -/
def withPetsc : Process := ⟨.running, .initialized, [.initializes]⟩

/-- The same, after MPI has been finalized. -/
def afterMpi : Process := { withPetsc with mpi := .finalized }

/-- The pointers when there is only the copy. -/
def copyLeft : SharedPtrs :=
  ((PtrOp.destroy 0).perform ((PtrOp.copyConstruct 0).perform (.make .new 0)).1).1

/-- An environment, a solver for a matrix with one row, and a copy of it, from which the first
object is destroyed. -/
theorem run_copied : ∃ tr, ∃ as : List (KspAction ℤ),
    Run (KspStep 32 false (fun _ _ _ => True) (0 : Fin 1)) ⟨⟨.running, .never, []⟩, .new, []⟩ tr
      ⟨withPetsc, copyLeft, [⟨some oneRowSolver, withPetsc, none, as.map (·, withPetsc)⟩]⟩ ∧
    (∀ t ∈ tr, Outlives t) ∧ tr.length = 4 := by
  have hgenerate : ∃ as, Leads (C := mpiPetsc 1 fun _ _ _ => True) 0
      (generate 32 false nothingFails (.of withPetsc) ⟨[], false⟩ 0 (.csr oneRow)) [] as
      (.ret oneRowSolver) :=
    ⟨_, .act (.act (.act (.act (.act (.act (.act (.act (.act (.act (.act (.act (.act (.act
      (.act (.act (.act .refl))))))))))))))))⟩
  obtain ⟨as, hl⟩ := hgenerate
  have henv : KspStep 32 false (fun _ _ _ => True) (0 : Fin 1)
      (⟨⟨.running, .never, []⟩, .new, []⟩ : KspJob ℤ) (.process (.constructEnvironment (0, 0)))
      ⟨withPetsc, .new, []⟩ := .process (.constructEnvironment rfl)
  let owners : List (Owner ℤ) := [⟨some oneRowSolver, withPetsc, none, as.map (·, withPetsc)⟩]
  let w := SharedPtrs.new.make 0
  let w' := ((PtrOp.copyConstruct 0).perform w).1
  have hsolver : KspStep 32 false (fun _ _ _ => True) (0 : Fin 1) ⟨withPetsc, .new, []⟩ .generate
      ⟨withPetsc, w, owners⟩ := .generate (by decide) hl
  have hcopy : KspStep 32 false (fun _ _ _ => True) (0 : Fin 1) ⟨withPetsc, w, owners⟩
      (.objects (.copyConstruct 0)) ⟨withPetsc, w', owners⟩ := .objects (by decide) rfl
  have hdestroy : KspStep 32 false (fun _ _ _ => True) (0 : Fin 1) ⟨withPetsc, w', owners⟩
      (.objects (.destroy 0)) ⟨withPetsc, copyLeft, owners⟩ := .objects (by decide) rfl
  refine ⟨_, as, (((Run.nil.snoc henv).snoc hsolver).snoc hcopy).snoc hdestroy, ?_, rfl⟩
  simp [Outlives, MayCallPetsc]

/-- The copy is destroyed after MPI has been finalized: nothing is released. -/
theorem ksp_kept_afterMpi : ∃ tr j, ∃ o : Owner ℤ,
    Run (KspStep 32 false (fun _ _ _ => True) (0 : Fin 1)) ⟨⟨.running, .never, []⟩, .new, []⟩ tr
      j ∧ tr.length = 6 ∧ j.owners[0]? = some o ∧ o.died = some afterMpi ∧ o.Kept j.pointers 0 := by
  obtain ⟨tr, as, hrun, -, hlength⟩ := run_copied
  have hmpi := hrun.snoc (.process (.mpiFinalize rfl))
  have hvalid : (PtrOp.destroy 0).Valid copyLeft := by decide
  have hrun' := hmpi.snoc (.lastPointer (k := 0) (s := oneRowSolver) hvalid rfl rfl .refl)
  exact ⟨_, _, _, hrun', by simp [hlength], rfl, rfl, ksp_kept hrun' rfl⟩

/-- The copy is destroyed before its environment: everything is released. -/
theorem ksp_released_inTime : ∃ tr j, ∃ o : Owner ℤ,
    Run (KspStep 32 false (fun _ _ _ => True) (0 : Fin 1)) ⟨⟨.running, .never, []⟩, .new, []⟩ tr
      j ∧ tr.length = 6 ∧ j.process.library = .finalized ∧ j.owners[0]? = some o ∧
      o.state = some oneRowSolver ∧ o.left = fun _ => false := by
  obtain ⟨tr, as, hrun, hout, hlength⟩ := run_copied
  have hvalid : (PtrOp.destroy 0).Valid copyLeft := by decide
  have hlast := hrun.snoc (.lastPointer (k := 0) (s := oneRowSolver) hvalid rfl rfl
    (.act (.act (.act (.act .refl)))))
  have henv : ProcessStep withPetsc (.destroyEnvironment ⟨true⟩) _ := .destroyEnvironment
  have hrun' := hlast.snoc (.process henv)
  refine ⟨_, _, _, hrun', by simp [hlength], rfl, rfl, rfl,
    (ksp_released (k := 0) hrun' ?_ rfl).2.2 List.not_mem_nil⟩
  simp only [List.forall_mem_append, List.forall_mem_singleton]
  exact ⟨⟨hout, trivial⟩, fun _ => .inr fun _ => List.not_mem_nil⟩

end GinkgoTpl.Petsc
