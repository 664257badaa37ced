import GinkgoTpl.Hypre.Construction

/-!
# The invariant of a construction

`Tracked` says that the destructors of the objects at hand destroy just what is alive, and that
hypre has not allocated what it only borrows. Each step of the setup keeps it, whether it returns
or throws: `ends_setUp`.
-/

namespace GinkgoTpl.Hypre

open Sparse Memory Ginkgo Spmd Transition

variable {P : ℕ} {V : Type}

/-! ## What the destructors destroy -/

/-- What the destructor of a vector destroys while hypre is initialized. -/
def PlacedVector.held (v : PlacedVector) : List Resource :=
  match v.ijVector, v.vector with
  | some ijVector, _ => [⟨.vector, ijVector⟩]
  | none, some vector => if v.ownsParVector then [⟨.vector, vector⟩] else []
  | none, none => []

/-- The arrays that are destroyed together with a matrix. -/
def ParCsr.ownArrays (result : ParCsr) : List ℕ :=
  match result.matrix with
  | some matrix =>
    (if result.distributed then [] else matrix.offd.frees) ++ matrix.colMapOffd.toList
  | none => []

def ParCsr.held (result : ParCsr) : List Resource :=
  result.ownArrays.map (⟨.array, ·⟩) ++
    (result.matrix.map fun matrix => ⟨.parCsrMatrix, matrix.handle⟩).toList

def PcgState.solvers (s : PcgState) : List Resource :=
  (s.pcg.map (⟨.pcg, ·⟩)).toList ++ (s.amg.map (⟨.boomerAmg, ·⟩)).toList

def PcgState.held (s : PcgState) : List Resource :=
  s.solvers ++ s.setupX.elim [] PlacedVector.held ++ s.setupB.elim [] PlacedVector.held ++
    s.matrix.held

/-- What an exception destroys, the vector included whose constructor runs. -/
def Construction.held (s : Construction V) : List Resource :=
  s.vector.held ++ (s.dummyX.elim [] PlacedVector.held ++ s.dummyB.elim [] PlacedVector.held ++
    s.result.held ++ s.state.held)

/-- Neither hypre nor MPI is finalized. -/
structure Running (p : Process) : Prop where
  mpi : p.mpi = .running
  library : p.library = .initialized

theorem PlacedVector.held_cases (v : PlacedVector) :
    v.held = [] ∨ ∃ a, v.held = [⟨.vector, a⟩] := by
  obtain ⟨ijVector, vector, owns⟩ := v
  cases ijVector <;> cases vector <;> cases owns <;> simp [PlacedVector.held]

section
variable {p : Process}

theorem PlacedVector.destroy_destroys (hp : Running p) (v : PlacedVector) :
    (v.destroy p).flatMap DestroyCall.destroys = v.held := by
  obtain ⟨ijVector, vector, owns⟩ := v
  simp only [PlacedVector.destroy, PlacedVector.held, Process.libraryInitialized,
    Process.libraryFinalized, hp.library]
  cases ijVector <;> cases vector <;> cases owns <;> rfl

theorem PlacedVector.elim_destroy_destroys (hp : Running p) (v : Option PlacedVector) :
    (v.elim [] (·.destroy p)).flatMap DestroyCall.destroys = v.elim [] PlacedVector.held := by
  cases v with
  | none => rfl
  | some v => exact v.destroy_destroys hp

/-- The diagonal block is always detached, and the off-diagonal one if the matrix is distributed. -/
theorem ParCsr.destroy_eq (hp : p.library = .initialized) (result : ParCsr) :
    result.destroy p = result.matrix.map fun matrix => { matrix with
      diag := matrix.diag.detach
      offd := if result.distributed then matrix.offd.detach else matrix.offd } := by
  simp only [ParCsr.destroy, Process.libraryInitialized, Process.libraryFinalized, hp]
  cases result.matrix with
  | none => rfl
  | some matrix => cases result.distributed <;> rfl

theorem ParCsr.destroy_destroys (hp : Running p) (result : ParCsr) :
    ((result.destroy p).map DestroyCall.parCsrMatrixDestroy).toList.flatMap DestroyCall.destroys =
      result.held := by
  rw [ParCsr.destroy_eq hp.library]
  simp only [ParCsr.held, ParCsr.ownArrays]
  cases hmatrix : result.matrix with
  | none => rfl
  | some matrix =>
    cases hdist : result.distributed <;>
      simp [DestroyCall.destroys, ParCsrMatrix.frees, HypreCsr.frees, HypreCsr.detach]

theorem PcgState.destroy_destroys (hp : Running p) (s : PcgState) :
    (s.destroy p).flatMap DestroyCall.destroys = s.held := by
  have hbody : (s.destroyBody p).flatMap DestroyCall.destroys = s.solvers := by
    simp only [PcgState.destroyBody, PcgState.solvers, Process.libraryInitialized,
      Process.libraryFinalized, Process.mpiFinalized, hp.library, hp.mpi]
    cases s.pcg <;> cases s.amg <;> rfl
  simp only [PcgState.destroy, PcgState.held, List.flatMap_append, hbody,
    PlacedVector.elim_destroy_destroys hp, ParCsr.destroy_destroys hp]

/-- Outside the constructors of the vectors, the destructors destroy what is held. -/
theorem Construction.unwind_destroys (hp : Running p) {s : Construction V}
    (hvector : s.vector = .empty) :
    (s.unwind p).flatMap DestroyCall.destroys = s.held := by
  simp only [Construction.unwind, Construction.held, hvector, List.flatMap_append,
    PlacedVector.elim_destroy_destroys hp, ParCsr.destroy_destroys hp,
    PcgState.destroy_destroys hp]
  rfl

end

/-! ## The invariant -/

/-- After the events of `log`, `held` is alive, the addresses from `next` on are unused, and hypre
has not allocated the arrays in `borrowed`. -/
structure Accounted (log : List (ResourceEvent Resource)) (held : List Resource) (next : ℕ)
    (borrowed : List ℕ) : Prop where
  owned : Owned Uses log held
  fresh : ∀ r, .create r ∈ log → r.addr < next
  /-- Only arrays and vectors are destroyed before the destructors run. -/
  kept : ∀ r, .destroy r ∈ log → r.kind ≠ .parCsrMatrix
  borrowed : ∀ a ∈ borrowed, a < next ∧ .create ⟨.array, a⟩ ∉ log

namespace Accounted

variable {log : List (ResourceEvent Resource)} {held held' freed : List Resource} {next next' : ℕ}
  {borrowed borrowed' : List ℕ}

theorem nil (next : ℕ) : Accounted [] [] next [] :=
  ⟨.nil, by simp, by simp, by simp⟩

theorem weaken (h : Accounted log held next borrowed) (hheld : held.Perm held')
    (hnext : next ≤ next') (hborrowed : borrowed' ⊆ borrowed) :
    Accounted log held' next' borrowed' where
  owned := h.owned.perm hheld
  fresh r hr := (h.fresh r hr).trans_le hnext
  kept := h.kept
  borrowed a ha := ⟨(h.borrowed a (hborrowed ha)).1.trans_le hnext, (h.borrowed a (hborrowed ha)).2⟩

/-- A resource is made at the next address. -/
theorem create (h : Accounted log held next borrowed) (kind : ResourceKind) :
    Accounted (log ++ [.create ⟨kind, next⟩]) (⟨kind, next⟩ :: held) (next + 1) borrowed where
  owned := h.owned.create (fun hm => (h.fresh _ hm).false) fun r hr hm => h.kept r hm hr.2
  fresh r hr := by
    rcases List.mem_append.mp hr with hr | hr
    · exact (h.fresh r hr).trans (Nat.lt_succ_self _)
    · cases List.mem_singleton.mp hr
      exact Nat.lt_succ_self _
  kept r hr := h.kept r ((List.mem_append.mp hr).resolve_right (by simp))
  borrowed a ha := by
    obtain ⟨hlt, hnot⟩ := h.borrowed a ha
    refine ⟨hlt.trans (Nat.lt_succ_self _), ?_⟩
    rw [List.mem_append, List.mem_singleton, not_or]
    refine ⟨hnot, ?_⟩
    rintro ⟨⟩
    exact hlt.false

/-- Arrays and vectors are destroyed. -/
theorem free (h : Accounted log (freed ++ held) next borrowed)
    (hkind : ∀ r ∈ freed, r.kind ≠ .parCsrMatrix) :
    Accounted (log ++ freed.map .destroy) held next borrowed where
  owned := by
    refine h.owned.destroyAll ?_ ?_ ?_
    · refine List.Pairwise.imp_of_mem (R := fun _ _ => True) ?_
        (List.pairwise_of_forall fun _ _ => trivial)
      exact fun {r r'} hr _ _ huses => hkind r hr huses.2
    · rintro r ⟨hr | hr, hr'⟩ <;> rw [hr] at hr' <;> cases hr'
    · exact fun r hr r' _ huses => hkind r hr huses.2
  fresh r hr := h.fresh r ((List.mem_append.mp hr).resolve_right (by simp))
  kept r hr := by
    rcases List.mem_append.mp hr with hr | hr
    · exact h.kept r hr
    · obtain ⟨r', hr', hr⟩ := List.mem_map.mp hr
      cases hr
      exact hkind r hr'
  borrowed a ha := by
    obtain ⟨hlt, hnot⟩ := h.borrowed a ha
    refine ⟨hlt, ?_⟩
    rw [List.mem_append, not_or]
    exact ⟨hnot, by simp⟩

end Accounted

def Construction.borrowed (s : Construction V) : List ℕ :=
  s.result.borrowed ++ s.state.matrix.borrowed

/-- The destructors of the objects at hand destroy what is alive. -/
structure Tracked (s : Construction V) : Prop where
  accounted : Accounted s.log s.held s.heap.next s.borrowed
  /-- The object of an importer is empty before there are solvers. -/
  apart : s.result.matrix = none ∨ s.state.solvers = []

namespace Tracked

variable {s s' : Construction V}

/-- A step without events. -/
theorem of_log_eq (h : Tracked s) (hlog : s'.log = s.log) (hnext : s.heap.next ≤ s'.heap.next)
    (hheld : s.held.Perm s'.held) (hborrowed : s'.borrowed ⊆ s.borrowed)
    (hapart : s'.result.matrix = none ∨ s'.state.solvers = []) : Tracked s' :=
  ⟨hlog ▸ h.accounted.weaken hheld hnext hborrowed, hapart⟩

/-- A resource is made at the next address. -/
theorem create (h : Tracked s) (kind : ResourceKind)
    (hlog : s'.log = s.log ++ [.create ⟨kind, s.heap.next⟩])
    (hnext : s.heap.next < s'.heap.next)
    (hheld : (⟨kind, s.heap.next⟩ :: s.held).Perm s'.held) (hborrowed : s'.borrowed ⊆ s.borrowed)
    (hapart : s'.result.matrix = none ∨ s'.state.solvers = []) : Tracked s' :=
  ⟨hlog ▸ (h.accounted.create kind).weaken hheld hnext hborrowed, hapart⟩

end Tracked

/-- As `Tracked`, while no constructor of a vector runs. -/
structure Settled (s : Construction V) : Prop extends Tracked s where
  vector : s.vector = .empty

section
variable [Inhabited V] {build : Build} {hypre : Lib V} {faults : Faults} {s s' : Construction V}
  {p : Process}

/-! ## Steps that create nothing -/

theorem ends_check {call : HypreCall} {Q : Unit → Construction V → Prop}
    {R : Construction V → Prop} (hR : R s) (hQ : hypre.code call = 0 → Q () s) :
    Ends (Construction.check hypre call) s Q R := by
  refine ends_ofExcept hR fun _ hok => hQ ?_
  by_contra hne
  rw [Lib.check, assertNoHypreErrors_of_ne hne] at hok
  cases hok

theorem ends_check_bind {call : HypreCall} {α : Type} {f : Unit → Constructing V α}
    {Q : α → Construction V → Prop} {R : Construction V → Prop} (hR : R s)
    (hf : Ends (f ()) s Q R) : Ends (Construction.check hypre call >>= f) s Q R :=
  ends_ofExcept_bind hR fun _ _ => hf

theorem ends_setProcessPolicy_bind {location : MemoryLocation} {α : Type}
    {f : Unit → Constructing V α} {Q : α → Construction V → Prop} {R : Construction V → Prop}
    (hR : R s) (hf : ∀ policy, Ends (f ()) { s with policy } Q R) :
    Ends (Construction.setProcessPolicy build hypre location >>= f) s Q R := by
  refine ends_bind.mpr (ends_bind.mpr ?_)
  exact ends_get.mpr (ends_ofExcept_bind hR fun policy _ => ends_modify.mpr (hf policy))

theorem ends_endOfPhase_bind {device : Bool} {phase : ConstructorPhase} {α : Type}
    {f : Unit → Constructing V α} {Q : α → Construction V → Prop} {R : Construction V → Prop}
    (hR : R s) (hf : Ends (f ()) s Q R) :
    Ends (Construction.endOfPhase build hypre faults device phase >>= f) s Q R := by
  refine ends_bind.mpr ?_
  have hbarrier : Ends (Constructing.ofExcept (faults.mpi (.barrier phase))) s
      (fun _ s => Ends (f ()) s Q R) R := ends_ofExcept hR fun _ _ => hf
  unfold Construction.endOfPhase
  split
  · exact ends_ofExcept_bind hR fun _ _ => hbarrier
  · exact hbarrier

theorem ends_gridHierarchy {answer : (op : MpiOp) → op.Data → op.Data} {localRows : ℕ}
    {Q : Hierarchy → Construction V → Prop} {R : Construction V → Prop} (hR : R s)
    (hQ : ∀ hierarchy, Q hierarchy s) :
    Ends (Construction.gridHierarchy hypre faults answer localRows) s Q R := by
  unfold Construction.gridHierarchy
  refine ends_ofExcept_bind hR fun _ _ => ?_
  dsimp only
  split
  · exact hR
  · exact ends_ofExcept_bind hR fun _ _ => hQ _

/-! ## Steps that create an object -/

/-- Whether or not a failing call has made its object. -/
theorem ends_make_bind {call : HypreCall} {kind : ResourceKind}
    {hold : ℕ → Construction V → Construction V} {α : Type} {f : Unit → Constructing V α}
    {Q : α → Construction V → Prop} {R : Construction V → Prop} (hR : R s)
    (hmade : R (hold s.heap.next (s.create kind .object)))
    (hf : Ends (f ()) (hold s.heap.next (s.create kind .object)) Q R) :
    Ends (Construction.make hypre faults call kind hold >>= f) s Q R := by
  refine ends_bind.mpr ?_
  unfold Construction.make
  split
  · exact ends_bind.mpr (ends_modify.mpr (ends_check hmade fun _ => hf))
  · rename_i hnot
    refine ends_check hR fun hcode => ?_
    exact absurd (.inl hcode) hnot

/-! ## The vectors -/

/-- The objects outside the constructor of a vector. -/
structure SameObjects (s s' : Construction V) : Prop where
  result : s'.result = s.result
  dummyB : s'.dummyB = s.dummyB
  dummyX : s'.dummyX = s.dummyX
  state : s'.state = s.state

omit [Inhabited V] in
theorem Tracked.of_vector {kind : ResourceKind} {contents : Buffer V} {vector : PlacedVector}
    (h : Settled s) (hheld : vector.held = [⟨kind, s.heap.next⟩]) :
    Tracked { s.create kind contents with vector } := by
  refine h.toTracked.create kind rfl (by simp [Construction.create]) ?_ (List.Subset.refl _)
    h.apart
  simp only [Construction.held, h.vector, hheld]
  exact .refl _

/-- What the constructor of a vector leaves, if it throws to be destroyed at once. -/
theorem ends_placeVector {v : Operand} {rowStart localSize : ℤ} {values : ℕ} (h : Settled s) :
    Ends (Construction.placeVector build hypre faults v rowStart localSize values) s
      (fun _ s' => Tracked s' ∧ SameObjects s s') (fun s' => Tracked s' ∧ SameObjects s s') := by
  unfold Construction.placeVector
  split
  · let made : Construction V := { s.create .vector .object with
      vector := { s.vector with ijVector := some s.heap.next } }
    have hmade : Tracked made := .of_vector h (by simp [PlacedVector.held])
    have hsame : Tracked made ∧ SameObjects s made := ⟨hmade, rfl, rfl, rfl, rfl⟩
    refine ends_make_bind ⟨h.toTracked, rfl, rfl, rfl, rfl⟩ hsame ?_
    refine ends_check_bind hsame <| ends_check_bind hsame <| ends_check_bind hsame <|
      ends_check_bind hsame <| ends_check_bind hsame <| ends_modify.mpr ⟨?_, rfl, rfl, rfl, rfl⟩
    exact hmade.of_log_eq rfl (by simp [made]) (.refl _) (List.Subset.refl _) h.apart
  · split
    · exact ⟨h.toTracked, rfl, rfl, rfl, rfl⟩
    · let made : Construction V := { s.create .vector .object with
        vector := { s.vector with vector := some s.heap.next, ownsParVector := true } }
      have hmade : Tracked made :=
        .of_vector h (by simp [PlacedVector.held, h.vector, PlacedVector.empty])
      have hsame : Tracked made ∧ SameObjects s made := ⟨hmade, rfl, rfl, rfl, rfl⟩
      refine ends_bind.mpr (ends_modify.mpr ?_)
      exact ends_check_bind hsame (ends_check hsame fun _ => hsame)

omit [Inhabited V] in
/-- The catch block destroys what the constructor has made. -/
theorem Tracked.abandonVector (hp : Running p) (h : Tracked s) : Settled (s.abandonVector p) := by
  refine ⟨?_, rfl⟩
  have hlog : (s.abandonVector p).log = s.log ++ s.vector.held.map .destroy := by
    simp only [Construction.abandonVector, destroyEvents, s.vector.destroy_destroys hp]
  have hkind : ∀ r ∈ s.vector.held, r.kind ≠ .parCsrMatrix := by
    intro r hr
    rcases s.vector.held_cases with hvector | ⟨a, hvector⟩ <;> simp [hvector] at hr
    simp [hr]
  exact ⟨hlog ▸ h.accounted.free hkind, h.apart⟩

theorem ends_placedVector_bind {v : Operand} {rowStart localSize : ℤ} {values : ℕ}
    {location : MemoryLocation} {α : Type} {f : Unit → Constructing V α}
    {Q : α → Construction V → Prop} (hp : Running p) (h : Settled s)
    (hf : ∀ s', Tracked s' → SameObjects s s' → Ends (f ()) s' Q Settled) :
    Ends (Construction.placedVector build hypre faults p v rowStart localSize values location >>=
      f) s Q Settled := by
  refine ends_bind.mpr (ends_setProcessPolicy_bind h fun policy => ?_)
  have hpolicy : Settled { s with policy } :=
    ⟨h.toTracked.of_log_eq rfl le_rfl (.refl _) (List.Subset.refl _) h.apart, h.vector⟩
  refine ends_onThrow.mpr ((ends_placeVector hpolicy).mono ?_ ?_)
  · rintro _ s' ⟨htracked, hsame⟩
    exact hf s' htracked ⟨hsame.result, hsame.dummyB, hsame.dummyX, hsame.state⟩
  · rintro s' ⟨htracked, -⟩
    exact htracked.abandonVector hp

/-! ## From the imported matrix on -/

theorem ParCsr.held_of_none {result : ParCsr} (h : result.matrix = none) : result.held = [] := by
  simp [ParCsr.held, ParCsr.ownArrays, h]

/-- The state has taken over the imported matrix, and has no vectors yet. -/
structure Adopted (s : Construction V) : Prop extends Settled s where
  result : s.result.matrix = none
  setupB : s.state.setupB = none
  setupX : s.state.setupX = none

/-- There are no vectors yet at all. -/
structure WithoutVectors (s : Construction V) : Prop extends Adopted s where
  dummyB : s.dummyB = none
  dummyX : s.dummyX = none

/-- There are no solvers either. -/
structure Imported (s : Construction V) : Prop extends WithoutVectors s where
  amg : s.state.amg = none
  pcg : s.state.pcg = none

omit [Inhabited V] in
theorem Adopted.held_eq (h : Adopted s) : s.held = s.dummyX.elim [] PlacedVector.held ++
    s.dummyB.elim [] PlacedVector.held ++ (s.state.solvers ++ s.state.matrix.held) := by
  simp [Construction.held, PcgState.held, h.vector, h.setupB, h.setupX,
    ParCsr.held_of_none h.result, PlacedVector.held, PlacedVector.empty]

omit [Inhabited V] in
/-- A solver is made, and the state holds it. -/
theorem WithoutVectors.make (h : WithoutVectors s) (kind : ResourceKind) (state : PcgState)
    (hsolvers : state.solvers.Perm (⟨kind, s.heap.next⟩ :: s.state.solvers))
    (hmatrix : state.matrix = s.state.matrix) (hB : state.setupB = none)
    (hX : state.setupX = none) :
    WithoutVectors { s.create kind .object with state } := by
  have hheld : s.held = s.state.solvers ++ s.state.matrix.held := by
    simp [h.held_eq, h.dummyB, h.dummyX]
  have hheld' : Construction.held { s.create kind .object with state } =
      state.solvers ++ s.state.matrix.held := by
    simp [Construction.held, PcgState.held, Construction.create, h.vector, h.dummyB, h.dummyX, hB,
      hX, hmatrix, ParCsr.held_of_none h.result, PlacedVector.held, PlacedVector.empty]
  have htracked : Tracked { s.create kind .object with state } := by
    refine h.toTracked.create kind rfl (by simp [Construction.create]) ?_ ?_
      (.inl h.result)
    · rw [hheld, hheld']
      exact (hsolvers.append_right _).symm
    · simp [Construction.borrowed, hmatrix, Construction.create]
  exact ⟨⟨⟨htracked, h.vector⟩, h.result, hB, hX⟩, h.dummyB, h.dummyX⟩

theorem ends_createSolvers {params : Parameters} {device : Bool} (h : Imported s) :
    Ends (Construction.createSolvers hypre faults params device) s (fun _ => WithoutVectors)
      Settled := by
  refine ends_bind.mpr (ends_get.mpr ?_)
  let state : PcgState := { s.state with amg := some s.heap.next }
  have hamg : WithoutVectors { s.create .boomerAmg .object with state } :=
    h.make _ _ (by simp [PcgState.solvers, state, h.amg, h.pcg]) rfl h.setupB h.setupX
  refine ends_make_bind h.toSettled hamg.toSettled ?_
  refine ends_ofExcept_bind hamg.toSettled fun _ _ => ?_
  refine ends_ofExcept_bind hamg.toSettled fun _ _ => ?_
  refine ends_bind.mpr (ends_get.mpr ?_)
  have hpcg := hamg.make .pcg { state with pcg := some (s.create .boomerAmg .object).heap.next }
    (by simp [PcgState.solvers, state, h.pcg]) rfl h.setupB h.setupX
  refine ends_make_bind hamg.toSettled hpcg.toSettled ?_
  exact ends_ofExcept_bind hpcg.toSettled fun _ _ => ends_ofExcept hpcg.toSettled fun _ _ => hpcg

/-- The vectors stay with the constructor until the setup is done. -/
theorem ends_createVectors [Zero V] {matrix : ParCsr} (hp : Running p) (h : WithoutVectors s) :
    Ends (Construction.createVectors build hypre faults p matrix) s (fun _ => Adopted) Settled := by
  refine ends_bind.mpr (ends_get.mpr (ends_bind.mpr (ends_set.mpr ?_)))
  refine ends_placedVector_bind hp (s := _) ?_ fun s₁ h₁ hsame₁ => ?_
  · exact ⟨h.toTracked.of_log_eq rfl (by simp; omega) (.refl _) (List.Subset.refl _)
      (.inl h.result), h.vector⟩
  refine ends_bind.mpr (ends_modify.mpr ?_)
  have hresult₁ : s₁.result.matrix = none := (congrArg _ hsame₁.result).trans h.result
  refine ends_placedVector_bind hp (s := _) ?_ fun s₂ h₂ hsame₂ => ends_modify.mpr ?_
  · refine ⟨h₁.of_log_eq rfl le_rfl ?_ (List.Subset.refl _) (.inl hresult₁), rfl⟩
    simp [Construction.held, hsame₁.dummyX, hsame₁.dummyB, h.dummyX, h.dummyB, PlacedVector.held,
      PlacedVector.empty]
  have hresult₂ : s₂.result.matrix = none := (congrArg _ hsame₂.result).trans hresult₁
  have hstate : s₂.state.setupB = none ∧ s₂.state.setupX = none := by
    rw [hsame₂.state, hsame₁.state]
    exact ⟨h.setupB, h.setupX⟩
  refine ⟨⟨h₂.of_log_eq rfl le_rfl ?_ (List.Subset.refl _) (.inl hresult₂), rfl⟩, hresult₂,
    hstate.1, hstate.2⟩
  have hdummyX : s₂.dummyX = none := by rw [hsame₂.dummyX, hsame₁.dummyX, h.dummyX]
  simp [Construction.held, hdummyX, PlacedVector.held, PlacedVector.empty]

/-- Wherever the setup throws, the state is in order. -/
theorem ends_setUp [Zero V] {answer : (op : MpiOp) → op.Data → op.Data} {params : Parameters}
    (hp : Running p) (h : Imported s) :
    Ends (Construction.setUp build hypre faults answer p params) s (fun _ => Settled) Settled := by
  refine ends_bind.mpr (ends_get.mpr (ends_bind.mpr (ends_set.mpr ?_)))
  have hdevice : Imported { s with state := { s.state with
      device := decide (s.state.matrix.memoryLocation = .device) } } :=
    ⟨⟨⟨⟨h.toTracked.of_log_eq rfl le_rfl (.refl _) (List.Subset.refl _) (.inl h.result), h.vector⟩,
      h.result, h.setupB, h.setupX⟩, h.dummyB, h.dummyX⟩, h.amg, h.pcg⟩
  refine (ends_createSolvers hdevice).bind fun _ s₁ h₁ => ?_
  refine (ends_createVectors hp h₁).bind fun _ s₂ h₂ => ?_
  refine ends_endOfPhase_bind h₂.toSettled (ends_check_bind h₂.toSettled
    (ends_endOfPhase_bind h₂.toSettled (ends_bind.mpr (ends_modify.mpr ?_))))
  have hmoved : Settled { s₂ with
      dummyB := none
      dummyX := none
      state := { s₂.state with setupB := s₂.dummyB, setupX := s₂.dummyX } } := by
    refine ⟨h₂.toTracked.of_log_eq rfl le_rfl ?_ (List.Subset.refl _) (.inl h₂.result), h₂.vector⟩
    rw [h₂.held_eq]
    refine (List.perm_append_comm_assoc _ _ _).trans (.of_eq ?_)
    simp [Construction.held, PcgState.held, PcgState.solvers, h₂.vector,
      ParCsr.held_of_none h₂.result, PlacedVector.held, PlacedVector.empty]
  split
  · refine ends_bind.mpr (ends_gridHierarchy hmoved fun hierarchy => ends_modify.mpr ?_)
    exact ⟨hmoved.toTracked.of_log_eq rfl le_rfl (.refl _) (List.Subset.refl _) hmoved.apart,
      hmoved.vector⟩
  · exact hmoved

end

end GinkgoTpl.Hypre
