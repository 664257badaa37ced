import Mathlib.Data.List.Basic
import GinkgoTpl.Error
import GinkgoTpl.Transition.Run

/-!
# Scoped environments of a library

Both wrappers guard the global state of their library by an `environment` object: its constructor
initializes the library unless it is initialized already, and its destructor finalizes it only if
this object initialized it and MPI still runs. Here environments are constructed and destroyed in
a well-nested order while MPI may be initialized and finalized at any point, and `Balanced` is
what the environments guarantee over such a run. `EnvironmentClass.Scoped` is all that the
guarantee needs of a wrapper's class.
-/

namespace GinkgoTpl

open Transition

inductive MpiStatus where
  | notInitialized
  | running
  | finalized
  deriving DecidableEq

/-- The current lifetime of the library. -/
inductive LibraryStatus where
  | never
  | initialized
  | finalized
  deriving DecidableEq

/-- The calls that begin and end a lifetime, by environments and by the application. -/
inductive LifetimeCall where
  | initializes
  /-- With the status of MPI at the call. -/
  | finalizes (mpi : MpiStatus)
  deriving DecidableEq

structure Process where
  mpi : MpiStatus
  library : LibraryStatus
  calls : List LifetimeCall

namespace Process

def mpiInitialized (p : Process) : Bool := p.mpi ≠ .notInitialized
def mpiFinalized (p : Process) : Bool := p.mpi = .finalized
def libraryInitialized (p : Process) : Bool := p.library = .initialized
def libraryFinalized (p : Process) : Bool := p.library = .finalized

/-- A call that has initialized the library. -/
def initializeLibrary (p : Process) : Process :=
  { p with library := .initialized, calls := p.calls ++ [.initializes] }

def finalizeLibrary (p : Process) : Process :=
  { p with library := .finalized, calls := p.calls ++ [.finalizes p.mpi] }

end Process

/-- An environment object, with its `owns_hypre_` or `owns_petsc_`. -/
structure Environment where
  owns : Bool

/-- A class of environments; `ρ` is what the library replies to the constructor's calls. -/
structure EnvironmentClass (ρ : Type) where
  construct : ρ → Process → Except Error Environment × Process
  destroy : Environment → Process → Process

/-- The constructor throws and changes nothing, finds the library initialized, or initializes it
and owns it. The destructor of an owner finalizes the library unless MPI is finalized. -/
structure EnvironmentClass.Scoped {ρ : Type} (cls : EnvironmentClass ρ) : Prop where
  construct : ∀ reply p, (∃ e, cls.construct reply p = (.error e, p)) ∨
    (p.library = .initialized ∧ cls.construct reply p = (.ok ⟨false⟩, p)) ∨
    (p.library ≠ .initialized ∧ cls.construct reply p = (.ok ⟨true⟩, p.initializeLibrary))
  destroy : ∀ env p, p.library = .initialized → cls.destroy env p =
    if env.owns ∧ p.mpi ≠ .finalized then p.finalizeLibrary else p

/-! ## Runs -/

/-- A live environment, with the library's status before it was constructed. -/
structure Scope where
  env : Environment
  before : LibraryStatus

/-- A process with its live environments, the innermost one first. -/
structure Job where
  process : Process
  live : List Scope

inductive LifetimeEvent (ρ : Type) where
  | construct (reply : ρ)
  | destroy
  | mpiInit
  | mpiFinalize

/-- An exception of the constructor leaves no environment behind. -/
inductive LifetimeStep {ρ : Type} (cls : EnvironmentClass ρ) : Job → LifetimeEvent ρ → Job → Prop
  | construct {p live reply env p'} : cls.construct reply p = (.ok env, p') →
    LifetimeStep cls ⟨p, live⟩ (.construct reply) ⟨p', ⟨env, p.library⟩ :: live⟩
  | throws {p live reply e p'} : cls.construct reply p = (.error e, p') →
    LifetimeStep cls ⟨p, live⟩ (.construct reply) ⟨p', live⟩
  | destroy {p scope live} :
    LifetimeStep cls ⟨p, scope :: live⟩ .destroy ⟨cls.destroy scope.env p, live⟩
  | mpiInit {p live} : p.mpi = .notInitialized →
    LifetimeStep cls ⟨p, live⟩ .mpiInit ⟨{ p with mpi := .running }, live⟩
  | mpiFinalize {p live} : p.mpi = .running →
    LifetimeStep cls ⟨p, live⟩ .mpiFinalize ⟨{ p with mpi := .finalized }, live⟩

/-- Replays lifetime calls: the library is initialized only while it is not, and finalized only
while it is, so at most once for every initialization. -/
def replay : LibraryStatus → List LifetimeCall → Option LibraryStatus
  | status, [] => some status
  | status, .initializes :: calls =>
    if status = .initialized then none else replay .initialized calls
  | status, .finalizes _ :: calls => if status = .initialized then replay .finalized calls else none

/-- What environments guarantee over a run that starts with the library in `status`. -/
structure Balanced {ρ : Type} (status : LibraryStatus) (tr : List (Job × LifetimeEvent ρ × Job))
    (j : Job) : Prop where
  alive : j.live ≠ [] → j.process.mpi = .running → j.process.library = .initialized
  /-- Only the outermost environment may own the library. -/
  owner : ∀ scope ∈ j.live.dropLast, scope.env.owns = false
  once : replay status j.process.calls = some j.process.library
  notAfterMpi : .finalizes .finalized ∉ j.process.calls
  notFound : ∀ a b scope live, (a, .destroy, b) ∈ tr → a.live = scope :: live →
    scope.before = .initialized → b.process = a.process
  restored : ∀ a b scope, (a, .destroy, b) ∈ tr → a.live = [scope] → a.process.mpi = .running →
    (b.process.library = .initialized ↔ scope.before = .initialized)

theorem replay_append {status status' : LibraryStatus} {calls calls' : List LifetimeCall}
    (h : replay status calls = some status') :
    replay status (calls ++ calls') = replay status' calls' := by
  induction calls generalizing status with
  | nil => cases h; rfl
  | cons c calls ih =>
    cases c <;>
    · simp only [replay] at h
      split at h
      all_goals first | exact absurd h (by simp) | skip
      rename_i hs
      simp only [List.cons_append, replay, hs, if_true, if_false]
      exact ih h

/-- The invariant behind `Balanced`. -/
structure Job.Inv (status : LibraryStatus) (j : Job) : Prop where
  alive : j.live ≠ [] → j.process.library = .initialized
  owns : ∀ scope ∈ j.live, scope.env.owns = true ↔ scope.before ≠ .initialized
  inner : ∀ scope ∈ j.live.dropLast, scope.before = .initialized
  once : replay status j.process.calls = some j.process.library
  notAfterMpi : .finalizes .finalized ∉ j.process.calls

section
variable {ρ : Type} {cls : EnvironmentClass ρ} {status : LibraryStatus} {j j' : Job}
  {e : LifetimeEvent ρ}

/-- A new innermost environment. -/
theorem Job.Inv.push {p p' : Process} {live : List Scope} {scope : Scope}
    (h : Job.Inv status ⟨p, live⟩) (hp' : p'.library = .initialized)
    (howns : scope.env.owns = true ↔ scope.before ≠ .initialized)
    (hbefore : scope.before = p.library)
    (honce : replay status p'.calls = some p'.library)
    (hmpi : .finalizes .finalized ∉ p'.calls) : Job.Inv status ⟨p', scope :: live⟩ where
  alive _ := hp'
  owns s hs := by
    rcases List.mem_cons.mp hs with rfl | hs
    · exact howns
    · exact h.owns s hs
  inner s hs := by
    cases live with
    | nil => cases hs
    | cons outer live =>
      rcases List.mem_cons.mp hs with rfl | hs
      · rw [hbefore]
        exact h.alive (by simp)
      · exact h.inner s hs
  once := honce
  notAfterMpi := hmpi

theorem LifetimeStep.inv (hcls : cls.Scoped) (hstep : LifetimeStep cls j e j')
    (h : j.Inv status) : j'.Inv status := by
  cases hstep with
  | @construct p live reply env p' hc =>
    rcases hcls.construct reply p with ⟨_, h1⟩ | ⟨hinit, h1⟩ | ⟨hinit, h1⟩
    · rw [h1] at hc; cases hc
    · rw [h1] at hc; cases hc
      exact h.push hinit (by simp [hinit]) rfl h.once h.notAfterMpi
    · rw [h1] at hc; cases hc
      refine h.push rfl (by simp [hinit]) rfl ?_
        (by simpa [Process.initializeLibrary] using h.notAfterMpi)
      simp only [Process.initializeLibrary]
      rw [replay_append h.once]
      simp [replay, hinit]
  | @throws p live reply _ p' hc =>
    rcases hcls.construct reply p with ⟨_, h1⟩ | ⟨_, h1⟩ | ⟨_, h1⟩
    · rw [h1] at hc; cases hc
      exact h
    all_goals rw [h1] at hc; cases hc
  | @destroy p scope live =>
    have hinit : p.library = .initialized := h.alive (by simp)
    rw [hcls.destroy scope.env p hinit]
    have howns : ∀ s ∈ live, s.env.owns = true ↔ s.before ≠ .initialized := fun s hs =>
      h.owns s (List.mem_cons_of_mem _ hs)
    have hinner : ∀ s ∈ live.dropLast, s.before = .initialized := by
      intro s hs
      cases live with
      | nil => cases hs
      | cons outer live => exact h.inner s (List.mem_cons_of_mem _ hs)
    split
    · rename_i hfin
      have hnil : live = [] := by
        cases live with
        | nil => rfl
        | cons outer live =>
          have := h.inner scope (by simp)
          exact absurd this ((h.owns scope (by simp)).mp hfin.1)
      subst hnil
      refine ⟨fun hne => absurd rfl hne, howns, hinner, ?_, ?_⟩
      · simp only [Process.finalizeLibrary]
        rw [replay_append h.once]
        simp [replay, hinit]
      · have hmpi := hfin.2.symm
        simp [Process.finalizeLibrary, h.notAfterMpi, hmpi]
    · exact ⟨fun _ => hinit, howns, hinner, h.once, h.notAfterMpi⟩
  | mpiInit => exact ⟨h.alive, h.owns, h.inner, h.once, h.notAfterMpi⟩
  | mpiFinalize => exact ⟨h.alive, h.owns, h.inner, h.once, h.notAfterMpi⟩

/-- Environments of a scoped class keep the lifetime of the library balanced. -/
theorem EnvironmentClass.Scoped.balanced (hcls : cls.Scoped) {mpi : MpiStatus}
    {tr : List (Job × LifetimeEvent ρ × Job)}
    (h : Run (LifetimeStep cls) ⟨⟨mpi, status, []⟩, []⟩ tr j) : Balanced status tr j := by
  have h0 : Job.Inv status ⟨⟨mpi, status, []⟩, []⟩ := ⟨by simp, by simp, by simp, rfl, by simp⟩
  have hkeep : ∀ a e b, (a, e, b) ∈ tr → LifetimeStep cls a e b → a.Inv status → b.Inv status :=
    fun _ _ _ _ hst ha => hst.inv hcls ha
  have hj := h.invariant h0 hkeep
  -- a destruction, with the invariant before it
  have hdestroy : ∀ a b scope live, (a, .destroy, b) ∈ tr → a.live = scope :: live →
      a.Inv status ∧ b.process = if scope.env.owns ∧ a.process.mpi ≠ .finalized then
        a.process.finalizeLibrary else a.process := by
    intro a b scope live ht hlive
    obtain ⟨hst, ha⟩ := h.invariant_mem h0 hkeep ht
    refine ⟨ha, ?_⟩
    cases hst with
    | destroy =>
      cases hlive
      exact hcls.destroy _ _ (ha.alive (by simp))
  refine ⟨fun hne _ => hj.alive hne, fun scope hs => ?_, hj.once, hj.notAfterMpi,
    fun a b scope live ht hlive hb => ?_, fun a b scope ht hlive hmpi => ?_⟩
  · have := hj.owns scope (List.dropLast_subset _ hs)
    simpa [hj.inner scope hs] using this
  · obtain ⟨ha, hb'⟩ := hdestroy a b scope live ht hlive
    have := ha.owns scope (by simp [hlive])
    rw [hb', if_neg (by simp [this, hb])]
  · obtain ⟨ha, hb'⟩ := hdestroy a b scope [] ht hlive
    have howns := ha.owns scope (by simp [hlive])
    have hinit := ha.alive (by simp [hlive])
    rw [hb']
    by_cases hbefore : scope.before = .initialized
    · rw [if_neg (by simp [howns, hbefore])]
      simp [hinit, hbefore]
    · rw [if_pos ⟨howns.mpr hbefore, by simp [hmpi]⟩]
      simp [Process.finalizeLibrary, hbefore]

end

end GinkgoTpl
