import GinkgoTpl.Hypre.Process

/-!
# The process-wide policy of hypre

`hypre/detail/policy.hpp`. hypre's memory location and execution policy belong to the process,
and the wrapper remembers in a static variable the location that it has put in force. The
variable outlives hypre: a new `HYPRE_Initialize` puts hypre back on the device on a GPU-enabled
build, whatever is remembered. `policyKept_of_run` says in which runs the two agree.
-/

namespace GinkgoTpl.Hypre

open Transition

inductive MemoryLocation where
  | host
  | device
  deriving DecidableEq

inductive ExecutionPolicy where
  | host
  | device
  deriving DecidableEq

namespace MemoryLocation

/-- The execution policy that belongs to a memory location. -/
def exec (location : MemoryLocation) : ExecutionPolicy :=
  if location = .device then .device else .host

end MemoryLocation

/-- hypre's policy, and the location that `active_memory_location` remembers. -/
structure PolicyState where
  active : Option MemoryLocation
  location : MemoryLocation
  exec : ExecutionPolicy
  deriving DecidableEq

/-- What a setter of hypre returns and leaves in force: the wanted value if it succeeds. -/
structure Reply {α : Type} (wanted : α) where
  code : ℤ
  left : α
  left_of_ok : code = 0 → left = wanted

/-- A setter that succeeds. -/
def Reply.ok {α : Type} (wanted : α) : Reply wanted := ⟨0, wanted, fun _ => rfl⟩

def conflictError : Error :=
  .invalidState ("hypre's memory location and execution policy are process-global, " ++
    "and this process already runs with the other one; a " ++
    "gko::ext::hypre solver on a host executor and one on a device " ++
    "executor cannot coexist")

def noGpuError : Error :=
  .invalidState ("a gko::ext::hypre solver on a Ginkgo device executor needs a " ++
    "hypre built with GPU support, but this hypre was built without " ++
    "it (HYPRE_USING_GPU is not defined in its HYPRE_config.h); it " ++
    "would treat the device pointers as host memory instead of " ++
    "reporting an error. Use a host executor, or rebuild hypre with " ++
    "CUDA/HIP/SYCL support")

/-- The location to set differs from the remembered one. -/
def PolicyState.Conflicts (s : PolicyState) (location : MemoryLocation) : Prop :=
  ∃ active, s.active = some active ∧ active ≠ location

instance (s : PolicyState) (location : MemoryLocation) : Decidable (s.Conflicts location) :=
  match h : s.active with
  | none => isFalse fun ⟨_, h', _⟩ => by simp [h] at h'
  | some active =>
    if hne : active ≠ location then isTrue ⟨active, h, hne⟩
    else isFalse fun ⟨_, h', hne'⟩ => by rw [h] at h'; cases h'; exact hne hne'

/-- `gpu` is whether hypre was built with `HYPRE_USING_GPU`. -/
def setProcessPolicy (describe : ℤ → String) (gpu : Bool) (location : MemoryLocation)
    (memory : Reply location) (execution : Reply location.exec) (s : PolicyState) :
    Except Error Unit × PolicyState :=
  if s.Conflicts location then (.error conflictError, s)
  else if location = .device ∧ !gpu then (.error noGpuError, s)
  else if s.active.isNone then
    let s := { s with location := memory.left }
    match assertNoHypreErrors describe memory.code "HYPRE_SetMemoryLocation(location)" with
    | .error e => (.error e, s)
    | .ok () =>
      let s := { s with exec := execution.left }
      match assertNoHypreErrors describe execution.code ("HYPRE_SetExecutionPolicy( location == " ++
          "HYPRE_MEMORY_DEVICE ? HYPRE_EXEC_DEVICE : HYPRE_EXEC_HOST)") with
      | .error e => (.error e, s)
      | .ok () => (.ok (), { s with active := some location })
  else (.ok (), s)

/-- hypre runs under the policy that belongs to `location`. -/
structure PolicyState.At (s : PolicyState) (location : MemoryLocation) : Prop where
  location_eq : s.location = location
  exec_eq : s.exec = location.exec

/-- If a location is remembered, hypre runs under it. -/
def PolicyState.Sound (s : PolicyState) : Prop := ∀ active, s.active = some active → s.At active

section
variable {describe : ℤ → String} {gpu : Bool} {location : MemoryLocation}
  {memory : Reply location} {execution : Reply location.exec} {s : PolicyState}

theorem setProcessPolicy_of_conflict (h : s.Conflicts location) :
    setProcessPolicy describe gpu location memory execution s = (.error conflictError, s) :=
  if_pos h

/-- All that `setProcessPolicy` can do when no other location is remembered. -/
theorem setProcessPolicy_cases (h : ¬ s.Conflicts location) :
    (∃ e s', setProcessPolicy describe gpu location memory execution s = (.error e, s') ∧
      (s' = s ∨ s.active = none ∧ s'.active = none)) ∨
    (s.active = some location ∧
      setProcessPolicy describe gpu location memory execution s = (.ok (), s)) ∨
    (s.active = none ∧ setProcessPolicy describe gpu location memory execution s =
      (.ok (), ⟨some location, location, location.exec⟩)) := by
  simp only [setProcessPolicy, if_neg h]
  by_cases hgpu : location = .device ∧ !gpu
  · exact .inl ⟨_, _, if_pos hgpu, .inl rfl⟩
  simp only [if_neg hgpu]
  cases hactive : s.active with
  | some active =>
    have : active = location := by_contra fun hne => h ⟨active, hactive, hne⟩
    exact .inr (.inl ⟨congrArg some this, by simp⟩)
  | none =>
    by_cases hmem : memory.code = 0
    · by_cases hexec : execution.code = 0
      · refine .inr (.inr ⟨rfl, ?_⟩)
        simp [hmem, hexec, memory.left_of_ok hmem, execution.left_of_ok hexec]
      · rw [hmem, assertNoHypreErrors_zero, assertNoHypreErrors_of_ne hexec]
        exact .inl ⟨_, _, rfl, .inr ⟨rfl, rfl⟩⟩
    · rw [assertNoHypreErrors_of_ne hmem]
      exact .inl ⟨_, _, rfl, .inr ⟨rfl, rfl⟩⟩

/-- From a sound state, `setProcessPolicy` ends in a sound one, and hypre runs under the location
asked for if it returns. -/
theorem setProcessPolicy_sound (h : s.Sound) {result : Except Error Unit} {s' : PolicyState}
    (hset : setProcessPolicy describe gpu location memory execution s = (result, s')) :
    s'.Sound ∧ (result = .ok () → s'.At location) := by
  by_cases hc : s.Conflicts location
  · rw [setProcessPolicy_of_conflict hc] at hset
    cases hset
    exact ⟨h, nofun⟩
  rcases setProcessPolicy_cases hc with ⟨_, _, h1, hs⟩ | ⟨hactive, h1⟩ | ⟨_, h1⟩
  · rw [h1] at hset
    cases hset
    refine ⟨?_, nofun⟩
    rcases hs with rfl | ⟨-, hnone⟩
    · exact h
    · intro active ha
      rw [hnone] at ha
      cases ha
  · rw [h1] at hset
    cases hset
    exact ⟨h, fun _ => h location hactive⟩
  · rw [h1] at hset
    cases hset
    refine ⟨?_, fun _ => ⟨rfl, rfl⟩⟩
    intro active ha
    cases ha
    exact ⟨rfl, rfl⟩

end

/-! ## Runs of a process on a GPU-enabled build -/

/-- `HYPRE_Initialize` leaves hypre on the device. -/
def PolicyState.reset (s : PolicyState) : PolicyState :=
  { s with location := .device, exec := .device }

/-- The policy after a step of the process from `p` to `p'`. -/
def PolicyState.after (s : PolicyState) (p p' : Process) : PolicyState :=
  if p.libraryInitialized = false ∧ p'.libraryInitialized then s.reset else s

structure PolicyProcess where
  process : Process
  policy : PolicyState

inductive PolicyEvent where
  | process (e : ProcessEvent)
  /-- The construction of a solver, a matrix or a vector at this location. -/
  | setProcessPolicy (location : MemoryLocation) (memory : Reply location)
    (execution : Reply location.exec)

inductive PolicyStep (describe : ℤ → String) : PolicyProcess → PolicyEvent → PolicyProcess → Prop
  | process {p s e p'} : ProcessStep describe p e p' →
    PolicyStep describe ⟨p, s⟩ (.process e) ⟨p', s.after p p'⟩
  | setProcessPolicy {p s location memory execution result s'} :
    setProcessPolicy describe true location memory execution s = (result, s') →
    PolicyStep describe ⟨p, s⟩ (.setProcessPolicy location memory execution) ⟨p, s'⟩

/-- What one step must not break: if `setProcessPolicy` returns, hypre runs under the location
asked for, and if it meets another location, nothing changes. -/
def PolicyKept (describe : ℤ → String) :
    PolicyProcess × PolicyEvent × PolicyProcess → Prop
  | (a, .setProcessPolicy location memory execution, b) =>
    ((setProcessPolicy describe true location memory execution a.policy).1 = .ok () →
      b.policy.At location) ∧
    (a.policy.Conflicts location →
      (setProcessPolicy describe true location memory execution a.policy).1 = .error conflictError ∧
        b.policy = a.policy)
  | _ => True

/-- The step initializes hypre while a host location is remembered. -/
def ResetsHost : PolicyProcess × PolicyEvent × PolicyProcess → Prop
  | (a, _, b) => a.process.libraryInitialized = false ∧ b.process.libraryInitialized ∧
    a.policy.active = some .host

/-- An initialization is harmless unless a host location is remembered. -/
theorem PolicyState.Sound.reset {s : PolicyState} (h : s.active ≠ some .host) : s.reset.Sound := by
  intro active ha
  cases active with
  | host => exact absurd ha h
  | device => exact ⟨rfl, rfl⟩

theorem PolicyStep.sound {describe : ℤ → String} {a b : PolicyProcess} {e : PolicyEvent}
    (hstep : PolicyStep describe a e b) (hreset : ¬ ResetsHost (a, e, b)) (h : a.policy.Sound) :
    b.policy.Sound := by
  cases hstep with
  | @process p s e p' _ =>
    by_cases hinit : p.libraryInitialized = false ∧ p'.libraryInitialized
    · simp only [PolicyState.after, if_pos hinit]
      exact .reset fun hhost => hreset ⟨hinit.1, hinit.2, hhost⟩
    · simp only [PolicyState.after, if_neg hinit]
      exact h
  | setProcessPolicy hset => exact (setProcessPolicy_sound h hset).1

theorem PolicyStep.kept {describe : ℤ → String} {a b : PolicyProcess} {e : PolicyEvent}
    (hstep : PolicyStep describe a e b) (h : a.policy.Sound) : PolicyKept describe (a, e, b) := by
  cases hstep with
  | setProcessPolicy hset =>
    simp only [PolicyKept, hset]
    refine ⟨(setProcessPolicy_sound h hset).2, fun hc => ?_⟩
    rw [setProcessPolicy_of_conflict hc] at hset
    cases hset
    exact ⟨rfl, rfl⟩
  | _ => trivial

/-- After such an initialization hypre is on the device, and `setProcessPolicy` returns for the
host without putting it there. -/
theorem ResetsHost.drifts {describe : ℤ → String} {a b : PolicyProcess} {e : PolicyEvent}
    (hstep : PolicyStep describe a e b) (h : ResetsHost (a, e, b))
    (memory : Reply MemoryLocation.host) (execution : Reply MemoryLocation.host.exec) :
    PolicyStep describe b (.setProcessPolicy .host memory execution) b ∧
      ¬ PolicyKept describe (b, .setProcessPolicy .host memory execution, b) := by
  obtain ⟨hnot, hinit, hhost⟩ := h
  have hb : b.policy.active = some .host ∧ b.policy.location = .device := by
    cases hstep with
    | process =>
      simp only [PolicyState.after, if_pos (And.intro hnot hinit)]
      exact ⟨hhost, rfl⟩
    | setProcessPolicy => cases hnot.symm.trans hinit
  have hset : setProcessPolicy describe true .host memory execution b.policy =
      (.ok (), b.policy) := by
    have hc : ¬ b.policy.Conflicts .host := by
      rintro ⟨active, ha, hne⟩
      rw [hb.1] at ha
      cases ha
      exact hne rfl
    simp only [setProcessPolicy, if_neg hc, hb.1]
    rfl
  refine ⟨.setProcessPolicy hset, fun hkept => ?_⟩
  simp only [PolicyKept, hset] at hkept
  have := (hkept.1 trivial).location_eq
  rw [hb.2] at this
  cases this

/-- In every run from a process that remembers no location, hypre stays under the policy that the
wrapper asked for if no initialization of hypre meets a remembered host location; where one does,
the next `setProcessPolicy` for the host breaks this. -/
theorem policyKept_of_run {describe : ℤ → String} {a b : PolicyProcess}
    {tr : List (PolicyProcess × PolicyEvent × PolicyProcess)}
    (h : Run (PolicyStep describe) a tr b) (ha : a.policy.active = none) :
    ((∀ t ∈ tr, ¬ ResetsHost t) → ∀ t ∈ tr, PolicyKept describe t) ∧
    (∀ t ∈ tr, ResetsHost t → ∀ memory execution,
      PolicyStep describe t.2.2 (.setProcessPolicy .host memory execution) t.2.2 ∧
        ¬ PolicyKept describe (t.2.2, .setProcessPolicy .host memory execution, t.2.2)) := by
  have h0 : a.policy.Sound := by
    intro active hactive
    rw [ha] at hactive
    cases hactive
  constructor
  · rintro hreset ⟨c, e, d⟩ ht
    obtain ⟨hstep, hc⟩ := h.invariant_mem h0
      (fun _ _ _ ht hstep hs => hstep.sound (hreset _ ht) hs) ht
    exact hstep.kept hc
  · rintro ⟨c, e, d⟩ ht hreset memory execution
    exact ResetsHost.drifts (h.step_of_mem ht).1 hreset memory execution

/-- A process without hypre, and the same process in its first lifetime of hypre. -/
def beforeHypre : PolicyProcess := ⟨⟨.running, .never, []⟩, ⟨none, .host, .host⟩⟩
def firstLifetime (s : PolicyState) : PolicyProcess := ⟨⟨.running, .initialized, [.initializes]⟩, s⟩

/-- The construction of a host solver where no setter of hypre fails. -/
def hostSolver : PolicyEvent := .setProcessPolicy .host (.ok _) (.ok _)

/-- One environment in which a host solver is generated. -/
theorem run_firstLifetime (describe : ℤ → String) : Run (PolicyStep describe) beforeHypre
    [(beforeHypre, .process (.constructEnvironment 0), firstLifetime ⟨none, .device, .device⟩),
      (firstLifetime ⟨none, .device, .device⟩, hostSolver,
        firstLifetime ⟨some .host, .host, .host⟩)]
    (firstLifetime ⟨some .host, .host, .host⟩) :=
  (Run.nil.snoc (.process (.constructEnvironment rfl))).snoc (.setProcessPolicy rfl)

theorem policyKept_of_run_firstLifetime : ∃ a tr b, a.policy.active = none ∧
    Run (PolicyStep fun _ => "") a tr b ∧ tr.length = 2 ∧
      ∀ t ∈ tr, PolicyKept (fun _ => "") t := by
  have h := run_firstLifetime fun _ => ""
  refine ⟨_, _, _, rfl, h, rfl, (policyKept_of_run h rfl).1 ?_⟩
  intro t ht hreset
  rcases List.mem_cons.mp ht with rfl | ht
  · exact absurd hreset.2.2 (by decide)
  · cases List.mem_singleton.mp ht
    exact absurd hreset.1 (by decide)

/-- A second environment after the first one: `setProcessPolicy` returns for the host while hypre
is on the device. -/
theorem policyKept_fails_secondLifetime : ∃ a tr b, a.policy.active = none ∧
    Run (PolicyStep fun _ => "") a tr b ∧ ∃ t ∈ tr, ¬ PolicyKept (fun _ => "") t := by
  let calls : List LifetimeCall := [.initializes, .finalizes .running]
  let between : PolicyProcess := ⟨⟨.running, .finalized, calls⟩, ⟨some .host, .host, .host⟩⟩
  let second : PolicyProcess :=
    ⟨⟨.running, .initialized, calls ++ [.initializes]⟩, ⟨some .host, .device, .device⟩⟩
  have h1 : PolicyStep (fun _ => "") (firstLifetime ⟨some .host, .host, .host⟩)
    (.process (.destroyEnvironment ⟨true⟩)) between := .process .destroyEnvironment
  have h2 : PolicyStep (fun _ => "") between (.process (.constructEnvironment 0)) second :=
    .process (.constructEnvironment rfl)
  have h3 : PolicyStep (fun _ => "") second hostSolver second := .setProcessPolicy rfl
  have h := (((run_firstLifetime fun _ => "").snoc h1).snoc h2).snoc h3
  refine ⟨_, _, _, rfl, h, (second, hostSolver, second), by simp, fun hkept => ?_⟩
  exact absurd (hkept.1 rfl).location_eq (by decide)

end GinkgoTpl.Hypre
