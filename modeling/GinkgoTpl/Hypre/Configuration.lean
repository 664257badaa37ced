import GinkgoTpl.Hypre.Settings
import GinkgoTpl.MachineInt

/-!
# The configuration of a Pcg solver

`Pcg::parse` in `hypre/pcg.hpp`: the parameters that a configuration describes. The main result is
`parse_exact_iff`: the accepted configurations whose parameters are those configured, at the parse
and then at the generation, are those without empty nodes whose integers are values of an `int`, not
negative where zero stands for hypre's default, and whose reals with a sentinel are not NaN.
-/

namespace GinkgoTpl.Hypre

open Ginkgo

namespace Key

def name : Key → String
  | tolerance => "tolerance"
  | maxIters => "max_iters"
  | twoNorm => "two_norm"
  | coarsenType => "coarsen_type"
  | interpType => "interp_type"
  | relaxType => "relax_type"
  | relaxWeight => "relax_weight"
  | numSweeps => "num_sweeps"
  | maxLevels => "max_levels"
  | maxCoarseSize => "max_coarse_size"
  | strongThreshold => "strong_threshold"
  | printStatistics => "print_statistics"

/-- All keys, in the order in which `parse` looks at them. -/
def all : List Key :=
  [tolerance, maxIters, twoNorm, coarsenType, interpType, relaxType, relaxWeight, numSweeps,
    maxLevels, maxCoarseSize, strongThreshold, printStatistics]

/-- The setter of a parameter, applied to what the getter of its kind reads of the node. The
integers of a node have 64 bits, those of the parameters 32. -/
def assign (mismatch : Error) (node : Pnode) (params : Parameters) : Key → Except Error Parameters
  | tolerance => do
    let value ← node.getReal mismatch
    return { params with tolerance := value }
  | maxIters => do
    let value ← node.getInteger mismatch
    return { params with maxIters := castInt 32 value }
  | twoNorm => do
    let value ← node.getBoolean mismatch
    return { params with twoNorm := value }
  | coarsenType => do
    let value ← node.getString mismatch
    return { params with coarsenType := value }
  | interpType => do
    let value ← node.getString mismatch
    return { params with interpType := value }
  | relaxType => do
    let value ← node.getString mismatch
    return { params with relaxType := value }
  | relaxWeight => do
    let value ← node.getReal mismatch
    return { params with relaxWeight := value }
  | numSweeps => do
    let value ← node.getInteger mismatch
    return { params with numSweeps := castInt 32 value }
  | maxLevels => do
    let value ← node.getInteger mismatch
    return { params with maxLevels := castInt 32 value }
  | maxCoarseSize => do
    let value ← node.getInteger mismatch
    return { params with maxCoarseSize := castInt 32 value }
  | strongThreshold => do
    let value ← node.getReal mismatch
    return { params with strongThreshold := value }
  | printStatistics => do
    let value ← node.getBoolean mismatch
    return { params with printStatistics := value }

end Key

def allowedKeys : List String :=
  ["type", "value_type", "tolerance", "max_iters", "two_norm", "coarsen_type", "interp_type",
    "relax_type", "relax_weight", "num_sweeps", "max_levels", "max_coarse_size",
    "strong_threshold", "print_statistics"]

/-- Throws at the first key that is not allowed. -/
def checkKeys : List String → Except Error Unit
  | [] => .ok ()
  | key :: keys =>
    if key ∈ allowedKeys then checkKeys keys
    else .error (.invalidState (key ++ " is not an allowed key."))

/-- Sets a parameter if its key has a node that is not empty. -/
def Key.apply (mismatch : Error) (config : ConfigMap) (params : Parameters) (k : Key) :
    Except Error Parameters :=
  if (config.get k.name).isEmpty then .ok params
  else k.assign mismatch (config.get k.name) params

def assignAll (mismatch : Error) (config : ConfigMap) :
    List Key → Parameters → Except Error Parameters
  | [], params => .ok params
  | k :: ks, params => do
    let params ← k.apply mismatch config params
    assignAll mismatch config ks params

/-- `Pcg::parse` of a map. The getters of Ginkgo throw `mismatch` for a node of another kind. -/
def parse (mismatch : Error) (config : ConfigMap) : Except Error Parameters := do
  checkKeys config.keys
  assignAll mismatch config Key.all {}

/-! ## What becomes of a configured value -/

/-- The configured value as a parameter holds it. -/
def converted : Pnode → Pnode
  | .integer value => .integer (castInt 32 value)
  | node => node

/-- The parameters that cannot be configured. -/
def SameCallbacks (params params' : Parameters) : Prop :=
  params'.amgSetup = params.amgSetup ∧ params'.krylovSetup = params.krylovSetup

section
variable {mismatch : Error} {config : ConfigMap} {params params' : Parameters}

theorem checkKeys_eq_ok {keys : List String} :
    checkKeys keys = .ok () ↔ ∀ key ∈ keys, key ∈ allowedKeys := by
  induction keys with
  | nil => simp [checkKeys]
  | cons key keys ih =>
    rw [checkKeys, List.forall_mem_cons, ← ih]
    split <;> simp_all

/-- A setter changes its parameter only. -/
theorem Key.assign_ok {k : Key} {node : Pnode} (h : k.assign mismatch node params = .ok params') :
    params'.value k = converted node ∧ (∀ k' ≠ k, params'.value k' = params.value k') ∧
      SameCallbacks params params' := by
  cases k <;> obtain ⟨value, hvalue, ⟨⟩⟩ := bind_eq_ok.mp h
  case tolerance | relaxWeight | strongThreshold =>
    obtain rfl := Pnode.getReal_eq_ok.mp hvalue
    exact ⟨rfl, fun k' hne => by cases k' <;> trivial, rfl, rfl⟩
  case maxIters | numSweeps | maxLevels | maxCoarseSize =>
    obtain rfl := Pnode.getInteger_eq_ok.mp hvalue
    exact ⟨rfl, fun k' hne => by cases k' <;> trivial, rfl, rfl⟩
  case twoNorm | printStatistics =>
    obtain rfl := Pnode.getBoolean_eq_ok.mp hvalue
    exact ⟨rfl, fun k' hne => by cases k' <;> trivial, rfl, rfl⟩
  case coarsenType | interpType | relaxType =>
    obtain rfl := Pnode.getString_eq_ok.mp hvalue
    exact ⟨rfl, fun k' hne => by cases k' <;> trivial, rfl, rfl⟩

/-- The parameters whose keys have a node that is not empty hold its converted value, and the
others are left alone. -/
theorem assignAll_ok {ks : List Key} (h : assignAll mismatch config ks params = .ok params')
    (hks : ks.Nodup) :
    (∀ k, params'.value k = if k ∈ ks ∧ ¬ (config.get k.name).isEmpty
      then converted (config.get k.name) else params.value k) ∧ SameCallbacks params params' := by
  induction ks generalizing params with
  | nil =>
    cases h
    exact ⟨fun k => by simp, rfl, rfl⟩
  | cons k ks ih =>
    obtain ⟨hnot, hks⟩ := List.nodup_cons.mp hks
    obtain ⟨params₁, h₁, h⟩ := bind_eq_ok.mp h
    obtain ⟨hvalues, hsame⟩ := ih h hks
    rw [Key.apply] at h₁
    split at h₁
    · next hempty =>
      cases h₁
      refine ⟨fun k' => (hvalues k').trans ?_, hsame⟩
      rcases eq_or_ne k' k with rfl | hne
      · simp [hnot, hempty]
      · simp [hne]
    · next hempty =>
      obtain ⟨hvalue, hothers, hsame₁⟩ := Key.assign_ok h₁
      refine ⟨fun k' => (hvalues k').trans ?_, hsame.1.trans hsame₁.1, hsame.2.trans hsame₁.2⟩
      rcases eq_or_ne k' k with rfl | hne
      · simp [hnot, hempty, hvalue]
      · simp [hne, hothers k' hne]

theorem Key.mem_all (k : Key) : k ∈ Key.all := by cases k <;> decide

/-- What an accepted configuration gives. -/
theorem parse_ok (h : parse mismatch config = .ok params) :
    (∀ key ∈ config.keys, key ∈ allowedKeys) ∧
    (∀ k, params.value k = if (config.get k.name).isEmpty then Parameters.value {} k
      else converted (config.get k.name)) ∧ SameCallbacks {} params := by
  obtain ⟨hkeys, h⟩ := check_bind_eq_ok.mp h
  obtain ⟨hvalues, hsame⟩ := assignAll_ok h (by decide)
  refine ⟨checkKeys_eq_ok.mp hkeys, fun k => (hvalues k).trans ?_, hsame⟩
  simp only [Key.mem_all, true_and]
  split <;> simp_all

end

/-! ## Exact configurations -/

/-- The parameters are those of the configuration: every key is an allowed one, a parameter whose
key is there has the value of its node, and the others have their defaults. -/
structure Represents (config : ConfigMap) (params : Parameters) : Prop where
  allowed : ∀ key ∈ config.keys, key ∈ allowedKeys
  present : ∀ (k : Key) node, config.lookup k.name = some node → params.value k = node
  absent : ∀ k : Key, config.lookup k.name = none → params.value k = Parameters.value {} k
  callbacks : SameCallbacks {} params

/-- A generation overrides a setting of hypre exactly if its key is there with a value that is not
the documented sentinel as it is configured, and then with that value. -/
def Overrides (config : ConfigMap) (params : Parameters) : Prop :=
  ∀ device, ∀ k ∈ Key.settings, ∀ calls, k.calls params device = .ok calls →
    calls = match config.lookup k.name with
      | some node => k.overriding Key.documentedSentinel node
      | none => []

/-- No parameter has an empty node, and the integers of the parameters are values of an `int`. -/
structure Storable (config : ConfigMap) : Prop where
  ne_empty : ∀ k : Key, config.lookup k.name ≠ some .empty
  fits : ∀ (k : Key) value, config.lookup k.name = some (.integer value) → IntFits 32 value

/-- The parameters for which zero, and those for which a negative number stands for hypre's
default. -/
def Key.counts : List Key := [numSweeps, maxLevels, maxCoarseSize]
def Key.weights : List Key := [relaxWeight, strongThreshold]

/-- No integer with a sentinel is negative, and no real with one is NaN. -/
structure PassedOn (config : ConfigMap) : Prop where
  nonneg : ∀ k ∈ Key.counts, ∀ value, config.lookup k.name = some (.integer value) → 0 ≤ value
  not_nan : ∀ k ∈ Key.weights, config.lookup k.name ≠ some (.real .nan)

/-- What is configured reaches hypre as it is. -/
structure Exact (config : ConfigMap) : Prop extends Storable config, PassedOn config

section
variable {mismatch : Error} {config : ConfigMap} {params : Parameters}

theorem converted_eq_iff {node : Pnode} :
    converted node = node ↔ ∀ value, node = .integer value → IntFits 32 value := by
  cases node with
  | integer value => simp [converted, castInt_eq_iff]
  | _ => simp [converted]

theorem Parameters.value_ne_empty (params : Parameters) (k : Key) : params.value k ≠ .empty := by
  cases k <;> simp [Parameters.value]

theorem represents_iff (h : parse mismatch config = .ok params) :
    Represents config params ↔ Storable config := by
  obtain ⟨hkeys, hvalues, hsame⟩ := parse_ok h
  have hpresent : ∀ (k : Key) node, config.lookup k.name = some node →
      (params.value k = node ↔
        node ≠ .empty ∧ ∀ value, node = .integer value → IntFits 32 value) := by
    intro k node hnode
    rw [hvalues, ConfigMap.get, hnode, Option.getD_some, ← converted_eq_iff]
    split
    · next hempty =>
      obtain rfl := Pnode.isEmpty_iff.mp hempty
      simp [Parameters.value_ne_empty]
    · next hempty => simp [mt Pnode.isEmpty_iff.mpr hempty]
  constructor
  · intro hrep
    refine ⟨fun k hk => ?_, fun k value hk => ?_⟩
    · exact ((hpresent k _ hk).mp (hrep.present k _ hk)).1 rfl
    · exact ((hpresent k _ hk).mp (hrep.present k _ hk)).2 value rfl
  · intro hstorable
    refine ⟨hkeys, fun k node hk => (hpresent k node hk).mpr ⟨?_, ?_⟩, fun k hk => ?_, hsame⟩
    · rintro rfl
      exact hstorable.ne_empty k hk
    · rintro value rfl
      exact hstorable.fits k value hk
    · rw [hvalues, ConfigMap.get, hk]
      rfl

theorem overriding_default (k : Key) :
    k.overriding Key.keepsDefault (Parameters.value {} k) = [] := by
  cases k <;> rfl

theorem overriding_eq_iff {sentinel sentinel' : Key → Pnode → Bool} {k : Key} {node : Pnode}
    {c : HypreCall} (hcall : k.call node = some c) :
    k.overriding sentinel node = k.overriding sentinel' node ↔
      sentinel k node = sentinel' k node := by
  rw [Key.overriding, Key.overriding, hcall]
  cases sentinel k node <;> cases sentinel' k node <;> simp

theorem not_nonneg_eq_neg_iff {value : Double} :
    decide (¬ value ≥ 0) = decide (value < 0) ↔ value ≠ .nan := by
  rw [decide_eq_decide, ge_iff_le, Double.not_le_iff]
  constructor
  · rintro h rfl
    exact (h.mp (.inr (.inr rfl))).1.1 rfl
  · intro hne
    exact ⟨fun h => h.resolve_right fun h => h.elim nofun hne, .inl⟩

theorem nonpos_eq_zero_iff {value : ℤ} :
    decide (value ≤ 0) = decide (value = 0) ↔ 0 ≤ value := by
  rw [decide_eq_decide]
  omega

/-- The constructor takes a negative integer and a NaN for sentinels, too. -/
theorem overriding_documented_iff {k : Key} {node : Pnode} :
    k.overriding Key.keepsDefault node = k.overriding Key.documentedSentinel node ↔
      (k ∈ Key.counts → ∀ value, node = .integer value → 0 ≤ value) ∧
        (k ∈ Key.weights → node ≠ .real .nan) := by
  cases k with
  | numSweeps | maxLevels | maxCoarseSize =>
    cases node with
    | integer value =>
      refine (overriding_eq_iff rfl).trans (nonpos_eq_zero_iff.trans ?_)
      simp [Key.counts]
    | _ => exact iff_of_true rfl ⟨by simp, by simp [Key.weights]⟩
  | relaxWeight | strongThreshold =>
    cases node with
    | real value =>
      refine (overriding_eq_iff rfl).trans (not_nonneg_eq_neg_iff.trans ?_)
      simp [Key.weights]
    | _ => exact iff_of_true rfl ⟨by simp [Key.counts], by simp⟩
  | _ => cases node <;> exact iff_of_true rfl ⟨by simp [Key.counts], by simp [Key.weights]⟩

theorem Represents.overriding (h : Represents config params) (k : Key) :
    k.overriding Key.keepsDefault (params.value k) = match config.lookup k.name with
      | some node => k.overriding Key.keepsDefault node
      | none => [] := by
  split
  · next node hnode => rw [h.present k node hnode]
  · next hnone => rw [h.absent k hnone, overriding_default]

/-- What is passed on is what the documentation says, unless a value is one of those that only the
constructor takes for sentinels. -/
theorem Represents.overriding_documented (h : Represents config params) (hpassed : PassedOn config)
    (k : Key) : k.overriding Key.keepsDefault (params.value k) = match config.lookup k.name with
      | some node => k.overriding Key.documentedSentinel node
      | none => [] := by
  rw [h.overriding]
  split
  · next node hnode =>
    refine overriding_documented_iff.mpr ⟨fun hk value hvalue => ?_, fun hk hnan => ?_⟩
    · exact hpassed.nonneg k hk value (hvalue ▸ hnode)
    · exact hpassed.not_nan k hk (hnan ▸ hnode)
  · rfl

/-- The calls for a number never fail. -/
theorem calls_of_number {k : Key} (hk : k ∈ Key.counts ∨ k ∈ Key.weights) (params : Parameters) :
    k ∈ Key.settings ∧ ∃ calls, k.calls params false = .ok calls := by
  cases k <;> first | exact ⟨by decide, _, rfl⟩ | simp [Key.counts, Key.weights] at hk

theorem Represents.overrides_iff (h : Represents config params) :
    Overrides config params ↔ PassedOn config := by
  constructor
  · intro hover
    have hdoc : ∀ (k : Key) node, k ∈ Key.counts ∨ k ∈ Key.weights →
        config.lookup k.name = some node →
        k.overriding Key.keepsDefault node = k.overriding Key.documentedSentinel node := by
      intro k node hk hnode
      obtain ⟨hsettings, calls, hcalls⟩ := calls_of_number hk params
      have heq := (h.overriding k).symm.trans
        ((Key.calls_eq hcalls).symm.trans (hover false k hsettings calls hcalls))
      rwa [hnode] at heq
    refine ⟨fun k hk value hvalue => ?_, fun k hk hnan => ?_⟩
    · exact (overriding_documented_iff.mp (hdoc k _ (.inl hk) hvalue)).1 hk value rfl
    · exact (overriding_documented_iff.mp (hdoc k _ (.inr hk) hnan)).2 hk rfl
  · intro hpassed device k _ calls hcalls
    exact (Key.calls_eq hcalls).trans (h.overriding_documented hpassed k)

/-- An accepted configuration is represented by its parameters, and takes effect in the generation,
exactly if it is an exact one. -/
theorem parse_exact_iff (h : parse mismatch config = .ok params) :
    Represents config params ∧ Overrides config params ↔ Exact config := by
  have hrep := represents_iff h
  constructor
  · rintro ⟨hrepresents, hover⟩
    exact ⟨hrep.mp hrepresents, hrepresents.overrides_iff.mp hover⟩
  · intro hexact
    have hrepresents := hrep.mpr hexact.toStorable
    exact ⟨hrepresents, hrepresents.overrides_iff.mpr hexact.toPassedOn⟩

/-- The calls with which a whole generation configures BoomerAMG, for an exact configuration. -/
theorem configureAmg_exact {V : Type} [Inhabited V] {hypre : Lib V} {device : Bool}
    (h : parse mismatch config = .ok params) (hexact : Exact config)
    (hconfigure : configureAmg hypre params device = .ok ()) :
    ∃ calls, (∀ c ∈ calls ++ fixedCalls params, hypre.check c = .ok ()) ∧
      ∀ k ∈ Key.settings, calls.filter (·.setting = some k) =
        match config.lookup k.name with
        | some node => k.overriding Key.documentedSentinel node
        | none => [] := by
  obtain ⟨calls, hcalls, hcheck⟩ := configureAmg_eq_ok.mp hconfigure
  have hrep := (represents_iff h).mpr hexact.toStorable
  refine ⟨calls, hcheck, fun k hk => ?_⟩
  rw [filter_settingCalls hcalls (by decide) hk]
  exact hrep.overriding_documented hexact.toPassedOn k

end

/-! ## Two configurations -/

/-- A configuration of four keys, two of which have a sentinel. -/
def fourKeys : ConfigMap where
  entries := [("max_iters", .integer 42), ("max_levels", .integer 7),
    ("relax_weight", .real (.finite (1 / 2))), ("type", .string "ext::hypre::solver::Pcg")]
  sorted := by decide

/-- 2^32 levels. -/
def wrappingLevels : ConfigMap where
  entries := [("max_levels", .integer (2 ^ 32))]
  sorted := by decide

theorem parse_exact_iff_fourKeys :
    ∃ params, parse (.invalidState "") fourKeys = .ok params ∧
      (Represents fourKeys params ∧ Overrides fourKeys params) ∧ params.maxLevels = 7 := by
  have h : parse (.invalidState "") fourKeys = .ok
    { maxIters := 42, maxLevels := 7, relaxWeight := .finite (1 / 2) } := rfl
  have hvalue : ∀ (k : Key) value, fourKeys.lookup k.name = some (.integer value) →
      value = 42 ∨ value = 7 := by
    intro k value hk
    cases k <;> simp [fourKeys, ConfigMap.lookup, Key.name, List.lookup_cons] at hk <;> simp [← hk]
  refine ⟨_, h, (parse_exact_iff h).mpr ⟨⟨fun k => ?_, fun k value hk => ?_⟩,
    fun k _ value hk => ?_, fun k hk => ?_⟩, rfl⟩
  · cases k <;> simp [fourKeys, ConfigMap.lookup, Key.name, List.lookup_cons]
  · rcases hvalue k value hk with rfl | rfl
    · decide
    · decide
  · rcases hvalue k value hk with rfl | rfl
    · decide
    · decide
  · cases k <;> simp [fourKeys, ConfigMap.lookup, Key.name, List.lookup_cons]

/-- 2^32 levels are accepted, become 0, and leave hypre's default alone. -/
theorem parse_wraps : ∃ params, parse (.invalidState "") wrappingLevels = .ok params ∧
    wrappingLevels.lookup "max_levels" = some (.integer (2 ^ 32)) ∧ params.maxLevels = 0 ∧
    ¬ Represents wrappingLevels params ∧ ¬ Overrides wrappingLevels params := by
  have h : parse (.invalidState "") wrappingLevels = .ok {} := rfl
  refine ⟨_, h, rfl, rfl, fun hrep => ?_, fun hover => ?_⟩
  · exact absurd (hrep.present .maxLevels _ rfl) (by simp [Parameters.value])
  · exact absurd (hover false .maxLevels (by decide) [] rfl) (by
      simp [wrappingLevels, ConfigMap.lookup, Key.name, Key.overriding, Key.documentedSentinel,
        Key.isSentinel, Key.call])

end GinkgoTpl.Hypre
