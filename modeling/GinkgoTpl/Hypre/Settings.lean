import GinkgoTpl.Ginkgo.Pnode
import GinkgoTpl.Hypre.Pcg

/-!
# The settings of BoomerAMG

Eight of the scalar parameters of `solver::Pcg` have a value that leaves hypre's default alone. A
generation calls the setter of such a parameter for its other values only, and passes the value on
(`Key.calls_eq`); `configureAmg` makes exactly these calls and three more (`configureAmg_eq_ok`).
-/

namespace GinkgoTpl.Hypre

open Ginkgo

/-- The parameters that a configuration can set, in the order of `parse`. -/
inductive Key where
  | tolerance
  | maxIters
  | twoNorm
  | coarsenType
  | interpType
  | relaxType
  | relaxWeight
  | numSweeps
  | maxLevels
  | maxCoarseSize
  | strongThreshold
  | printStatistics
  deriving DecidableEq

/-- The value of a parameter, as a node that holds it. -/
def Parameters.value (params : Parameters) : Key → Pnode
  | .tolerance => .real params.tolerance
  | .maxIters => .integer params.maxIters
  | .twoNorm => .boolean params.twoNorm
  | .coarsenType => .string params.coarsenType
  | .interpType => .string params.interpType
  | .relaxType => .string params.relaxType
  | .relaxWeight => .real params.relaxWeight
  | .numSweeps => .integer params.numSweeps
  | .maxLevels => .integer params.maxLevels
  | .maxCoarseSize => .integer params.maxCoarseSize
  | .strongThreshold => .real params.strongThreshold
  | .printStatistics => .boolean params.printStatistics

namespace Key

/-- The parameters with a setter of BoomerAMG and a sentinel, in the order of the setters. -/
def settings : List Key :=
  [coarsenType, interpType, relaxType, relaxWeight, numSweeps, maxLevels, maxCoarseSize,
    strongThreshold]

/-- The names, reals and integers that are not passed on: the empty name, and those that `real` and
`int` select. -/
def isSentinel (real : Double → Bool) (int : ℤ → Bool) : Key → Pnode → Bool
  | coarsenType, .string name | interpType, .string name | relaxType, .string name => name.isEmpty
  | relaxWeight, .real value | strongThreshold, .real value => real value
  | numSweeps, .integer value | maxLevels, .integer value | maxCoarseSize, .integer value =>
    int value
  | _, _ => false

/-- What the constructor does not pass on. -/
def keepsDefault : Key → Pnode → Bool := isSentinel (fun value => ¬ value ≥ 0) (· ≤ 0)

/-- What the documentation of the parameters names: a real is negative, an integer is zero. -/
def documentedSentinel : Key → Pnode → Bool := isSentinel (· < 0) (· = 0)

/-- The call of hypre that sets a parameter to the value of a node. -/
def call : Key → Pnode → Option HypreCall
  | coarsenType, .string name => (coarsenTypes.lookup name).map .amgSetCoarsenType
  | interpType, .string name => (interpTypes.lookup name).map .amgSetInterpType
  | relaxType, .string name => (relaxTypes.lookup name).map .amgSetRelaxType
  | relaxWeight, .real weight => some (.amgSetRelaxWt weight)
  | numSweeps, .integer num => some (.amgSetNumSweeps num)
  | maxLevels, .integer num => some (.amgSetMaxLevels num)
  | maxCoarseSize, .integer size => some (.amgSetMaxCoarseSize size)
  | strongThreshold, .real threshold => some (.amgSetStrongThreshold threshold)
  | _, _ => none

/-- The calls that override a setting: none for a sentinel. -/
def overriding (sentinel : Key → Pnode → Bool) (k : Key) (node : Pnode) : List HypreCall :=
  if sentinel k node then [] else (k.call node).toList

end Key

/-- The setting that a call overrides. -/
def HypreCall.setting : HypreCall → Option Key
  | amgSetCoarsenType _ => some .coarsenType
  | amgSetInterpType _ => some .interpType
  | amgSetRelaxType _ => some .relaxType
  | amgSetRelaxWt _ => some .relaxWeight
  | amgSetNumSweeps _ => some .numSweeps
  | amgSetMaxLevels _ => some .maxLevels
  | amgSetMaxCoarseSize _ => some .maxCoarseSize
  | amgSetStrongThreshold _ => some .strongThreshold
  | _ => none

/-! ## The calls of a generation -/

/-- The call that `checkNamed` checks, if there is one. -/
def namedCall (name : String) (typeId : String → Except Error ℤ) (call : ℤ → HypreCall) :
    Except Error (List HypreCall) :=
  if name.isEmpty then .ok []
  else do
    let type ← typeId name
    return [call type]

/-- The call that `checkRelaxType` checks, if there is one. -/
def relaxTypeCall (relaxType : String) (device : Bool) : Except Error (List HypreCall) :=
  if relaxType.isEmpty then .ok []
  else do
    let type ← relaxTypeId relaxType
    if device ∧ !relaxTypeRunsOnDevice type then .error (relaxTypeError relaxType)
    else return [.amgSetRelaxType type]

/-- The calls of a generation for one parameter. -/
def Key.calls (params : Parameters) (device : Bool) : Key → Except Error (List HypreCall)
  | coarsenType => namedCall params.coarsenType coarsenTypeId .amgSetCoarsenType
  | interpType => namedCall params.interpType interpTypeId .amgSetInterpType
  | relaxType => relaxTypeCall params.relaxType device
  | relaxWeight => .ok (if params.relaxWeight ≥ 0 then [.amgSetRelaxWt params.relaxWeight] else [])
  | numSweeps => .ok (if params.numSweeps > 0 then [.amgSetNumSweeps params.numSweeps] else [])
  | maxLevels => .ok (if params.maxLevels > 0 then [.amgSetMaxLevels params.maxLevels] else [])
  | maxCoarseSize =>
    .ok (if params.maxCoarseSize > 0 then [.amgSetMaxCoarseSize params.maxCoarseSize] else [])
  | strongThreshold =>
    .ok (if params.strongThreshold ≥ 0 then [.amgSetStrongThreshold params.strongThreshold] else [])
  | _ => .ok []

/-- The calls of a generation for several parameters. -/
def settingCalls (params : Parameters) (device : Bool) : List Key → Except Error (List HypreCall)
  | [] => .ok []
  | k :: ks => do
    let calls ← k.calls params device
    let rest ← settingCalls params device ks
    return calls ++ rest

/-- The calls for every generation. -/
def fixedCalls (params : Parameters) : List HypreCall :=
  [.amgSetPrintLevel (if params.printStatistics then 3 else 0), .amgSetTol 0, .amgSetMaxIter 1]

section
variable {V : Type} [Inhabited V] {hypre : Lib V} {params : Parameters} {device : Bool}

/-- hypre takes the calls for a parameter. -/
def Key.Accepted (hypre : Lib V) (params : Parameters) (device : Bool) (k : Key) : Prop :=
  ∃ calls, k.calls params device = .ok calls ∧ ∀ c ∈ calls, hypre.check c = .ok ()

theorem check_bind_eq_ok {α : Type} {x : Except Error Unit} {f : Unit → Except Error α} {a : α} :
    (x >>= f) = .ok a ↔ x = .ok () ∧ f () = .ok a := by
  cases x <;> simp

theorem checkIf_eq_ok {p : Prop} [Decidable p] {call : HypreCall} :
    checkIf hypre p call = .ok () ↔ ∃ calls,
      (.ok (if p then [call] else []) : Except Error _) = .ok calls ∧
        ∀ c ∈ calls, hypre.check c = .ok () := by
  rw [checkIf]
  split <;> simp_all

theorem checkNamed_eq_ok {name : String} {typeId : String → Except Error ℤ}
    {call : ℤ → HypreCall} :
    checkNamed hypre name typeId call = .ok () ↔
      ∃ calls, namedCall name typeId call = .ok calls ∧ ∀ c ∈ calls, hypre.check c = .ok () := by
  rw [checkNamed, namedCall]
  split
  · simp
  · cases typeId name <;> simp [pure, Except.pure]

theorem checkRelaxType_eq_ok {relaxType : String} :
    checkRelaxType hypre relaxType device = .ok () ↔
      ∃ calls, relaxTypeCall relaxType device = .ok calls ∧
        ∀ c ∈ calls, hypre.check c = .ok () := by
  rw [checkRelaxType, relaxTypeCall]
  split
  · simp
  · cases relaxTypeId relaxType with
    | error e => simp
    | ok type =>
      rw [ok_bind, ok_bind]
      split <;> simp [pure, Except.pure]

theorem settingCalls_eq_ok {ks : List Key} :
    (∃ calls, settingCalls params device ks = .ok calls ∧ ∀ c ∈ calls, hypre.check c = .ok ()) ↔
      ∀ k ∈ ks, k.Accepted hypre params device := by
  induction ks with
  | nil => simp [settingCalls]
  | cons k ks ih =>
    rw [List.forall_mem_cons, ← ih]
    simp only [settingCalls, bind_eq_ok]
    constructor
    · rintro ⟨_, ⟨calls, hk, rest, hrest, ⟨⟩⟩, hcheck⟩
      obtain ⟨hcalls, hrests⟩ := List.forall_mem_append.mp hcheck
      exact ⟨⟨calls, hk, hcalls⟩, rest, hrest, hrests⟩
    · rintro ⟨⟨calls, hk, hcalls⟩, rest, hrest, hrests⟩
      exact ⟨_, ⟨calls, hk, rest, hrest, rfl⟩, List.forall_mem_append.mpr ⟨hcalls, hrests⟩⟩

/-- A generation configures BoomerAMG with the calls of its settings and the fixed ones. -/
theorem configureAmg_eq_ok :
    configureAmg hypre params device = .ok () ↔
      ∃ calls, settingCalls params device Key.settings = .ok calls ∧
        ∀ c ∈ calls ++ fixedCalls params, hypre.check c = .ok () := by
  have hsplit : (∃ calls, settingCalls params device Key.settings = .ok calls ∧
      ∀ c ∈ calls ++ fixedCalls params, hypre.check c = .ok ()) ↔
      (∀ k ∈ Key.settings, k.Accepted hypre params device) ∧
        ∀ c ∈ fixedCalls params, hypre.check c = .ok () := by
    simp only [List.forall_mem_append, ← and_assoc, exists_and_right, settingCalls_eq_ok]
  rw [hsplit]
  simp only [configureAmg, check_bind_eq_ok, checkNamed_eq_ok, checkRelaxType_eq_ok, checkIf_eq_ok,
    Key.settings, Key.Accepted, Key.calls, fixedCalls, List.forall_mem_cons, List.not_mem_nil,
    false_imp_iff, implies_true, and_true, and_assoc]

theorem lookup_eq_ok {types : List (String × ℤ)} {name what : String} {type : ℤ} :
    lookup types name what = .ok type ↔ types.lookup name = some type := by
  rw [lookup]
  cases types.lookup name <;> simp

theorem namedCall_eq {types : List (String × ℤ)} {name what : String} {call : ℤ → HypreCall}
    {calls : List HypreCall}
    (h : namedCall name (fun name => lookup types name what) call = .ok calls) :
    calls = if name.isEmpty then [] else ((types.lookup name).map call).toList := by
  rw [namedCall] at h
  split at h
  · next hempty => cases h; rw [if_pos hempty]
  · next hempty =>
    obtain ⟨type, htype, ⟨⟩⟩ := bind_eq_ok.mp h
    rw [if_neg hempty, lookup_eq_ok.mp htype]
    rfl

theorem relaxTypeCall_eq {relaxType : String} {calls : List HypreCall}
    (h : relaxTypeCall relaxType device = .ok calls) :
    calls = if relaxType.isEmpty then []
      else ((relaxTypes.lookup relaxType).map .amgSetRelaxType).toList := by
  rw [relaxTypeCall] at h
  split at h
  · next hempty => cases h; rw [if_pos hempty]
  · next hempty =>
    obtain ⟨type, htype, h⟩ := bind_eq_ok.mp h
    split at h
    · cases h
    · cases h
      rw [if_neg hempty, lookup_eq_ok.mp htype]
      rfl

theorem call_unless {p q : Prop} [Decidable p] [Decidable q] (h : p ↔ ¬ q) (c : HypreCall) :
    (if p then [c] else []) = if decide q then [] else (some c).toList := by
  by_cases hq : q <;> simp [h, hq]

/-- The calls for a parameter pass its value on unless that is a sentinel. -/
theorem Key.calls_eq {k : Key} {calls : List HypreCall} (h : k.calls params device = .ok calls) :
    calls = k.overriding keepsDefault (params.value k) := by
  cases k with
  | coarsenType | interpType => exact namedCall_eq h
  | relaxType => exact relaxTypeCall_eq h
  | relaxWeight | strongThreshold => cases h; exact call_unless not_not.symm _
  | numSweeps | maxLevels | maxCoarseSize => cases h; exact call_unless not_le.symm _
  | tolerance | maxIters | twoNorm | printStatistics => cases h; rfl

theorem Key.setting_of_mem_overriding {sentinel : Key → Pnode → Bool} {k : Key} {node : Pnode}
    {c : HypreCall} (hc : c ∈ k.overriding sentinel node) : c.setting = some k := by
  rw [overriding] at hc
  split at hc
  · cases hc
  · rw [Option.mem_toList] at hc
    unfold call at hc
    split at hc <;> simp at hc <;> grind [HypreCall.setting]

theorem filter_overriding {sentinel : Key → Pnode → Bool} {k : Key} {node : Pnode} (k' : Key) :
    (k.overriding sentinel node).filter (·.setting = some k') =
      if k = k' then k.overriding sentinel node else [] := by
  split
  · next heq =>
    refine List.filter_eq_self.mpr fun c hc => ?_
    simp [Key.setting_of_mem_overriding hc, heq]
  · next hne =>
    refine List.filter_eq_nil_iff.mpr fun c hc => ?_
    simp [Key.setting_of_mem_overriding hc, hne]

theorem filter_settingCalls_of_not_mem {ks : List Key} {calls : List HypreCall} {k : Key}
    (h : settingCalls params device ks = .ok calls) (hk : k ∉ ks) :
    calls.filter (·.setting = some k) = [] := by
  induction ks generalizing calls with
  | nil => cases h; rfl
  | cons k' ks ih =>
    obtain ⟨calls, hcalls, h⟩ := bind_eq_ok.mp h
    obtain ⟨rest, hrest, ⟨⟩⟩ := bind_eq_ok.mp h
    obtain ⟨hne, hk⟩ := not_or.mp (List.mem_cons.not.mp hk)
    rw [List.filter_append, ih hrest hk, Key.calls_eq hcalls, filter_overriding,
      if_neg (Ne.symm hne)]
    rfl

/-- In a whole generation, a setting is overridden with the value of its parameter, and only
then. -/
theorem filter_settingCalls {ks : List Key} {calls : List HypreCall} {k : Key}
    (h : settingCalls params device ks = .ok calls) (hks : ks.Nodup) (hk : k ∈ ks) :
    calls.filter (·.setting = some k) = k.overriding Key.keepsDefault (params.value k) := by
  induction ks generalizing calls with
  | nil => cases hk
  | cons k' ks ih =>
    obtain ⟨calls, hcalls, h⟩ := bind_eq_ok.mp h
    obtain ⟨rest, hrest, ⟨⟩⟩ := bind_eq_ok.mp h
    obtain ⟨hnot, hks⟩ := List.nodup_cons.mp hks
    rw [List.filter_append, Key.calls_eq hcalls, filter_overriding]
    split
    · next heq =>
      subst heq
      rw [filter_settingCalls_of_not_mem hrest hnot, List.append_nil]
    · next hne =>
      rw [List.nil_append, ih hrest hks ((List.mem_cons.mp hk).resolve_left (Ne.symm hne))]

end

end GinkgoTpl.Hypre
