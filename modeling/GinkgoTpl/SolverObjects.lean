import Mathlib.Logic.Function.Basic
import GinkgoTpl.Operands
import GinkgoTpl.Transition.Run

/-!
# Solver objects that share a state

`Pcg` and `Ksp` are copied, moved and assigned in the same way: an object shares the state of the
one it is copied from, and a moved-from object has no state and the size 0 x 0. The getters ask
whether there is a state, but the apply does not: it looks at the state as soon as the operands
have one column. `run_safe_iff` says which runs of objects never look at an absent state.
-/

namespace GinkgoTpl

open Spmd Transition

/-! ## Operations on an object -/

/-- How an apply fails: by an exception, or because it dereferences an empty `state_`. -/
inductive Failure where
  | throws (e : Error)
  | dereferencesNull

/-- An apply as its caller makes it: an advanced one comes with `alpha` and `beta`. -/
structure ApplyCall where
  b : LinOp
  x : LinOp
  scalars : Option (LinOp × LinOp)

/-- The dimension checks of `LinOp::apply` let the operands through. -/
def ApplyCall.Conforms (a : ApplyCall) (size : ℕ × ℕ) : Prop :=
  size.2 = a.b.size.1 ∧ size.1 = a.x.size.1 ∧ a.b.size.2 = a.x.size.2 ∧
    ∀ s ∈ a.scalars, s.1.size = (1, 1) ∧ s.2.size = (1, 1)

instance (a : ApplyCall) (size : ℕ × ℕ) : Decidable (a.Conforms size) :=
  inferInstanceAs (Decidable (_ ∧ _ ∧ _ ∧ _))

/-- A class of solvers. -/
structure SolverClass where
  /-- The name in the messages. -/
  name : String
  Parameters : Type
  default : Parameters
  /-- What a move leaves of the parameters. -/
  movedFrom : Parameters → Parameters
  /-- What the copies of an object share. -/
  State : Type
  /-- What the library and the other ranks answer during an apply. -/
  Answers : Type
  /-- How `apply_impl` of an object with a state ends, and the state after it. -/
  applyImpl : Answers → ApplyCall → State → Except Error Unit × State
  /-- What the getters report. -/
  Report : Type
  report : Option State → Report
  /-- Zero, false or nothing from every getter. -/
  zero : Report

/-- An object: its size as a linear operator, and its members. -/
structure SolverObject (C : SolverClass) where
  size : ℕ × ℕ
  parameters : C.Parameters
  state : Option ℕ

/-- `apply_impl` of an object: after the check of the columns it looks at the state. -/
def SolverClass.applyState (C : SolverClass) (answers : C.Answers) (a : ApplyCall) :
    Option C.State → Except Failure Unit × Option C.State
  | some s =>
    let (outcome, s) := C.applyImpl answers a s
    (outcome.mapError .throws, some s)
  | none =>
    (do (checkColumns C.name a.b a.x).mapError .throws
        throw .dereferencesNull, none)

/-! ## The objects of a process -/

structure SolverObjects (C : SolverClass) where
  states : ℕ → C.State
  /-- The number of states so far. -/
  numStates : ℕ
  objects : List (SolverObject C)

namespace SolverObjects

variable {C : SolverClass}

def new (states : ℕ → C.State) : SolverObjects C := ⟨states, 0, []⟩

/-- A generation for a system matrix of `n` rows. -/
def generate (w : SolverObjects C) (n : ℕ) (parameters : C.Parameters) (state : C.State) :
    SolverObjects C where
  states := Function.update w.states w.numStates state
  numStates := w.numStates + 1
  objects := w.objects ++ [⟨(n, n), parameters, some w.numStates⟩]

/-- The object with which copy and move constructors begin. -/
def construct (w : SolverObjects C) : SolverObjects C :=
  { w with objects := w.objects ++ [⟨(0, 0), C.default, none⟩] }

def copyAssign (w : SolverObjects C) (i j : ℕ) : SolverObjects C :=
  if i = j then w
  else
    match w.objects[j]? with
    | some y => { w with objects := w.objects.set i y }
    | none => w

/-- The source keeps no size, no state and what a move leaves of its parameters. -/
def moveAssign (w : SolverObjects C) (i j : ℕ) : SolverObjects C :=
  if i = j then w
  else
    match w.objects[j]? with
    | some y =>
      { w with objects := (w.objects.set i y).set j ⟨(0, 0), C.movedFrom y.parameters, none⟩ }
    | none => w

def copyConstruct (w : SolverObjects C) (j : ℕ) : SolverObjects C :=
  w.construct.copyAssign w.objects.length j

def moveConstruct (w : SolverObjects C) (j : ℕ) : SolverObjects C :=
  w.construct.moveAssign w.objects.length j

/-- The state of an object. -/
def stateOf (w : SolverObjects C) (o : SolverObject C) : Option C.State := o.state.map w.states

/-- `LinOp::apply` on an object, with the exception of its checks. -/
def apply (w : SolverObjects C) (o : SolverObject C) (answers : C.Answers) (a : ApplyCall)
    (nonconforming : Error) : Except Failure Unit × SolverObjects C :=
  if a.Conforms o.size then
    let (outcome, state) := C.applyState answers a (w.stateOf o)
    let states := match o.state, state with
      | some k, some s => Function.update w.states k s
      | _, _ => w.states
    (outcome, { w with states })
  else (.error (.throws nonconforming), w)

end SolverObjects

/-- The operations, with what the getters report and how the applies end. -/
inductive SolverEvent (C : SolverClass) where
  | generate
  | copyConstruct
  | moveConstruct
  | copyAssign
  | moveAssign
  | get (object : ℕ) (report : C.Report)
  | apply (object : ℕ) (call : ApplyCall) (outcome : Except Failure Unit)

inductive SolverStep (C : SolverClass) : SolverObjects C → SolverEvent C → SolverObjects C → Prop
  | generate {w} (n parameters state) : SolverStep C w .generate (w.generate n parameters state)
  | copyConstruct {w j} : j < w.objects.length → SolverStep C w .copyConstruct (w.copyConstruct j)
  | moveConstruct {w j} : j < w.objects.length → SolverStep C w .moveConstruct (w.moveConstruct j)
  | copyAssign {w i j} : i < w.objects.length → j < w.objects.length →
    SolverStep C w .copyAssign (w.copyAssign i j)
  | moveAssign {w i j} : i < w.objects.length → j < w.objects.length →
    SolverStep C w .moveAssign (w.moveAssign i j)
  | get {w i} {o : SolverObject C} : w.objects[i]? = some o →
    SolverStep C w (.get i (C.report (w.stateOf o))) w
  | apply {w i} {o : SolverObject C} (answers a nonconforming) : w.objects[i]? = some o →
    SolverStep C w (.apply i a (w.apply o answers a nonconforming).1)
      (w.apply o answers a nonconforming).2

/-! ## Empty objects -/

namespace SolverObjects

variable {C : SolverClass} {w w' : SolverObjects C} {i j : ℕ}

/-- The object has no state. -/
def Emptied (w : SolverObjects C) (i : ℕ) : Prop := ∃ o, w.objects[i]? = some o ∧ o.state = none

/-- An object without a state has the size 0 x 0. -/
def EmptiedSizes (w : SolverObjects C) : Prop :=
  ∀ o ∈ w.objects, o.state = none → o.size = (0, 0)

theorem generate_emptiedSizes (h : w.EmptiedSizes) (n : ℕ) (parameters : C.Parameters)
    (state : C.State) : (w.generate n parameters state).EmptiedSizes :=
  List.forall_mem_append.mpr ⟨h, List.forall_mem_singleton.mpr (by simp)⟩

theorem construct_emptiedSizes (h : w.EmptiedSizes) : w.construct.EmptiedSizes :=
  List.forall_mem_append.mpr ⟨h, List.forall_mem_singleton.mpr fun _ => rfl⟩

theorem copyAssign_emptiedSizes (h : w.EmptiedSizes) : (w.copyAssign i j).EmptiedSizes := by
  unfold copyAssign
  split
  · exact h
  split
  · rename_i y hy
    intro o ho
    rcases List.mem_or_eq_of_mem_set ho with ho | rfl
    · exact h o ho
    · exact h o (List.mem_of_getElem? hy)
  · exact h

theorem moveAssign_emptiedSizes (h : w.EmptiedSizes) : (w.moveAssign i j).EmptiedSizes := by
  unfold moveAssign
  split
  · exact h
  split
  · rename_i y hy
    intro o ho
    rcases List.mem_or_eq_of_mem_set ho with ho | rfl
    · rcases List.mem_or_eq_of_mem_set ho with ho | rfl
      · exact h o ho
      · exact h o (List.mem_of_getElem? hy)
    · exact fun _ => rfl
  · exact h

theorem apply_objects (w : SolverObjects C) (o : SolverObject C) (answers : C.Answers)
    (a : ApplyCall) (nonconforming : Error) :
    (w.apply o answers a nonconforming).2.objects = w.objects := by
  unfold apply
  split <;> rfl

end SolverObjects

theorem SolverStep.emptiedSizes {C : SolverClass} {w w' : SolverObjects C} {e : SolverEvent C}
    (hstep : SolverStep C w e w') (h : w.EmptiedSizes) : w'.EmptiedSizes := by
  cases hstep with
  | generate => exact SolverObjects.generate_emptiedSizes h _ _ _
  | copyConstruct =>
    exact SolverObjects.copyAssign_emptiedSizes (SolverObjects.construct_emptiedSizes h)
  | moveConstruct =>
    exact SolverObjects.moveAssign_emptiedSizes (SolverObjects.construct_emptiedSizes h)
  | copyAssign => exact SolverObjects.copyAssign_emptiedSizes h
  | moveAssign => exact SolverObjects.moveAssign_emptiedSizes h
  | get => exact h
  | apply =>
    intro o ho
    rw [SolverObjects.apply_objects] at ho
    exact h o ho

/-! ## Looking at an absent state -/

section
variable {C : SolverClass} {w w' : SolverObjects C} {e : SolverEvent C}

/-- No empty `state_` is dereferenced: getters of an object without a state report zero, false or
nothing, and an apply on one throws. -/
def SafeStep : SolverObjects C × SolverEvent C × SolverObjects C → Prop
  | (w, .get i report, _) => w.Emptied i → report = C.zero
  | (w, .apply i _ outcome, _) => outcome ≠ .error .dereferencesNull ∧
    (w.Emptied i → ∃ e, outcome = .error (.throws e))
  | _ => True

/-- An object without a state is applied to operands of one column that conform to its size. -/
def AppliesEmptied : SolverObjects C × SolverEvent C × SolverObjects C → Prop
  | (w, .apply i a _, _) => w.Emptied i ∧ a.Conforms (0, 0) ∧ a.b.size.2 = 1
  | _ => False

/-- With a state, an apply returns or throws. -/
theorem SolverClass.applyState_some (answers : C.Answers) (a : ApplyCall) (s : C.State) :
    (C.applyState answers a (some s)).1 ≠ .error .dereferencesNull := by
  simp only [SolverClass.applyState]
  cases (C.applyImpl answers a s).1 <;> simp [Except.mapError]

/-- Without a state, an apply throws unless `b` has one column. -/
theorem SolverClass.applyState_none (answers : C.Answers) (a : ApplyCall) :
    a.b.size.2 = 1 ∧ (C.applyState answers a none).1 = .error .dereferencesNull ∨
      a.b.size.2 ≠ 1 ∧ ∃ e, (C.applyState answers a none).1 = .error (.throws e) := by
  by_cases hcols : a.b.size.2 = 1
  · refine .inl ⟨hcols, ?_⟩
    simp only [SolverClass.applyState, checkColumns, hcols]
    rfl
  · refine .inr ⟨hcols, dimensionMismatch "b" a.b.size "x" a.x.size
      (C.name ++ " supports only a single right-hand side"), ?_⟩
    simp only [SolverClass.applyState, checkColumns, if_pos hcols]
    rfl

theorem SolverStep.safe_iff (hzero : C.report none = C.zero) (hstep : SolverStep C w e w')
    (h : w.EmptiedSizes) : SafeStep (w, e, w') ↔ ¬ AppliesEmptied (w, e, w') := by
  cases hstep with
  | generate | copyConstruct | moveConstruct | copyAssign | moveAssign => simp [SafeStep,
    AppliesEmptied]
  | get hi =>
    simp only [SafeStep, AppliesEmptied, not_false_eq_true, iff_true]
    rintro ⟨o, ho, hstate⟩
    cases hi.symm.trans ho
    rw [SolverObjects.stateOf, hstate]
    exact hzero
  | @apply i o answers a nonconforming hi =>
    have hemptied : w.Emptied i ↔ o.state = none := by
      constructor
      · rintro ⟨o', ho', hstate⟩
        cases hi.symm.trans ho'
        exact hstate
      · exact fun hstate => ⟨o, hi, hstate⟩
    have hsize : o.state = none → o.size = (0, 0) := h o (List.mem_of_getElem? hi)
    simp only [SafeStep, AppliesEmptied, hemptied, SolverObjects.apply]
    by_cases hconforms : a.Conforms o.size
    case neg =>
      rw [if_neg hconforms]
      refine iff_of_true ⟨by simp, fun _ => ⟨nonconforming, rfl⟩⟩ ?_
      rintro ⟨hstate, hconforms', -⟩
      exact hconforms (hsize hstate ▸ hconforms')
    rw [if_pos hconforms]
    cases hstate : o.state with
    | some k =>
      refine iff_of_true ⟨?_, by simp⟩ (by simp)
      rw [SolverObjects.stateOf, hstate]
      exact C.applyState_some answers a (w.states k)
    | none =>
      rw [hsize hstate] at hconforms
      simp only [SolverObjects.stateOf, hstate, Option.map_none, true_and, forall_const, hconforms]
      rcases C.applyState_none answers a with ⟨hcols, hout⟩ | ⟨hcols, e, hout⟩
      · simp [hout, hcols]
      · simp [hout, hcols]

variable {tr : List (SolverObjects C × SolverEvent C × SolverObjects C)}

/-- A run never looks at an absent state exactly if it applies no object without a state to
operands of one column that conform to its size. -/
theorem run_safe_iff {states : ℕ → C.State} (hzero : C.report none = C.zero)
    (h : Run (SolverStep C) (.new states) tr w) :
    (∀ t ∈ tr, SafeStep t) ↔ ∀ t ∈ tr, ¬ AppliesEmptied t := by
  have hnew : (SolverObjects.new states : SolverObjects C).EmptiedSizes := by
    simp [SolverObjects.EmptiedSizes, SolverObjects.new]
  refine forall₂_congr fun t ht => ?_
  obtain ⟨hstep, hsizes⟩ := h.invariant_mem hnew (fun _ _ _ _ hstep => hstep.emptiedSizes) ht
  exact hstep.safe_iff hzero hsizes

end

end GinkgoTpl
