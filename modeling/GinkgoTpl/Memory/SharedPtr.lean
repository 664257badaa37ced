import Mathlib.Data.List.Perm.Basic
import Mathlib.Logic.Function.Basic

/-!
# Shared pointers

Pointers that share their targets, with a count for each target, as `std::shared_ptr` keeps it: the
operation after which the count is zero destroys the target. The counts are those of the pointers
(`Counted`), so an operation destroys exactly what it leaves without a pointer
(`PtrOp.perform_drops`).
-/

namespace GinkgoTpl.Memory

/-- Pointers to numbered targets; an empty pointer has none. -/
structure SharedPtrs where
  targets : List (Option ℕ)
  useCount : ℕ → ℕ

/-- One pointer more. -/
def addOwner (useCount : ℕ → ℕ) : Option ℕ → ℕ → ℕ
  | none => useCount
  | some k => Function.update useCount k (useCount k + 1)

/-- One pointer less, and the target if that was its last one. -/
def dropOwner (useCount : ℕ → ℕ) : Option ℕ → (ℕ → ℕ) × Option ℕ
  | none => (useCount, none)
  | some k => (Function.update useCount k (useCount k - 1), if useCount k = 1 then some k else none)

namespace SharedPtrs

def new : SharedPtrs := ⟨[], fun _ => 0⟩

/-- The first pointer to the new target `k`. -/
def make (w : SharedPtrs) (k : ℕ) : SharedPtrs :=
  ⟨w.targets ++ [some k], Function.update w.useCount k 1⟩

/-- A new empty pointer. -/
def construct (w : SharedPtrs) : SharedPtrs := { w with targets := w.targets ++ [none] }

/-- Stores a pointer that is already counted, and drops the one that is there. -/
def store (w : SharedPtrs) (i : ℕ) (p : Option ℕ) : SharedPtrs × Option ℕ :=
  match w.targets[i]? with
  | some old =>
    let (useCount, dropped) := dropOwner w.useCount old
    (⟨w.targets.set i p, useCount⟩, dropped)
  | none => (w, none)

/-- Nothing happens to a pointer that is assigned to itself. -/
def copyAssign (w : SharedPtrs) (i j : ℕ) : SharedPtrs × Option ℕ :=
  if i = j then (w, none)
  else
    match w.targets[j]? with
    | some p => { w with useCount := addOwner w.useCount p }.store i p
    | none => (w, none)

/-- The source is empty afterwards. -/
def moveAssign (w : SharedPtrs) (i j : ℕ) : SharedPtrs × Option ℕ :=
  if i = j then (w, none)
  else
    match w.targets[j]? with
    | some p => { w with targets := w.targets.set j none }.store i p
    | none => (w, none)

def copyConstruct (w : SharedPtrs) (j : ℕ) : SharedPtrs × Option ℕ :=
  w.construct.copyAssign w.targets.length j

def moveConstruct (w : SharedPtrs) (j : ℕ) : SharedPtrs × Option ℕ :=
  w.construct.moveAssign w.targets.length j

def destroy (w : SharedPtrs) (i : ℕ) : SharedPtrs × Option ℕ :=
  match w.targets[i]? with
  | some old =>
    let (useCount, dropped) := dropOwner w.useCount old
    (⟨w.targets.eraseIdx i, useCount⟩, dropped)
  | none => (w, none)

end SharedPtrs

/-- The operations that make no target. -/
inductive PtrOp where
  | copyConstruct (j : ℕ)
  | moveConstruct (j : ℕ)
  | copyAssign (i j : ℕ)
  | moveAssign (i j : ℕ)
  | destroy (i : ℕ)
  deriving DecidableEq

namespace PtrOp

/-- The pointers after the operation, and the target that it destroys. -/
def perform (w : SharedPtrs) : PtrOp → SharedPtrs × Option ℕ
  | copyConstruct j => w.copyConstruct j
  | moveConstruct j => w.moveConstruct j
  | copyAssign i j => w.copyAssign i j
  | moveAssign i j => w.moveAssign i j
  | destroy i => w.destroy i

/-- The pointers that the operation is about exist. -/
def Valid (w : SharedPtrs) : PtrOp → Prop
  | copyConstruct j | moveConstruct j => j < w.targets.length
  | copyAssign i j | moveAssign i j => i < w.targets.length ∧ j < w.targets.length
  | destroy i => i < w.targets.length

instance (w : SharedPtrs) (op : PtrOp) : Decidable (op.Valid w) := by
  cases op <;> unfold Valid <;> infer_instance

end PtrOp

/-! ## Counts -/

namespace SharedPtrs

/-- The counts are right. -/
def Counted (w : SharedPtrs) : Prop := ∀ k, w.useCount k = w.targets.count (some k)

/-- The counts are right if the pointer `p`, which is in hand, is counted as well. -/
def CountedWith (w : SharedPtrs) (p : Option ℕ) : Prop :=
  ∀ k, w.useCount k = (p :: w.targets).count (some k)

/-- There is a pointer to the target. -/
def PointsTo (w : SharedPtrs) (k : ℕ) : Prop := some k ∈ w.targets

instance (w : SharedPtrs) (k : ℕ) : Decidable (w.PointsTo k) :=
  inferInstanceAs (Decidable (some k ∈ w.targets))

/-- From `w` to `out.1`, the counts stay right, no target gets its first pointer, and exactly the
ones that lose their last pointer are destroyed. -/
structure Drops (w : SharedPtrs) (out : SharedPtrs × Option ℕ) : Prop where
  counted : out.1.Counted
  pointsTo : ∀ k, out.1.PointsTo k → w.PointsTo k
  dropped : ∀ k, out.2 = some k ↔ w.PointsTo k ∧ ¬ out.1.PointsTo k

variable {w w' : SharedPtrs} {p old : Option ℕ} {i j k : ℕ}

theorem Counted.drops_self (h : w.Counted) : w.Drops (w, none) :=
  ⟨h, fun _ => id, by simp⟩

theorem new_counted : new.Counted := by simp [Counted, new]

theorem Counted.construct (h : w.Counted) : w.construct.Counted := by
  intro k
  simp [SharedPtrs.construct, h k]

@[simp] theorem construct_pointsTo : w.construct.PointsTo k ↔ w.PointsTo k := by
  simp [SharedPtrs.construct, PointsTo]

@[simp] theorem make_pointsTo {k' : ℕ} : (w.make k).PointsTo k' ↔ w.PointsTo k' ∨ k' = k := by
  simp [make, PointsTo]

theorem Counted.make (h : w.Counted) (hk : ¬ w.PointsTo k) : (w.make k).Counted := by
  intro k'
  by_cases hk' : k' = k
  · subst hk'
    simp [SharedPtrs.make, List.count_append, List.count_eq_zero.mpr hk]
  · have hne : k ≠ k' := Ne.symm hk'
    simp [SharedPtrs.make, List.count_append, Function.update_of_ne hk', h k', hne]

theorem Counted.addOwner (h : w.Counted) (p : Option ℕ) :
    CountedWith { w with useCount := addOwner w.useCount p } p := by
  intro k
  cases p with
  | none => simpa [Memory.addOwner] using h k
  | some k' =>
    by_cases hk : k = k'
    · subst hk
      simp [Memory.addOwner, h k]
    · have hne : k' ≠ k := Ne.symm hk
      simp [Memory.addOwner, Function.update_of_ne hk, h k, hne]

/-- The pointer at `j` is taken out. -/
theorem Counted.take (h : w.Counted) (hj : w.targets[j]? = some p) :
    CountedWith { w with targets := w.targets.set j none } p := by
  obtain ⟨hlt, rfl⟩ := List.getElem?_eq_some_iff.mp hj
  intro k
  have hperm := (List.getElem_cons_eraseIdx_perm hlt).count_eq (some k)
  have hset := (List.set_perm_cons_eraseIdx hlt none).count_eq (some k)
  rw [List.count_cons] at hperm ⊢
  simp only [hset, h k, List.count_cons_of_ne (by simp : (none : Option ℕ) ≠ some k)]
  omega

/-- A pointer less: the rest is counted, and the target is destroyed if it is not in the rest. -/
theorem dropOwner_spec {useCount : ℕ → ℕ} {rest : List (Option ℕ)}
    (h : ∀ k, useCount k = (old :: rest).count (some k)) :
    (∀ k, (dropOwner useCount old).1 k = rest.count (some k)) ∧
      ∀ k, (dropOwner useCount old).2 = some k ↔ old = some k ∧ some k ∉ rest := by
  cases old with
  | none => exact ⟨fun k => by simpa [dropOwner] using h k, by simp [dropOwner]⟩
  | some k' =>
    refine ⟨fun k => ?_, fun k => ?_⟩
    · by_cases hk : k = k'
      · subst hk
        simp [dropOwner, h k]
      · have hne : k' ≠ k := Ne.symm hk
        simp [dropOwner, Function.update_of_ne hk, h k, hne]
    · have hcount := h k'
      rw [List.count_cons_self] at hcount
      by_cases hrest : some k' ∈ rest
      · have := List.count_pos_iff.mpr hrest
        simp only [dropOwner, show useCount k' ≠ 1 by omega, if_false]
        refine iff_of_false (by simp) ?_
        rintro ⟨h', hn⟩
        exact hn (h' ▸ hrest)
      · rw [List.count_eq_zero.mpr hrest] at hcount
        simp only [dropOwner, hcount, Nat.zero_add, if_true, Option.some.injEq]
        exact ⟨fun h' => ⟨h', h' ▸ hrest⟩, fun h' => h'.1⟩

/-- Storing a pointer that is in hand. -/
theorem CountedWith.store (h : w.CountedWith p) (hi : i < w.targets.length) :
    (w.store i p).1.Counted ∧
      (∀ k, (w.store i p).1.PointsTo k → w.PointsTo k ∨ p = some k) ∧
      ∀ k, (w.store i p).2 = some k ↔ w.PointsTo k ∧ ¬ (w.store i p).1.PointsTo k := by
  have hold : w.targets[i]? = some w.targets[i] := List.getElem?_eq_getElem hi
  have hbefore := List.getElem_cons_eraseIdx_perm hi
  have hafter := List.set_perm_cons_eraseIdx hi p
  have hcount : ∀ k, w.useCount k =
      (w.targets[i] :: p :: w.targets.eraseIdx i).count (some k) := by
    intro k
    rw [h k, ((List.Perm.swap ..).trans (hbefore.cons p)).count_eq]
  obtain ⟨hcounted, hdropped⟩ := dropOwner_spec hcount
  simp only [SharedPtrs.store, hold, Counted, PointsTo, hafter.count_eq, hafter.mem_iff]
  refine ⟨hcounted, fun k hk => ?_, fun k => ?_⟩
  · rcases List.mem_cons.mp hk with hk | hk
    · exact .inr hk.symm
    · exact .inl (hbefore.mem_iff.mp (List.mem_cons_of_mem _ hk))
  · rw [hdropped k, ← hbefore.mem_iff]
    constructor
    · rintro ⟨htarget, hrest⟩
      exact ⟨htarget ▸ List.mem_cons_self, hrest⟩
    · rintro ⟨hmem, hrest⟩
      refine ⟨?_, hrest⟩
      rcases List.mem_cons.mp hmem with hk | hk
      · exact hk.symm
      · exact absurd (List.mem_cons_of_mem _ hk) hrest

theorem copyAssign_drops (h : w.Counted) (hi : i < w.targets.length) :
    w.Drops (w.copyAssign i j) := by
  unfold copyAssign
  split
  · exact h.drops_self
  split
  · rename_i p hj
    obtain ⟨hcounted, hpoints, hdropped⟩ := (h.addOwner p).store hi
    refine ⟨hcounted, fun k hk => ?_, hdropped⟩
    rcases hpoints k hk with hk | rfl
    · exact hk
    · exact List.mem_of_getElem? hj
  · exact h.drops_self

theorem moveAssign_drops (h : w.Counted) (hi : i < w.targets.length) :
    w.Drops (w.moveAssign i j) := by
  unfold moveAssign
  split
  · exact h.drops_self
  rename_i hne
  split
  · rename_i p hj
    have hlt : j < w.targets.length := (List.getElem?_eq_some_iff.mp hj).1
    -- without the pointer at `j`
    let w₁ : SharedPtrs := { w with targets := w.targets.set j none }
    have hi₁ : i < w₁.targets.length := by simpa [w₁] using hi
    obtain ⟨hcounted, hpoints, hdropped⟩ := (h.take hj).store hi₁
    have htaken : ∀ k, w.PointsTo k ↔ w₁.PointsTo k ∨ p = some k := by
      intro k
      have hbefore := (List.getElem_cons_eraseIdx_perm hlt).mem_iff (a := some k)
      have hafter := (List.set_perm_cons_eraseIdx hlt none).mem_iff (a := some k)
      rw [(List.getElem?_eq_some_iff.mp hj).2] at hbefore
      simp only [PointsTo, w₁, ← hbefore, hafter, List.mem_cons, reduceCtorEq, false_or, or_comm,
        eq_comm (a := some k)]
    have hstored : ∀ k, p = some k → (w₁.store i p).1.PointsTo k := by
      rintro k rfl
      simp only [SharedPtrs.store, List.getElem?_eq_getElem hi₁, PointsTo]
      exact List.mem_set hi₁ _
    refine ⟨hcounted, fun k hk => (htaken k).mpr (hpoints k hk), fun k => ?_⟩
    rw [hdropped k, htaken k]
    exact ⟨fun ⟨hk, hn⟩ => ⟨.inl hk, hn⟩,
      fun ⟨hk, hn⟩ => ⟨hk.resolve_right fun hp => hn (hstored k hp), hn⟩⟩
  · exact h.drops_self

theorem destroy_drops (h : w.Counted) (hi : i < w.targets.length) : w.Drops (w.destroy i) := by
  have hbefore := List.getElem_cons_eraseIdx_perm hi
  obtain ⟨hcounted, hdropped⟩ := dropOwner_spec fun k => (h k).trans (hbefore.count_eq _).symm
  simp only [SharedPtrs.destroy, List.getElem?_eq_getElem hi]
  refine ⟨hcounted, fun k hk => hbefore.mem_iff.mp (List.mem_cons_of_mem _ hk), fun k => ?_⟩
  simp only [PointsTo, ← hbefore.mem_iff (a := some k), List.mem_cons]
  rw [hdropped k, eq_comm]
  exact ⟨fun ⟨hk, hn⟩ => ⟨.inl hk, hn⟩, fun ⟨hk, hn⟩ => ⟨hk.resolve_right hn, hn⟩⟩

/-- An empty pointer more makes no difference. -/
theorem Drops.of_construct {out : SharedPtrs × Option ℕ} (h : w.construct.Drops out) :
    w.Drops out :=
  ⟨h.counted, fun k hk => construct_pointsTo.mp (h.pointsTo k hk),
    fun k => (h.dropped k).trans (and_congr construct_pointsTo .rfl)⟩

end SharedPtrs

open SharedPtrs in
/-- An operation destroys exactly what it leaves without a pointer. -/
theorem PtrOp.perform_drops {w : SharedPtrs} {op : PtrOp} (h : w.Counted) (hop : op.Valid w) :
    w.Drops (op.perform w) := by
  have hlast : w.targets.length < w.construct.targets.length := by simp [construct]
  cases op with
  | copyConstruct j => exact (copyAssign_drops h.construct hlast).of_construct
  | moveConstruct j => exact (moveAssign_drops h.construct hlast).of_construct
  | copyAssign i j => exact copyAssign_drops h hop.1
  | moveAssign i j => exact moveAssign_drops h hop.1
  | destroy i => exact destroy_drops h hop

end GinkgoTpl.Memory
