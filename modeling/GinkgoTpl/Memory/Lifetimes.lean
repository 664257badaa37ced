import Mathlib.Data.List.Nodup
import Mathlib.Data.List.Perm.Basic
import Mathlib.Logic.Function.Basic
import GinkgoTpl.Spmd.Contract

/-!
# Lifetimes of resources

Resources are created and destroyed at most once each, and a resource that others use is destroyed
after its users. `Owned uses log held` says that the events of `log` keep to this, and that the
resources in `held` are those that are alive after it. An owner that holds nothing any more has
cleaned up (`Owned.cleansUp`).
-/

namespace GinkgoTpl.Memory

open Spmd

variable {R : Type}

inductive ResourceEvent (R : Type) where
  | create (r : R)
  | destroy (r : R)
  deriving DecidableEq

inductive Phase where
  | absent
  | alive
  | destroyed
  deriving DecidableEq

namespace Phase

/-- How often a resource in this phase has been created. -/
def created : Phase → ℕ
  | absent => 0
  | alive | destroyed => 1

/-- How often a resource in this phase has been destroyed. -/
def timesDestroyed : Phase → ℕ
  | absent | alive => 0
  | destroyed => 1

end Phase

variable [DecidableEq R]

/-- The events that are allowed in a phase of each resource, if `uses r' r` says that `r'` uses
`r`. -/
def lifetimes (uses : R → R → Prop) : Effects (ResourceEvent R) (R → Phase) where
  allowed phase
    | .create r => phase r = .absent ∧ ∀ r', uses r r' → phase r' ≠ .destroyed
    | .destroy r => phase r = .alive ∧ ∀ r', uses r' r → phase r' ≠ .alive
  apply phase
    | .create r => Function.update phase r .alive
    | .destroy r => Function.update phase r .destroyed

/-- The phases before the first event. -/
def unborn : R → Phase := fun _ => .absent

/-- Each resource is created at most once and destroyed as often as it is created, after its
creation and after those that use it. -/
structure CleansUp (uses : R → R → Prop) (log : List (ResourceEvent R)) : Prop where
  created : ∀ r, log.count (.create r) ≤ 1
  destroyed : ∀ r, log.count (.destroy r) = log.count (.create r)
  order : ∀ r before after, log = before ++ .destroy r :: after → .create r ∈ before ∧
    ∀ r', uses r' r → .create r' ∈ log → .destroy r' ∈ before

section
variable {uses : R → R → Prop} {phase : R → Phase} {log : List (ResourceEvent R)} {r r' : R}

theorem count_create (h : (lifetimes uses).Allowed phase log) (r : R) :
    (phase r).created + log.count (.create r) = ((lifetimes uses).after phase log r).created := by
  induction log generalizing phase with
  | nil => rfl
  | cons e log ih =>
    have := ih h.2
    cases e with
    | create r₁ =>
      have habsent : phase r₁ = .absent := h.1.1
      rcases eq_or_ne r r₁ with rfl | hne
      · simp [lifetimes, Phase.created, habsent] at this ⊢
        omega
      · simpa [lifetimes, hne, hne.symm] using this
    | destroy r₁ =>
      have halive : phase r₁ = .alive := h.1.1
      rcases eq_or_ne r r₁ with rfl | hne
      · simpa [lifetimes, Phase.created, halive] using this
      · simpa [lifetimes, hne] using this

theorem count_destroy (h : (lifetimes uses).Allowed phase log) (r : R) :
    (phase r).timesDestroyed + log.count (.destroy r) =
      ((lifetimes uses).after phase log r).timesDestroyed := by
  induction log generalizing phase with
  | nil => rfl
  | cons e log ih =>
    have := ih h.2
    cases e with
    | create r₁ =>
      have habsent : phase r₁ = .absent := h.1.1
      rcases eq_or_ne r r₁ with rfl | hne
      · simpa [lifetimes, Phase.timesDestroyed, habsent] using this
      · simpa [lifetimes, hne] using this
    | destroy r₁ =>
      have halive : phase r₁ = .alive := h.1.1
      rcases eq_or_ne r r₁ with rfl | hne
      · simp [lifetimes, Phase.timesDestroyed, halive] at this ⊢
        omega
      · simpa [lifetimes, hne, hne.symm] using this

theorem create_mem_of_alive (h : (lifetimes uses).Allowed unborn log)
    (hr : (lifetimes uses).after unborn log r ≠ .absent) : .create r ∈ log := by
  have := count_create h r
  refine List.count_pos_iff.mp ?_
  cases hphase : (lifetimes uses).after unborn log r <;>
    simp_all [unborn, Phase.created]

theorem destroy_mem_of_destroyed (h : (lifetimes uses).Allowed unborn log)
    (hr : (lifetimes uses).after unborn log r = .destroyed) : .destroy r ∈ log := by
  have := count_destroy h r
  refine List.count_pos_iff.mp ?_
  simp_all [unborn, Phase.timesDestroyed]

theorem absent_of_not_mem (h : (lifetimes uses).Allowed unborn log) (hr : .create r ∉ log) :
    (lifetimes uses).after unborn log r = .absent :=
  by_contra fun hne => hr (create_mem_of_alive h hne)

theorem not_destroyed_of_not_mem (h : (lifetimes uses).Allowed unborn log)
    (hr : .destroy r ∉ log) : (lifetimes uses).after unborn log r ≠ .destroyed :=
  fun hd => hr (destroy_mem_of_destroyed h hd)

/-- Once a resource is destroyed, nothing that uses it is created. -/
theorem not_create_of_destroyed (h : (lifetimes uses).Allowed phase log)
    (hr : phase r = .destroyed) (huses : uses r' r) : .create r' ∉ log := by
  induction log generalizing phase with
  | nil => exact List.not_mem_nil
  | cons e log ih =>
    obtain ⟨he, hlog⟩ := h
    cases e with
    | create r₁ =>
      obtain ⟨habsent, hused⟩ : phase r₁ = .absent ∧ ∀ r', uses r₁ r' → phase r' ≠ .destroyed := he
      rw [List.mem_cons, not_or]
      refine ⟨?_, ih hlog ?_⟩
      · rintro ⟨⟩
        exact hused r huses hr
      · have hne : r ≠ r₁ := by
          rintro rfl
          exact absurd (hr.symm.trans habsent) (by decide)
        simpa [lifetimes, hne] using hr
    | destroy r₁ =>
      rw [List.mem_cons, not_or]
      refine ⟨nofun, ih hlog ?_⟩
      rcases eq_or_ne r r₁ with rfl | hne
      · simp [lifetimes]
      · simpa [lifetimes, hne] using hr

/-- What is created is destroyed, and nothing else. -/
theorem CleansUp.destroy_mem_iff (h : CleansUp uses log) (r : R) :
    .destroy r ∈ log ↔ .create r ∈ log := by
  rw [← List.count_pos_iff, ← List.count_pos_iff, h.destroyed]

theorem CleansUp.of_allowed (h : (lifetimes uses).Allowed unborn log)
    (hend : ∀ r, (lifetimes uses).after unborn log r ≠ .alive) : CleansUp uses log where
  created r := by
    have := count_create h r
    cases hphase : (lifetimes uses).after unborn log r <;>
      simp_all [unborn, Phase.created]
  destroyed r := by
    have hc := count_create h r
    have hd := count_destroy h r
    have := hend r
    cases hphase : (lifetimes uses).after unborn log r <;>
      simp_all [unborn, Phase.created, Phase.timesDestroyed]
  order r before after hlog := by
    subst hlog
    obtain ⟨hbefore, ⟨halive, husers⟩, hafter⟩ := (Effects.allowed_append _).mp h
    refine ⟨create_mem_of_alive hbefore (by simp [halive]), fun r' huses hr' => ?_⟩
    refine destroy_mem_of_destroyed hbefore ?_
    cases hphase : (lifetimes uses).after unborn before r' with
    | destroyed => rfl
    | alive => exact absurd hphase (husers r' huses)
    | absent =>
      -- the user would be created after the destruction
      have hnot : .create r' ∉ after :=
        not_create_of_destroyed hafter (by simp [lifetimes]) huses
      have hcount := count_create hbefore r'
      simp only [hphase, unborn, Phase.created, Nat.zero_add, List.count_eq_zero] at hcount
      simp [hcount, hnot] at hr'

end

/-! ## Owners -/

/-- The events keep to the lifetimes, and `held` lists what is alive after them. -/
structure Owned (uses : R → R → Prop) (log : List (ResourceEvent R)) (held : List R) : Prop where
  allowed : (lifetimes uses).Allowed unborn log
  alive_iff : ∀ r, (lifetimes uses).after unborn log r = .alive ↔ r ∈ held
  nodup : held.Nodup

namespace Owned

variable {uses : R → R → Prop} {log : List (ResourceEvent R)} {held held' l : List R} {r : R}

theorem nil : Owned uses ([] : List (ResourceEvent R)) [] :=
  ⟨trivial, fun r => by simp [unborn], List.nodup_nil⟩

theorem perm (h : Owned uses log held) (hp : held.Perm held') : Owned uses log held' :=
  ⟨h.allowed, fun r => (h.alive_iff r).trans hp.mem_iff, hp.nodup_iff.mp h.nodup⟩

theorem not_mem_of_fresh (h : Owned uses log held) (hr : .create r ∉ log) : r ∉ held := fun hm =>
  absurd ((h.alive_iff r).mpr hm) (by rw [absent_of_not_mem h.allowed hr]; decide)

theorem create (h : Owned uses log held) (hr : .create r ∉ log)
    (hused : ∀ r', uses r r' → .destroy r' ∉ log) :
    Owned uses (log ++ [.create r]) (r :: held) where
  allowed := (Effects.allowed_append _).mpr ⟨h.allowed, ⟨absent_of_not_mem h.allowed hr,
    fun r' hr' => not_destroyed_of_not_mem h.allowed (hused r' hr')⟩, trivial⟩
  alive_iff r' := by
    rcases eq_or_ne r' r with rfl | hne
    · simp [lifetimes]
    · simpa [lifetimes, hne] using h.alive_iff r'
  nodup := List.nodup_cons.mpr ⟨h.not_mem_of_fresh hr, h.nodup⟩

theorem destroy (h : Owned uses log (r :: held)) (husers : ∀ r', uses r' r → r' ∉ r :: held) :
    Owned uses (log ++ [.destroy r]) held where
  allowed := (Effects.allowed_append _).mpr ⟨h.allowed, ⟨(h.alive_iff r).mpr List.mem_cons_self,
    fun r' hr' hm => husers r' hr' ((h.alive_iff r').mp hm)⟩, trivial⟩
  alive_iff r' := by
    rcases eq_or_ne r' r with rfl | hne
    · simp [lifetimes, (List.nodup_cons.mp h.nodup).1]
    · simpa [lifetimes, hne] using h.alive_iff r'
  nodup := (List.nodup_cons.mp h.nodup).2

/-- Destroying the resources of a list in its order, if none of them is used by a later one or by
one that stays. -/
theorem destroyAll (h : Owned uses log (l ++ held))
    (horder : l.Pairwise fun r r' => ¬ uses r' r) (hself : ∀ r, ¬ uses r r)
    (husers : ∀ r ∈ l, ∀ r' ∈ held, ¬ uses r' r) :
    Owned uses (log ++ l.map .destroy) held := by
  induction l generalizing log with
  | nil => simpa using h
  | cons r l ih =>
    obtain ⟨hr, hl⟩ := List.pairwise_cons.mp horder
    have hdestroy : Owned uses (log ++ [.destroy r]) (l ++ held) := by
      refine h.destroy fun r' hr' hm => ?_
      rcases List.mem_cons.mp hm with rfl | hm
      · exact hself _ hr'
      rcases List.mem_append.mp hm with hm | hm
      · exact hr r' hm hr'
      · exact husers r List.mem_cons_self r' hm hr'
    simpa using ih hdestroy hl fun r hm => husers r (List.mem_cons_of_mem _ hm)

/-- Who holds nothing any more has cleaned up. -/
theorem cleansUp (h : Owned uses log []) : CleansUp uses log :=
  .of_allowed h.allowed fun r hr => List.not_mem_nil ((h.alive_iff r).mp hr)

end Owned

end GinkgoTpl.Memory
