import Mathlib.Data.List.Basic

/-!
# Runs of a transition system

A run lists the steps taken, each with the state before it, its label and the state after it, so
that a statement about every step of a run is a statement about the members of a list. An
invariant is proved from one step (`Run.invariant`), which may use that the step is one of the
run.
-/

namespace GinkgoTpl.Transition

variable {σ ε : Type} {step : σ → ε → σ → Prop}

/-- From a state, the listed steps lead to another one. -/
inductive Run (step : σ → ε → σ → Prop) : σ → List (σ × ε × σ) → σ → Prop
  | nil {s} : Run step s [] s
  | snoc {s s' s'' tr e} : Run step s tr s' → step s' e s'' →
    Run step s (tr ++ [(s', e, s'')]) s''

namespace Run

variable {s s' a b : σ} {e : ε} {tr : List (σ × ε × σ)}

/-- The steps of a run are steps, and the run up to one of them is a run. -/
theorem step_of_mem (h : Run step s tr s') (ht : (a, e, b) ∈ tr) :
    step a e b ∧ ∃ tr₁ tr₂, tr = tr₁ ++ (a, e, b) :: tr₂ ∧ Run step s tr₁ a := by
  induction h with
  | nil => cases ht
  | snoc hrun hstep ih =>
    rcases List.mem_append.mp ht with ht | ht
    · obtain ⟨hst, tr₁, tr₂, rfl, h₁⟩ := ih ht
      exact ⟨hst, tr₁, _, List.append_assoc .., h₁⟩
    · cases List.mem_singleton.mp ht
      exact ⟨hstep, _, [], rfl, hrun⟩

/-- What holds at first and is kept by every step of the run holds at its end. -/
theorem invariant {Inv : σ → Prop} (h : Run step s tr s') (h0 : Inv s)
    (hstep : ∀ a e b, (a, e, b) ∈ tr → step a e b → Inv a → Inv b) : Inv s' := by
  induction h with
  | nil => exact h0
  | snoc _ hst ih =>
    refine hstep _ _ _ (by simp) hst (ih fun a e b ht => hstep a e b ?_)
    exact List.mem_append_left _ ht

/-- An invariant holds before every step of the run. -/
theorem invariant_mem {Inv : σ → Prop} (h : Run step s tr s') (h0 : Inv s)
    (hstep : ∀ a e b, (a, e, b) ∈ tr → step a e b → Inv a → Inv b) (ht : (a, e, b) ∈ tr) :
    step a e b ∧ Inv a := by
  obtain ⟨hst, tr₁, tr₂, rfl, h₁⟩ := h.step_of_mem ht
  exact ⟨hst, h₁.invariant h0 fun a e b ht => hstep a e b (List.mem_append_left _ ht)⟩

end Run

end GinkgoTpl.Transition
