import Mathlib.Init

/-!
# Computations that may throw

Computations that change a state and may throw, where an exception keeps the changes made before
it. `Ends x s Q R` says how `x`, started in `s`, ends: it returns with `Q` or throws with `R`, and
`EndsLike x s y R` that it ends as the computation `y` without a state.
-/

namespace GinkgoTpl.Transition

variable {ε σ α β : Type}

/-- `x`, started in `s`, returns a value and a state with `Q`, or throws in a state with `R`. -/
def Ends (x : EStateM ε σ α) (s : σ) (Q : α → σ → Prop) (R : σ → Prop) : Prop :=
  match x s with
  | .ok a s => Q a s
  | .error _ s => R s

/-- The state after `x`, whether it returns or throws. -/
def stateAfter (x : EStateM ε σ α) (s : σ) : σ :=
  match x s with
  | .ok _ s | .error _ s => s

/-- What `x` returns or throws. -/
def outcome (x : EStateM ε σ α) (s : σ) : Except ε α :=
  match x s with
  | .ok a _ => .ok a
  | .error e _ => .error e

/-- `x`, and what is done before an exception of `x` goes on. -/
def onThrow (x : EStateM ε σ α) (cleanup : σ → σ) : EStateM ε σ α := fun s =>
  match x s with
  | .ok a s => .ok a s
  | .error e s => .error e (cleanup s)

/-- `x`, and what is done after it, however it ends. -/
def ensuring (x : EStateM ε σ α) (cleanup : σ → σ) : EStateM ε σ α := fun s =>
  match x s with
  | .ok a s => .ok a (cleanup s)
  | .error e s => .error e (cleanup s)

section
variable {x : EStateM ε σ α} {f : α → EStateM ε σ β} {s : σ} {Q Q' : α → σ → Prop}
  {R R' : σ → Prop}

theorem Ends.mono (h : Ends x s Q R) (hQ : ∀ a s, Q a s → Q' a s) (hR : ∀ s, R s → R' s) :
    Ends x s Q' R' := by
  simp only [Ends] at h ⊢
  split at h
  · exact hQ _ _ h
  · exact hR _ h

theorem Ends.stateAfter {I : σ → Prop} (h : Ends x s (fun _ => I) I) : I (stateAfter x s) := by
  simp only [Ends, Transition.stateAfter] at h ⊢
  cases hx : x s <;> rwa [hx] at h

@[simp] theorem ends_pure {a : α} : Ends (pure a : EStateM ε σ α) s Q R ↔ Q a s := .rfl

@[simp] theorem ends_throw {e : ε} : Ends (throw e : EStateM ε σ α) s Q R ↔ R s := .rfl

@[simp] theorem ends_get {Q : σ → σ → Prop} : Ends (get : EStateM ε σ σ) s Q R ↔ Q s s := .rfl

@[simp] theorem ends_set {s' : σ} {Q : PUnit → σ → Prop} :
    Ends (set s' : EStateM ε σ PUnit) s Q R ↔ Q ⟨⟩ s' := .rfl

@[simp] theorem ends_modify {f : σ → σ} {Q : PUnit → σ → Prop} :
    Ends (modify f : EStateM ε σ PUnit) s Q R ↔ Q ⟨⟩ (f s) := .rfl

@[simp] theorem ends_modifyGet {f : σ → α × σ} :
    Ends (modifyGet f : EStateM ε σ α) s Q R ↔ Q (f s).1 (f s).2 := .rfl

theorem ends_bind {Q : β → σ → Prop} :
    Ends (x >>= f) s Q R ↔ Ends x s (fun a s => Ends (f a) s Q R) R := by
  simp only [Ends, bind, EStateM.bind]
  cases x s <;> rfl

theorem Ends.bind {Q' : β → σ → Prop} (h : Ends x s Q R)
    (hf : ∀ a s, Q a s → Ends (f a) s Q' R) : Ends (x >>= f) s Q' R :=
  ends_bind.mpr (h.mono hf fun _ => id)

/-- A computation whose exceptions end the whole. -/
theorem Ends.andThen {Q' : β → σ → Prop} (h : Ends x s Q R) (hR : ∀ s, R s → R' s)
    (hf : ∀ a s, Q a s → Ends (f a) s Q' R') : Ends (x >>= f) s Q' R' :=
  (h.mono (fun _ _ => id) hR).bind hf

/-- A local computation leaves the state as it is. -/
theorem ends_ofExcept {y : Except ε α} (hR : R s) (hQ : ∀ a, y = .ok a → Q a s) :
    Ends (MonadExcept.ofExcept y : EStateM ε σ α) s Q R := by
  cases y with
  | ok a => exact hQ a rfl
  | error e => exact hR

theorem ends_ofExcept_bind {y : Except ε α} {Q : β → σ → Prop} (hR : R s)
    (hf : ∀ a, y = .ok a → Ends (f a) s Q R) :
    Ends (MonadExcept.ofExcept y >>= f : EStateM ε σ β) s Q R :=
  (ends_ofExcept (Q := fun a s' => Ends (f a) s' Q R) hR hf).bind fun _ _ => id

theorem ends_onThrow {cleanup : σ → σ} :
    Ends (onThrow x cleanup) s Q R ↔ Ends x s Q (fun s => R (cleanup s)) := by
  simp only [Ends, onThrow]
  cases x s <;> rfl

theorem ends_ensuring {cleanup : σ → σ} :
    Ends (ensuring x cleanup) s Q R ↔
      Ends x s (fun a s => Q a (cleanup s)) (fun s => R (cleanup s)) := by
  simp only [Ends, ensuring]
  cases x s <;> rfl

end

/-! ## Computations that end alike -/

/-- `x`, started in `s`, and `y` throw the same exception, or both return with `R`. -/
def EndsLike (x : EStateM ε σ α) (s : σ) (y : Except ε β) (R : α → σ → β → Prop) : Prop :=
  match x s, y with
  | .ok a s, .ok b => R a s b
  | .error e _, .error e' => e = e'
  | _, _ => False

namespace EndsLike

variable {γ δ : Type} {x : EStateM ε σ α} {f : α → EStateM ε σ γ} {s : σ} {y : Except ε β}
  {g : β → Except ε δ} {R : α → σ → β → Prop} {Q : γ → σ → δ → Prop}

theorem bind (h : EndsLike x s y R) (hf : ∀ a s b, R a s b → EndsLike (f a) s (g b) Q) :
    EndsLike (x >>= f) s (y >>= g) Q := by
  simp only [EndsLike, Bind.bind, EStateM.bind, Except.bind] at h hf ⊢
  cases hx : x s <;> cases y <;> simp only [hx] at h ⊢
  · exact hf _ _ _ h
  · exact h

/-- The same local step on both sides. -/
theorem ofExcept_bind {z : Except ε α} {g : α → Except ε δ}
    (hf : ∀ a, z = .ok a → EndsLike (f a) s (g a) Q) :
    EndsLike (MonadExcept.ofExcept z >>= f : EStateM ε σ γ) s (z >>= g) Q := by
  cases z with
  | ok a => exact hf a rfl
  | error e => rfl

/-- A local step that returns. -/
theorem ofExcept_ok_bind {z : Except ε α} {a : α} (hz : z = .ok a) {y : Except ε δ}
    (hf : EndsLike (f a) s y Q) :
    EndsLike (MonadExcept.ofExcept z >>= f : EStateM ε σ γ) s y Q := by
  subst hz
  exact hf

/-! The steps that only read or change the state. -/

theorem get_bind {f : σ → EStateM ε σ γ} {y : Except ε δ} (h : EndsLike (f s) s y Q) :
    EndsLike (get >>= f) s y Q := h

theorem set_bind {s' : σ} {f : PUnit → EStateM ε σ γ} {y : Except ε δ}
    (h : EndsLike (f ⟨⟩) s' y Q) : EndsLike (set s' >>= f) s y Q := h

theorem modify_bind {m : σ → σ} {f : PUnit → EStateM ε σ γ} {y : Except ε δ}
    (h : EndsLike (f ⟨⟩) (m s) y Q) : EndsLike (modify m >>= f) s y Q := h

theorem modifyGet_bind {m : σ → α × σ} {y : Except ε δ} (h : EndsLike (f (m s).1) (m s).2 y Q) :
    EndsLike (modifyGet m >>= f) s y Q := h

theorem onThrow {cleanup : σ → σ} (h : EndsLike x s y R) :
    EndsLike (Transition.onThrow x cleanup) s y R := by
  simp only [EndsLike, Transition.onThrow] at h ⊢
  cases hx : x s <;> cases y <;> simp only [hx] at h ⊢ <;> exact h

end EndsLike

end GinkgoTpl.Transition
