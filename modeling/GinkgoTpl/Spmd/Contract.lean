import GinkgoTpl.Spmd.Machine
import GinkgoTpl.Spmd.Outcome

/-!
# What a program does to a state

The actions of a program change a state, and some of them are allowed in some states only.
`p.Wp E s Q` says that `p`, started in `s`, takes allowed actions only and ends with `Q`, whatever
its collective calls answer. `Leads.wp` says what this means for every run of `p`, also for one
that has not ended yet.
-/

namespace GinkgoTpl.Spmd

variable {ι : Type} {C : Collectives ι} {A σ ε ε' α β : Type}

/-- How actions change a state, and which of them are allowed in it. -/
structure Effects (A σ : Type) where
  allowed : σ → A → Prop
  apply : σ → A → σ

namespace Effects

variable (E : Effects A σ) {s : σ} {a : A} {as as' : List A}

/-- The state after the actions. -/
def after (s : σ) (as : List A) : σ := as.foldl E.apply s

/-- Each action is allowed in the state in which it is taken. -/
def Allowed : σ → List A → Prop
  | _, [] => True
  | s, a :: as => E.allowed s a ∧ Allowed (E.apply s a) as

@[simp] theorem after_nil : E.after s [] = s := rfl

@[simp] theorem after_cons : E.after s (a :: as) = E.after (E.apply s a) as := rfl

@[simp] theorem allowed_nil : E.Allowed s [] := trivial

@[simp] theorem allowed_cons :
    E.Allowed s (a :: as) ↔ E.allowed s a ∧ E.Allowed (E.apply s a) as := .rfl

@[simp] theorem after_append : E.after s (as ++ as') = E.after (E.after s as) as' :=
  List.foldl_append ..

@[simp] theorem allowed_append :
    E.Allowed s (as ++ as') ↔ E.Allowed s as ∧ E.Allowed (E.after s as) as' := by
  induction as generalizing s with
  | nil => simp
  | cons a as ih => simp [ih, and_assoc]

theorem Allowed.forall_mem {E : Effects A σ} {p : A → Prop} (hp : ∀ s a, E.allowed s a → p a)
    (h : E.Allowed s as) : ∀ a ∈ as, p a := by
  induction as generalizing s with
  | nil => exact nofun
  | cons a as ih => exact List.forall_mem_cons.mpr ⟨hp _ _ h.1, ih h.2⟩

end Effects

/-- Effects for what is said of the outcome of a program only. -/
def noEffects (A : Type) : Effects A Unit := ⟨fun _ _ => True, fun s _ => s⟩

namespace Program

variable (E : Effects A σ) {s : σ} {Q Q' : Except ε α → σ → Prop} {p : Program C A ε α}

/-- Whatever the collective calls answer, `p` started in `s` takes allowed actions only and ends
with `Q`. -/
def Wp : Program C A ε α → σ → (Except ε α → σ → Prop) → Prop
  | .ret a, s, Q => Q (.ok a) s
  | .raise e, s, Q => Q (.error e) s
  | .act a k, s, Q => E.allowed s a ∧ k.Wp (E.apply s a) Q
  | .call _ _ k, s, Q => ∀ o, (k o).Wp s Q

variable {E}

theorem Wp.mono (h : p.Wp E s Q) (hQ : ∀ x s, Q x s → Q' x s) : p.Wp E s Q' := by
  induction p generalizing s with
  | ret a => exact hQ _ _ h
  | raise e => exact hQ _ _ h
  | act a k ih => exact ⟨h.1, ih h.2⟩
  | call op v k ih => exact fun o => ih o (h o)

/-- What has to hold before `f` if `Q` is to hold after it. -/
def Before (E : Effects A σ) (f : α → Program C A ε β) (Q : Except ε β → σ → Prop) :
    Except ε α → σ → Prop
  | .ok a, s => (f a).Wp E s Q
  | .error e, s => Q (.error e) s

@[simp] theorem before_ok {f : α → Program C A ε β} {Q : Except ε β → σ → Prop} {a : α} :
    Before E f Q (.ok a) = fun s => (f a).Wp E s Q := rfl

theorem wp_bind {f : α → Program C A ε β} {Q : Except ε β → σ → Prop} :
    (p >>= f).Wp E s Q ↔ p.Wp E s (Before E f Q) := by
  induction p generalizing s with
  | ret | raise => rfl
  | act a k ih => exact and_congr .rfl ih
  | call op v k ih => exact forall_congr' fun o => ih o

theorem wp_performAll {as : List A} {Q : Except ε Unit → σ → Prop} :
    (performAll as : Program C A ε Unit).Wp E s Q ↔
      E.Allowed s as ∧ Q (.ok ()) (E.after s as) := by
  induction as generalizing s with
  | nil => exact (true_and _).to_iff.symm
  | cons a as ih => exact (and_congr .rfl ih).trans and_assoc.symm

theorem wp_ofExcept {x : Except ε α} : (ofExcept x : Program C A ε α).Wp E s Q ↔ Q x s := by
  cases x <;> rfl

/-- A local computation after which `Q` holds if it fails. -/
theorem wp_ofExcept_bind {x : Except ε α} {f : α → Program C A ε β} {Q : Except ε β → σ → Prop}
    (herror : ∀ e, Q (.error e) s) (hok : ∀ a, (f a).Wp E s Q) : (ofExcept x >>= f).Wp E s Q := by
  rw [wp_bind, wp_ofExcept]
  cases x with
  | ok a => exact hok a
  | error e => exact herror e

/-- What holds after `f`, whatever `p` returns. -/
theorem wp_noEffects_bind {f : α → Program C A ε β} {Q : Except ε β → Unit → Prop}
    (herror : ∀ e, Q (.error e) ()) (hok : ∀ x, (f x).Wp (noEffects A) () Q) :
    (p >>= f).Wp (noEffects A) () Q := by
  induction p with
  | ret x => exact hok x
  | raise e => exact herror e
  | act a k ih => exact ⟨trivial, ih⟩
  | call op v k ih => exact ih

theorem wp_attempt {Q : Except ε' (Except ε α) → σ → Prop} :
    (p.attempt : Program C A ε' _).Wp E s Q ↔ p.Wp E s fun x => Q (.ok x) := by
  induction p generalizing s with
  | ret | raise => rfl
  | act a k ih => exact and_congr .rfl ih
  | call op v k ih => exact forall_congr' fun o => ih o

theorem wp_mapError {g : ε → ε'} {Q : Except ε' α → σ → Prop} :
    (p.mapError g).Wp E s Q ↔ p.Wp E s fun x => Q (x.mapError g) := by
  simp only [mapError, wp_bind, wp_attempt, before_ok, wp_ofExcept]

/-- What is done after `p`, however `p` ends. -/
theorem wp_ensuring {as : List A} : (p.ensuring as).Wp E s Q ↔
    p.Wp E s fun x s => E.Allowed s as ∧ Q x (E.after s as) := by
  simp only [ensuring, wp_bind, wp_attempt, before_ok, wp_performAll, wp_ofExcept]

end Program

variable {E : Effects A σ} {r : ι} {p q : Program C A ε α} {Rs : List (Round C)} {as : List A}
  {s : σ} {Q : Except ε α → σ → Prop}

/-- A run of `p` takes allowed actions only, and what remains of `p` ends with `Q`. -/
theorem Leads.wp (h : Leads r p Rs as q) (hp : p.Wp E s Q) :
    E.Allowed s as ∧ q.Wp E (E.after s as) Q := by
  induction h generalizing s with
  | refl => exact ⟨trivial, hp⟩
  | act _ ih =>
    obtain ⟨hall, hq⟩ := ih hp.2
    exact ⟨⟨hp.1, hall⟩, hq⟩
  | call _ ih => exact ih (hp _)

/-- What a program does for given answers of its collective calls, and how it ends. -/
theorem Program.Wp.trace (hp : p.Wp E s Q) (answer : (op : C.Op) → C.In op → C.Out op) :
    E.Allowed s (p.trace answer) ∧ Q (p.outcome answer) (E.after s (p.trace answer)) := by
  induction p generalizing s with
  | ret | raise => exact ⟨trivial, hp⟩
  | act a k ih =>
    obtain ⟨hall, hQ⟩ := ih hp.2
    exact ⟨⟨hp.1, hall⟩, hQ⟩
  | call op v k ih => exact ih _ (hp _)

/-- What a program that has nothing left to do says of the state. -/
theorem Program.Wp.of_final (hq : q.Final) (h : q.Wp E s Q) : ∃ x, Q x s ∧ q = .ofExcept x := by
  cases hq with
  | @ret a => exact ⟨.ok a, h, rfl⟩
  | @raise e => exact ⟨.error e, h, rfl⟩

/-! ## Interleavings -/

/-- What a rank that is about to run a program, or inside a collective call, still ends with. -/
def Phase.Wp (E : Effects A σ) : Phase C A ε α → σ → (Except ε α → σ → Prop) → Prop
  | .run p, s, Q => p.Wp E s Q
  | .inside _ k, s, Q => ∀ o, (k o).Wp E s Q

section
variable [DecidableEq ι] {ps : ι → Program C A ε α} {st st' : State C A ε α}

theorem Step.wp (h : Step st st')
    (hst : E.Allowed s (st r).log ∧ (st r).phase.Wp E (E.after s (st r).log) Q) :
    E.Allowed s (st' r).log ∧ (st' r).phase.Wp E (E.after s (st' r).log) Q := by
  have key : ∀ {r' x}, (r' = r → E.Allowed s x.log ∧ x.phase.Wp E (E.after s x.log) Q) →
      E.Allowed s (Function.update st r' x r).log ∧
        (Function.update st r' x r).phase.Wp E (E.after s (Function.update st r' x r).log) Q := by
    intro r' x hx
    by_cases hr : r = r'
    · subst hr
      simpa using hx rfl
    · simpa [Function.update_of_ne hr] using hst
  cases h with
  | act hr =>
    refine key ?_
    rintro rfl
    rw [hr] at hst
    exact ⟨E.allowed_append.mpr ⟨hst.1, hst.2.1, trivial⟩, by
      rw [E.after_append]; exact hst.2.2⟩
  | enter hr =>
    refine key ?_
    rintro rfl
    rw [hr] at hst
    exact hst
  | leave vs hr =>
    refine key ?_
    rintro rfl
    rw [hr] at hst
    exact ⟨hst.1, hst.2 _⟩

/-- In every interleaving and whatever the other ranks run, a rank takes allowed actions only, and
what remains of its program ends with `Q`. -/
theorem Reach.wp (h : Reach (start ps) st) (hps : (ps r).Wp E s Q) :
    E.Allowed s (st r).log ∧ (st r).phase.Wp E (E.after s (st r).log) Q := by
  induction h with
  | refl => exact ⟨trivial, hps⟩
  | tail _ hstep ih => exact hstep.wp ih

end

end GinkgoTpl.Spmd
