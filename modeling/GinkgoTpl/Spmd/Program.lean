import Mathlib.Data.List.Basic

/-!
# Programs of ranks that meet in collective calls

A *single program, multiple data* job: every rank of a group runs a program that computes on
its own data and, at certain points, enters a collective call together with the other ranks.
`Collectives` fixes the calls of a group and what each rank gets back, `Program` is the program
of one rank as a tree of local actions and collective calls, and `Leads` is its big-step
semantics along a given list of rounds, one round for every collective call.
-/

namespace GinkgoTpl.Spmd

/-- The collective calls of a group of ranks `ι`. `Needs op r s` says that rank `r` cannot get
its answer before rank `s` has entered, and the answer depends on no other contribution. -/
structure Collectives (ι : Type) where
  Op : Type
  In : Op → Type
  Out : Op → Type
  Needs : Op → ι → ι → Prop
  combine : (op : Op) → (ι → In op) → ι → Out op
  combine_congr : ∀ {op r vs vs'}, (∀ s, Needs op r s → vs s = vs' s) →
    combine op vs r = combine op vs' r

variable {ι : Type}

/-- The program of one rank: it returns, raises an error, performs a local action that is
recorded in its log, or enters a collective call and goes on with the answer. -/
inductive Program (C : Collectives ι) (A ε α : Type) where
  | ret (a : α)
  | raise (e : ε)
  | act (a : A) (k : Program C A ε α)
  | call (op : C.Op) (v : C.In op) (k : C.Out op → Program C A ε α)

variable {C : Collectives ι} {A ε α β : Type}

namespace Program

def bind : Program C A ε α → (α → Program C A ε β) → Program C A ε β
  | .ret a, f => f a
  | .raise e, _ => .raise e
  | .act a k, f => .act a (k.bind f)
  | .call op v k, f => .call op v fun o => (k o).bind f

instance : Monad (Program C A ε) where
  pure := .ret
  bind := bind

@[simp] theorem pure_eq (a : α) : (pure a : Program C A ε α) = .ret a := rfl

@[simp] theorem ret_bind (a : α) (f : α → Program C A ε β) : (.ret a >>= f) = f a := rfl

@[simp] theorem raise_bind (e : ε) (f : α → Program C A ε β) :
    ((.raise e : Program C A ε α) >>= f) = .raise e := rfl

@[simp] theorem act_bind (a : A) (k : Program C A ε α) (f : α → Program C A ε β) :
    (.act a k >>= f) = .act a (k >>= f) := rfl

@[simp] theorem call_bind (op : C.Op) (v : C.In op) (k : C.Out op → Program C A ε α)
    (f : α → Program C A ε β) : (.call op v k >>= f) = .call op v fun o => k o >>= f := rfl

theorem bind_assoc {γ : Type} (p : Program C A ε α) (f : α → Program C A ε β)
    (g : β → Program C A ε γ) : (p >>= f) >>= g = p >>= fun a => f a >>= g := by
  induction p with
  | ret | raise => rfl
  | act a k ih => simp only [act_bind, ih]
  | call op v k ih => simp only [call_bind, ih]

/-- The program that only performs a local action. -/
def perform (a : A) : Program C A ε Unit := .act a (.ret ())

/-- The program that only performs local actions. -/
def performAll : List A → Program C A ε Unit
  | [] => .ret ()
  | a :: as => .act a (performAll as)

/-- The program that only enters a collective call. -/
def enter (op : C.Op) (v : C.In op) : Program C A ε (C.Out op) := .call op v .ret

/-- A local computation that may fail. -/
def ofExcept : Except ε α → Program C A ε α
  | .ok a => .ret a
  | .error e => .raise e

@[simp] theorem perform_bind (a : A) (f : Unit → Program C A ε β) :
    (perform a >>= f) = .act a (f ()) := rfl

@[simp] theorem ofExcept_ok (a : α) : (ofExcept (.ok a) : Program C A ε α) = .ret a := rfl

@[simp] theorem ofExcept_error (e : ε) : (ofExcept (.error e) : Program C A ε α) = .raise e := rfl

/-- The program that ends with the outcome of `p`. -/
def attempt {ε' : Type} : Program C A ε α → Program C A ε' (Except ε α)
  | .ret a => .ret (.ok a)
  | .raise e => .ret (.error e)
  | .act a k => .act a k.attempt
  | .call op v k => .call op v fun o => (k o).attempt

/-- The program `p` with its errors translated. -/
def mapError {ε' : Type} (f : ε → ε') (p : Program C A ε α) : Program C A ε' α := do
  let outcome ← p.attempt
  ofExcept (outcome.mapError f)

theorem mapError_id (p : Program C A ε α) : p.mapError id = p := by
  induction p with
  | ret | raise => rfl
  | act a k ih => exact congrArg (Program.act a) ih
  | call op v k ih => exact congrArg (Program.call op v) (funext ih)

/-- Performs the actions `as` after `p`, however `p` ends. -/
def ensuring (as : List A) (p : Program C A ε α) : Program C A ε α := do
  let outcome ← p.attempt
  performAll as
  ofExcept outcome

/-- A program that has nothing left to do. -/
inductive Final : Program C A ε α → Prop
  | ret : Final (.ret a)
  | raise : Final (.raise e)

@[simp] theorem not_final_act {a : A} {k : Program C A ε α} : ¬ (Program.act a k).Final := nofun

@[simp] theorem not_final_call {op : C.Op} {v : C.In op} {k : C.Out op → Program C A ε α} :
    ¬ (Program.call op v k).Final := nofun

end Program

/-! ## Rounds -/

/-- One round of a group: all ranks enter the same call, each with its own contribution. -/
structure Round (C : Collectives ι) where
  op : C.Op
  vs : ι → C.In op

namespace Round

/-- What rank `r` contributes. -/
def post (R : Round C) (r : ι) : Σ op, C.In op := ⟨R.op, R.vs r⟩

/-- What rank `r` gets back. -/
def answer (R : Round C) (r : ι) : C.Out R.op := C.combine R.op R.vs r

@[simp] theorem answer_mk (op : C.Op) (vs : ι → C.In op) (r : ι) :
    (⟨op, vs⟩ : Round C).answer r = C.combine op vs r := rfl

end Round

/-- Through the rounds `Rs`, the program `p` of rank `r` becomes `q` and logs `as`. -/
inductive Leads (r : ι) : Program C A ε α → List (Round C) → List A → Program C A ε α → Prop
  | refl : Leads r p [] [] p
  | act : Leads r k Rs as q → Leads r (.act a k) Rs (a :: as) q
  | call {R : Round C} {k : C.Out R.op → Program C A ε α} :
    Leads r (k (R.answer r)) Rs as q → Leads r (.call R.op (R.vs r) k) (R :: Rs) as q

namespace Leads

variable {r : ι} {p q q' : Program C A ε α} {Rs Rs' : List (Round C)} {as as' : List A}

theorem trans (h : Leads r p Rs as q) (h' : Leads r q Rs' as' q') :
    Leads r p (Rs ++ Rs') (as ++ as') q' := by
  induction h with
  | refl => exact h'
  | act _ ih => exact .act (ih h')
  | call _ ih => exact .call (ih h')

theorem bind {f : α → Program C A ε β} (h : Leads r p Rs as q) :
    Leads r (p >>= f) Rs as (q >>= f) := by
  induction h with
  | refl => exact .refl
  | act _ ih => exact .act ih
  | call _ ih => exact .call ih

/-- Sequential composition: `p` returns `a`, and `f a` goes on from there. -/
theorem seq {a : α} {f : α → Program C A ε β} {p' : Program C A ε β}
    (h : Leads r p Rs as (.ret a)) (h' : Leads r (f a) Rs' as' p') :
    Leads r (p >>= f) (Rs ++ Rs') (as ++ as') p' :=
  h.bind.trans h'

theorem bind_raise {e : ε} {f : α → Program C A ε β} (h : Leads r p Rs as (.raise e)) :
    Leads r (p >>= f) Rs as (.raise e) := h.bind

theorem performAll {f : Unit → Program C A ε β} {as₀ : List A} {q : Program C A ε β}
    (h : Leads r (f ()) Rs as q) : Leads r (Program.performAll as₀ >>= f) Rs (as₀ ++ as) q := by
  induction as₀ with
  | nil => exact h
  | cons a as₀ ih => exact .act ih

/-- A round in which `r` takes part, given by its call and contributions. -/
theorem call' {op : C.Op} {v : C.In op} {k : C.Out op → Program C A ε α} (vs : ι → C.In op)
    (hv : vs r = v) (h : Leads r (k (C.combine op vs r)) Rs as q) :
    Leads r (.call op v k) (⟨op, vs⟩ :: Rs) as q := by
  subst hv
  exact .call (R := ⟨op, vs⟩) h

/-! ### Inversion -/

theorem eq_of_final (h : Leads r p Rs as q) (hp : p.Final) : Rs = [] ∧ as = [] ∧ q = p := by
  cases h with
  | refl => exact ⟨rfl, rfl, rfl⟩
  | act | call => cases hp

theorem act_inv {a : A} {k : Program C A ε α} (h : Leads r (.act a k) Rs as q) (hq : q.Final) :
    ∃ as', as = a :: as' ∧ Leads r k Rs as' q := by
  cases h with
  | refl => cases hq
  | act h => exact ⟨_, rfl, h⟩

theorem call_inv {op : C.Op} {v : C.In op} {k : C.Out op → Program C A ε α}
    (h : Leads r (.call op v k) Rs as q) (hq : q.Final) :
    ∃ vs Rs', Rs = ⟨op, vs⟩ :: Rs' ∧ vs r = v ∧ Leads r (k (C.combine op vs r)) Rs' as q := by
  cases h with
  | refl => cases hq
  | call h => exact ⟨_, _, rfl, rfl, h⟩

theorem not_raise_ret {e : ε} {a : α} : ¬ Leads r (.raise e : Program C A ε α) Rs as (.ret a) := by
  intro h
  cases (h.eq_of_final .raise).2.2

/-- A composition that returns has come to the end of its first part and gone on from there. -/
theorem bind_inv {f : α → Program C A ε β} {b : β} {p : Program C A ε α}
    (h : Leads r (p >>= f) Rs as (.ret b)) :
    ∃ a Rs₁ Rs₂ as₁ as₂, Rs = Rs₁ ++ Rs₂ ∧ as = as₁ ++ as₂ ∧ Leads r p Rs₁ as₁ (.ret a) ∧
      Leads r (f a) Rs₂ as₂ (.ret b) := by
  induction p generalizing Rs as with
  | ret a => exact ⟨a, [], Rs, [], as, rfl, rfl, .refl, h⟩
  | raise e => exact absurd h not_raise_ret
  | act a k ih =>
    obtain ⟨as', rfl, hk⟩ := h.act_inv .ret
    obtain ⟨a', Rs₁, Rs₂, as₁, as₂, rfl, rfl, h₁, h₂⟩ := ih hk
    exact ⟨a', Rs₁, Rs₂, a :: as₁, as₂, rfl, rfl, .act h₁, h₂⟩
  | call op v k ih =>
    obtain ⟨vs, Rs', rfl, hv, hk⟩ := h.call_inv .ret
    obtain ⟨a', Rs₁, Rs₂, as₁, as₂, rfl, rfl, h₁, h₂⟩ := ih _ hk
    exact ⟨a', ⟨op, vs⟩ :: Rs₁, Rs₂, as₁, as₂, rfl, rfl, h₁.call' vs hv, h₂⟩

/-- A program that returns has got through its local computations. -/
theorem ofExcept_bind_inv {x : Except ε α} {f : α → Program C A ε β} {b : β}
    (h : Leads r (Program.ofExcept x >>= f) Rs as (.ret b)) :
    ∃ a, x = .ok a ∧ Leads r (f a) Rs as (.ret b) := by
  cases x with
  | error e => exact absurd h not_raise_ret
  | ok a => exact ⟨a, rfl, h⟩

theorem ofExcept_inv {x : Except ε α} {a : α} (h : Leads r (Program.ofExcept x) Rs as (.ret a)) :
    x = .ok a ∧ Rs = [] ∧ as = [] := by
  cases x with
  | error e => exact absurd h not_raise_ret
  | ok a' =>
    obtain ⟨hRs, has, heq⟩ := h.eq_of_final .ret
    cases heq
    exact ⟨rfl, hRs, has⟩

/-- A program that gets through a further round stands before its call after local actions. -/
theorem cons_inv {R : Round C} (h : Leads r p (R :: Rs) as q) :
    ∃ as₁ as₂ k, as = as₁ ++ as₂ ∧ Leads r p [] as₁ (.call R.op (R.vs r) k) ∧
      Leads r (k (R.answer r)) Rs as₂ q := by
  generalize hRs : R :: Rs = Rs₀ at h
  induction h with
  | refl => cases hRs
  | act _ ih =>
    obtain ⟨as₁, as₂, k, rfl, h₁, h₂⟩ := ih hRs
    exact ⟨_ :: as₁, as₂, k, rfl, .act h₁, h₂⟩
  | call h =>
    cases hRs
    exact ⟨[], _, _, rfl, .refl, h⟩

end Leads

/-- All ranks run together: one list of rounds takes every program `ps r` to `qs r`. -/
def Together (ps : ι → Program C A ε α) (Rs : List (Round C)) (as : ι → List A)
    (qs : ι → Program C A ε α) : Prop :=
  ∀ r, Leads r (ps r) Rs (as r) (qs r)

/-- The ranks run together until each of them returns its `out`. -/
def Returns (ps : ι → Program C A ε α) (out : ι → α) : Prop :=
  ∃ Rs as, Together ps Rs as fun r => .ret (out r)

end GinkgoTpl.Spmd
