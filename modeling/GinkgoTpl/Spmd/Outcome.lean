import GinkgoTpl.Spmd.Program
import GinkgoTpl.Transition.Throwing

/-!
# How programs end

`EndsAfter r p Rs` says that the program `p` of rank `r` enters the rounds `Rs` and no others, and
`outcome` and `trace` evaluate a program for given answers of the collective calls, without the
other ranks; `runIn` does so on a state that its actions change.
-/

namespace GinkgoTpl.Spmd

variable {ι : Type} {C : Collectives ι} {A ε ε' α β : Type} {r : ι} {p : Program C A ε α}
  {f : α → Program C A ε β} {Rs : List (Round C)}

namespace Program

/-- The program enters no collective call. -/
def Local : Program C A ε α → Prop
  | .ret _ | .raise _ => True
  | .act _ k => k.Local
  | .call .. => False

@[simp] theorem local_ret (a : α) : (.ret a : Program C A ε α).Local := trivial

@[simp] theorem local_raise (e : ε) : (.raise e : Program C A ε α).Local := trivial

@[simp] theorem local_act (a : A) (k : Program C A ε α) : (Program.act a k).Local ↔ k.Local := .rfl

theorem local_ofExcept (x : Except ε α) : (ofExcept x : Program C A ε α).Local := by
  cases x <;> trivial

theorem local_performAll (as : List A) : (performAll as : Program C A ε Unit).Local := by
  induction as with
  | nil => trivial
  | cons a as ih => exact ih

theorem Local.bind (hp : p.Local) (hf : ∀ a, (f a).Local) : (p >>= f).Local := by
  induction p with
  | ret a => exact hf a
  | raise e => trivial
  | act a k ih => exact ih hp
  | call => exact hp.elim

theorem Local.attempt (hp : p.Local) : (p.attempt : Program C A ε' (Except ε α)).Local := by
  induction p with
  | ret | raise => trivial
  | act a k ih => exact ih hp
  | call => exact hp.elim

theorem Local.mapError (hp : p.Local) (g : ε → ε') : (p.mapError g).Local :=
  hp.attempt.bind fun _ => local_ofExcept _

end Program

/-! ## The rounds of a program -/

/-- On rank `r`, the program ends when it has gone through the rounds `Rs`. -/
def EndsAfter (r : ι) (p : Program C A ε α) (Rs : List (Round C)) : Prop :=
  ∃ as q, Leads r p Rs as q ∧ q.Final

theorem Program.Local.endsAfter (hp : p.Local) : EndsAfter r p [] := by
  induction p with
  | ret a => exact ⟨[], _, .refl, .ret⟩
  | raise e => exact ⟨[], _, .refl, .raise⟩
  | act a k ih =>
    obtain ⟨as, q, hk, hq⟩ := ih hp
    exact ⟨a :: as, q, .act hk, hq⟩
  | call => exact hp.elim

theorem Leads.attempt {as : List A} {q : Program C A ε α} (h : Leads r p Rs as q) :
    Leads r (p.attempt : Program C A ε' (Except ε α)) Rs as q.attempt := by
  induction h with
  | refl => exact .refl
  | act _ ih => exact .act ih
  | call _ ih => exact .call ih

/-- A program that raises an error raises the translated one. -/
theorem Leads.mapError_raise {as : List A} {e : ε} (g : ε → ε') (h : Leads r p Rs as (.raise e)) :
    Leads r (p.mapError g) Rs as (.raise (g e)) :=
  h.attempt.bind

theorem Leads.mapError_ret {as : List A} {a : α} (g : ε → ε') (h : Leads r p Rs as (.ret a)) :
    Leads r (p.mapError g) Rs as (.ret a) :=
  h.attempt.bind

/-- What a program that returns does in the end. -/
theorem Leads.ensuring {as cleanup : List A} {a : α} (h : Leads r p Rs as (.ret a)) :
    Leads r (p.ensuring cleanup) Rs (as ++ cleanup) (.ret a) := by
  have hcleanup : Leads r (Program.performAll cleanup >>= fun _ => (.ret a : Program C A ε α)) []
      (cleanup ++ []) (.ret a) := .performAll .refl
  have hattempt : Leads r (p.attempt : Program C A ε _) Rs as (.ret (.ok a)) := h.attempt
  have hall := hattempt.seq hcleanup (f := fun outcome => do
    Program.performAll cleanup
    Program.ofExcept outcome)
  rwa [List.append_nil, List.append_nil] at hall

namespace EndsAfter

theorem act {a : A} {k : Program C A ε α} (h : EndsAfter r k Rs) :
    EndsAfter r (.act a k) Rs := by
  obtain ⟨as, q, hk, hq⟩ := h
  exact ⟨a :: as, q, .act hk, hq⟩

theorem attempt (h : EndsAfter r p Rs) :
    EndsAfter r (p.attempt : Program C A ε' (Except ε α)) Rs := by
  obtain ⟨as, q, hp, hq⟩ := h
  refine ⟨as, q.attempt, hp.attempt, ?_⟩
  cases hq with
  | ret => exact .ret
  | raise => exact .ret

/-- What follows locally enters no further round. -/
theorem bind (h : EndsAfter r p Rs) (hf : ∀ a, (f a).Local) : EndsAfter r (p >>= f) Rs := by
  obtain ⟨as, q, hp, hq⟩ := h
  cases hq with
  | raise => exact ⟨as, _, hp.bind_raise, .raise⟩
  | @ret a =>
    obtain ⟨as', q, hfa, hq⟩ := (hf a).endsAfter (r := r)
    exact ⟨as ++ as', q, by simpa using hp.seq hfa, hq⟩

theorem ensuring (h : EndsAfter r p Rs) (as : List A) : EndsAfter r (p.ensuring as) Rs :=
  h.attempt.bind fun x =>
    (Program.local_performAll as).bind fun _ => Program.local_ofExcept x

end EndsAfter

/-! ## Outcomes -/

namespace Program

variable (answer : (op : C.Op) → C.In op → C.Out op)

/-- How a program ends when its collective calls are answered by `answer`. -/
def outcome : Program C A ε α → Except ε α
  | .ret a => .ok a
  | .raise e => .error e
  | .act _ k => k.outcome
  | .call op v k => (k (answer op v)).outcome

@[simp] theorem outcome_ret (a : α) : (.ret a : Program C A ε α).outcome answer = .ok a := rfl

@[simp] theorem outcome_raise (e : ε) :
    (.raise e : Program C A ε α).outcome answer = .error e := rfl

@[simp] theorem outcome_act (a : A) (k : Program C A ε α) :
    (Program.act a k).outcome answer = k.outcome answer := rfl

@[simp] theorem outcome_perform (a : A) :
    (perform a : Program C A ε Unit).outcome answer = .ok () := rfl

@[simp] theorem outcome_performAll (as : List A) :
    (performAll as : Program C A ε Unit).outcome answer = .ok () := by
  induction as with
  | nil => rfl
  | cons a as ih => exact ih

@[simp] theorem outcome_ofExcept (x : Except ε α) :
    (ofExcept x : Program C A ε α).outcome answer = x := by
  cases x <;> rfl

@[simp] theorem outcome_bind (p : Program C A ε α) (f : α → Program C A ε β) :
    (p >>= f).outcome answer = p.outcome answer >>= fun a => (f a).outcome answer := by
  induction p with
  | ret | raise => rfl
  | act a k ih => exact ih
  | call op v k ih => exact ih _

@[simp] theorem outcome_attempt (p : Program C A ε α) :
    (p.attempt : Program C A ε' (Except ε α)).outcome answer = .ok (p.outcome answer) := by
  induction p with
  | ret | raise => rfl
  | act a k ih => exact ih
  | call op v k ih => exact ih _

@[simp] theorem outcome_mapError (g : ε → ε') (p : Program C A ε α) :
    (p.mapError g).outcome answer = (p.outcome answer).mapError g := by
  simp only [mapError, outcome_bind, outcome_attempt, outcome_ofExcept]
  rfl

/-- What a program does when its collective calls are answered by `answer`. -/
def trace : Program C A ε α → List A
  | .ret _ | .raise _ => []
  | .act a k => a :: k.trace
  | .call op v k => (k (answer op v)).trace

@[simp] theorem trace_ret (a : α) : (.ret a : Program C A ε α).trace answer = [] := rfl

@[simp] theorem trace_raise (e : ε) : (.raise e : Program C A ε α).trace answer = [] := rfl

@[simp] theorem trace_act (a : A) (k : Program C A ε α) :
    (Program.act a k).trace answer = a :: k.trace answer := rfl

@[simp] theorem trace_ofExcept (x : Except ε α) :
    (ofExcept x : Program C A ε α).trace answer = [] := by
  cases x <;> rfl

/-- What is done after a program that returns. -/
theorem trace_bind_ok {a : α} (f : α → Program C A ε β) (h : p.outcome answer = .ok a) :
    (p >>= f).trace answer = p.trace answer ++ (f a).trace answer := by
  induction p with
  | ret => cases h; rfl
  | raise => cases h
  | act a k ih => exact congrArg (a :: ·) (ih h)
  | call op v k ih => exact ih _ h

/-- Nothing is done after a program that throws. -/
theorem trace_bind_error {e : ε} (f : α → Program C A ε β) (h : p.outcome answer = .error e) :
    (p >>= f).trace answer = p.trace answer := by
  induction p with
  | ret => cases h
  | raise => rfl
  | act a k ih => exact congrArg (a :: ·) (ih h)
  | call op v k ih => exact ih _ h

@[simp] theorem trace_attempt (p : Program C A ε α) :
    (p.attempt : Program C A ε' (Except ε α)).trace answer = p.trace answer := by
  induction p with
  | ret | raise => rfl
  | act a k ih => exact congrArg (a :: ·) ih
  | call op v k ih => exact ih _

@[simp] theorem trace_mapError (g : ε → ε') (p : Program C A ε α) :
    (p.mapError g).trace answer = p.trace answer := by
  rw [mapError, trace_bind_ok _ _ (outcome_attempt ..), trace_attempt, trace_ofExcept,
    List.append_nil]

/-! ## Programs on a state -/

section
variable {σ : Type} (effect : A → σ → σ)

/-- The program on a state that its actions change. -/
def runIn : Program C A ε α → EStateM ε σ α
  | .ret a => pure a
  | .raise e => throw e
  | .act a k => do
    modify (effect a)
    k.runIn
  | .call op v k => (k (answer op v)).runIn

theorem runIn_bind (p : Program C A ε α) (f : α → Program C A ε β) :
    (p >>= f).runIn answer effect =
      p.runIn answer effect >>= fun a => (f a).runIn answer effect := by
  induction p with
  | ret | raise => rfl
  | act a k ih =>
    simp only [act_bind, runIn, ih]
    rfl
  | call op v k ih => exact ih _

theorem runIn_performAll_bind (as : List A) (q : Program C A ε α) (s : σ) :
    (performAll as >>= fun _ => q).runIn answer effect s =
      q.runIn answer effect (as.foldl (fun s a => effect a s) s) := by
  induction as generalizing s with
  | nil => rfl
  | cons a as ih => exact ih _

theorem runIn_attempt (p : Program C A ε α) (s : σ) :
    (p.attempt : Program C A ε' (Except ε α)).runIn answer effect s =
      match p.runIn answer effect s with
      | .ok a s => .ok (.ok a) s
      | .error e s => .ok (.error e) s := by
  induction p generalizing s with
  | ret | raise => rfl
  | act a k ih => exact ih _
  | call op v k ih => exact ih _ _

theorem runIn_ensuring (p : Program C A ε α) (as : List A) :
    (p.ensuring as).runIn answer effect =
      Transition.ensuring (p.runIn answer effect) fun s => as.foldl (fun s a => effect a s) s := by
  funext s
  rw [ensuring, runIn_bind]
  show EStateM.bind _ _ s = _
  rw [EStateM.bind, runIn_attempt, Transition.ensuring]
  cases p.runIn answer effect s with
  | ok a s' => exact runIn_performAll_bind answer effect as (.ret a) s'
  | error e s' => exact runIn_performAll_bind answer effect as (.raise e) s'

end

end Program

end GinkgoTpl.Spmd
