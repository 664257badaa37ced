import GinkgoTpl.Spmd.Alike
import GinkgoTpl.Spmd.Contract

/-!
# What the ranks end with together

`Joint ps Q` says that the programs `ps` run together through common rounds until each of them has
ended, and that `Q` holds of how all of them have ended. In contrast to `EndAlike`, the errors are
seen by `Q`, so that a handler can go on from them. The last part puts the calls of two libraries
on one group of ranks side by side.
-/

namespace GinkgoTpl.Spmd

variable {ι : Type} {C D : Collectives ι} {A B ε ε' α β : Type}

/-- The ranks run together until all of them have ended, in such a way that `Q` holds. -/
def Joint (ps : ι → Program C A ε α) (Q : (ι → Except ε α) → Prop) : Prop :=
  ∃ Rs as x, (Together ps Rs as fun r => .ofExcept (x r)) ∧ Q x

theorem Program.final_ofExcept (x : Except ε α) : (ofExcept x : Program C A ε α).Final := by
  cases x with
  | ok => exact .ret
  | error => exact .raise

theorem Program.attempt_ofExcept (x : Except ε α) :
    ((ofExcept x : Program C A ε α).attempt : Program C A ε' (Except ε α)) = .ret x := by
  cases x <;> rfl

theorem Program.Final.exists_eq_ofExcept {p : Program C A ε α} (h : p.Final) :
    ∃ x, p = .ofExcept x := by
  cases h with
  | @ret a => exact ⟨.ok a, rfl⟩
  | @raise e => exact ⟨.error e, rfl⟩

theorem Program.bind_ret (p : Program C A ε α) : (p >>= .ret) = p := by
  induction p with
  | ret | raise => rfl
  | act a k ih => exact congrArg (Program.act a) ih
  | call op v k ih => exact congrArg (Program.call op v) (funext ih)

namespace Joint

variable {ps : ι → Program C A ε α} {Q Q' : (ι → Except ε α) → Prop}

theorem mono (h : Joint ps Q) (hQ : ∀ x, Q x → Q' x) : Joint ps Q' := by
  obtain ⟨Rs, as, x, hps, hx⟩ := h
  exact ⟨Rs, as, x, hps, hQ x hx⟩

theorem ret {a : ι → α} (h : Q fun r => .ok (a r)) :
    Joint (fun r => (Program.ret (a r) : Program C A ε α)) Q :=
  ⟨[], fun _ => [], _, fun _ => .refl, h⟩

theorem raise {es : ι → ε} (h : Q fun r => .error (es r)) :
    Joint (fun r => (Program.raise (es r) : Program C A ε α)) Q :=
  ⟨[], fun _ => [], _, fun _ => .refl, h⟩

theorem act {a : ι → A} (h : Joint ps Q) : Joint (fun r => .act (a r) (ps r)) Q := by
  obtain ⟨Rs, as, x, hps, hx⟩ := h
  exact ⟨Rs, fun r => a r :: as r, x, fun r => .act (hps r), hx⟩

/-- The ranks enter the same call. -/
theorem call {op : C.Op} {vs : ι → C.In op} {k : ι → C.Out op → Program C A ε α}
    (h : Joint (fun r => k r (C.combine op vs r)) Q) :
    Joint (fun r => .call op (vs r) (k r)) Q := by
  obtain ⟨Rs, as, x, hk, hx⟩ := h
  exact ⟨⟨op, vs⟩ :: Rs, as, x, fun r => (hk r).call' vs rfl, hx⟩

/-- All ranks return, and go on together, or all ranks raise an error. -/
theorem bind {f : ι → α → Program C A ε β} {Q : (ι → Except ε β) → Prop}
    (h : Joint ps fun x => (∃ out : ι → α, (x = fun r => .ok (out r)) ∧
      Joint (fun r => f r (out r)) Q) ∨
        ∃ es : ι → ε, (x = fun r => .error (es r)) ∧ Q fun r => .error (es r)) :
    Joint (fun r => ps r >>= f r) Q := by
  obtain ⟨Rs, as, x, hps, ⟨out, rfl, hf⟩ | ⟨es, rfl, hQ⟩⟩ := h
  · obtain ⟨Rs', as', y, hfs, hy⟩ := hf
    exact ⟨Rs ++ Rs', fun r => as r ++ as' r, y, fun r => (hps r).seq (hfs r), hy⟩
  · exact ⟨Rs, as, _, fun r => (hps r).bind_raise, hQ⟩

theorem attempt {Q : (ι → Except ε' (Except ε α)) → Prop}
    (h : Joint ps fun x => Q fun r => .ok (x r)) : Joint (fun r => (ps r).attempt) Q := by
  obtain ⟨Rs, as, x, hps, hx⟩ := h
  refine ⟨Rs, as, _, fun r => ?_, hx⟩
  have hattempt : Leads r ((ps r).attempt : Program C A ε' _) Rs (as r) _ := (hps r).attempt
  rwa [Program.attempt_ofExcept] at hattempt

theorem mapError {g : ι → ε → ε'} {Q : (ι → Except ε' α) → Prop}
    (h : Joint ps fun x => Q fun r => (x r).mapError (g r)) :
    Joint (fun r => (ps r).mapError (g r)) Q := by
  obtain ⟨Rs, as, x, hps, hx⟩ := h
  refine ⟨Rs, as, _, fun r => ?_, hx⟩
  have hattempt : Leads r ((ps r).attempt : Program C A ε' _) Rs (as r) _ := (hps r).attempt
  rw [Program.attempt_ofExcept] at hattempt
  exact hattempt.bind

/-- What each rank ends with on its own holds of it among the others. -/
theorem and_wp {R : ι → Except ε α → Prop} (h : Joint ps Q)
    (hR : ∀ r, (ps r).Wp (noEffects A) () fun x _ => R r x) :
    Joint ps fun x => Q x ∧ ∀ r, R r (x r) := by
  obtain ⟨Rs, as, x, hps, hx⟩ := h
  exact ⟨Rs, as, x, hps, hx, fun r => Program.wp_ofExcept.mp ((hps r).wp (hR r)).2⟩

/-- From rounds that take all ranks to programs that end together. -/
theorem of_together {qs : ι → Program C A ε α} {Rs : List (Round C)} {as : ι → List A}
    (h : Together ps Rs as qs) (hqs : Joint qs Q) : Joint ps Q := by
  obtain ⟨Rs', as', x, hq, hx⟩ := hqs
  exact ⟨Rs ++ Rs', fun r => as r ++ as' r, x, fun r => (h r).trans (hq r), hx⟩

/-- Each rank ends after the same rounds. -/
theorem of_endsAfter {Rs : List (Round C)} (h : ∀ r, EndsAfter r (ps r) Rs) :
    Joint ps fun _ => True := by
  choose as qs hps hfinal using h
  choose x hx using fun r => (hfinal r).exists_eq_ofExcept
  refine ⟨Rs, as, x, fun r => ?_, trivial⟩
  have hr := hps r
  rwa [hx r] at hr

end Joint

/-- Ranks that end alike end together. -/
theorem EndAlike.joint {N : Prop} {ps : ι → Program C A ε α} {Q : ι → α → Prop}
    (h : EndAlike N ps Q) :
    Joint ps fun x => (∃ out : ι → α, (x = fun r => .ok (out r)) ∧ ∀ r, Q r (out r)) ∨
      N ∧ ∃ es : ι → ε, x = fun r => .error (es r) := by
  obtain ⟨Rs, as, ⟨out, hps, hQ⟩ | ⟨hN, es, hps⟩⟩ := h
  · exact ⟨Rs, as, fun r => .ok (out r), hps, .inl ⟨out, rfl, hQ⟩⟩
  · exact ⟨Rs, as, fun r => .error (es r), hps, .inr ⟨hN, es, rfl⟩⟩

namespace Joint

variable {ps : ι → Program C A ε α} {Q : (ι → Except ε α) → Prop}

section
variable [DecidableEq ι] {st : State C A ε α}

/-- Ranks that end together never leave each other behind. -/
theorem not_strands (h : Joint ps Q) (hst : Reach (start ps) st) (r s : ι) : ¬ st.Strands r s := by
  obtain ⟨Rs, as, x, hps, -⟩ := h
  exact hps.not_strands (fun r => Program.final_ofExcept (x r)) hst

/-- Every interleaving can be continued until all ranks are done, and when they are, they have
ended as `Q` says. -/
theorem completes [Fintype ι] (h : Joint ps Q) (hst : Reach (start ps) st) :
    ∃ st', Reach st st' ∧ ∃ x, Q x ∧ ∀ r, (st' r).phase = .run (.ofExcept (x r)) := by
  obtain ⟨Rs, as, x, hps, hx⟩ := h
  obtain ⟨st', hst', hdone⟩ := hps.completes (fun r => Program.final_ofExcept (x r)) hst
  refine ⟨st', hst', x, hx, fun r => ?_⟩
  obtain ⟨p, hp, hf⟩ := hdone r
  rw [hp, (hps.outcome (hst.trans hst') (Program.final_ofExcept (x r)) hp hf).1]

end

end Joint

/-! ## Programs with other actions -/

/-- The program with its actions translated. -/
def Program.mapActions (f : A → B) : Program C A ε α → Program C B ε α
  | .ret a => .ret a
  | .raise e => .raise e
  | .act a k => .act (f a) (k.mapActions f)
  | .call op v k => .call op v fun o => (k o).mapActions f

theorem Program.mapActions_ofExcept (f : A → B) (x : Except ε α) :
    ((ofExcept x : Program C A ε α).mapActions f) = .ofExcept x := by
  cases x <;> rfl

theorem Leads.mapActions (f : A → B) {r : ι} {p q : Program C A ε α} {Rs : List (Round C)}
    {as : List A} (h : Leads r p Rs as q) :
    Leads r (p.mapActions f) Rs (as.map f) (q.mapActions f) := by
  induction h with
  | refl => exact .refl
  | act _ ih => exact .act ih
  | @call _ _ _ R k _ ih => exact .call (R := R) (k := fun o => (k o).mapActions f) ih

theorem Joint.mapActions {f : A → B} {ps : ι → Program C A ε α} {Q : (ι → Except ε α) → Prop}
    (h : Joint ps Q) : Joint (fun r => (ps r).mapActions f) Q := by
  obtain ⟨Rs, as, x, hps, hx⟩ := h
  refine ⟨Rs, fun r => (as r).map f, x, fun r => ?_, hx⟩
  have hmap := (hps r).mapActions f
  rwa [Program.mapActions_ofExcept] at hmap

/-- The effects of translated actions. -/
def Effects.comap {σ : Type} (E : Effects B σ) (f : A → B) : Effects A σ :=
  ⟨fun s a => E.allowed s (f a), fun s a => E.apply s (f a)⟩

theorem Program.wp_mapActions {σ : Type} {E : Effects B σ} {f : A → B} {p : Program C A ε α} {s : σ}
    {Q : Except ε α → σ → Prop} : (p.mapActions f).Wp E s Q ↔ p.Wp (E.comap f) s Q := by
  induction p generalizing s with
  | ret | raise => rfl
  | act a k ih => exact and_congr .rfl ih
  | call op v k ih => exact forall_congr' fun o => ih o

/-- A program whose actions are all allowed in `s` and change nothing. -/
theorem Program.wp_const {σ : Type} {E : Effects A σ} {s : σ}
    (h : ∀ a, E.allowed s a ∧ E.apply s a = s) (p : Program C A ε α) :
    p.Wp E s fun _ t => t = s := by
  induction p with
  | ret | raise => exact rfl
  | act a k ih => exact ⟨(h a).1, by rw [(h a).2]; exact ih⟩
  | call op v k ih => exact ih

/-! ## Two libraries on one group of ranks -/

/-- The calls of two libraries. -/
def Collectives.sum (C D : Collectives ι) : Collectives ι where
  Op := C.Op ⊕ D.Op
  In := Sum.elim C.In D.In
  Out := Sum.elim C.Out D.Out
  Needs := Sum.elim C.Needs D.Needs
  combine
    | .inl op, vs, r => C.combine op vs r
    | .inr op, vs, r => D.combine op vs r
  combine_congr {op _ _ _} h :=
    match op with
    | .inl _ => C.combine_congr h
    | .inr _ => D.combine_congr h

/-- A program that uses the calls of the first library only. -/
def Program.inl : Program C A ε α → Program (C.sum D) A ε α
  | .ret a => .ret a
  | .raise e => .raise e
  | .act a k => .act a k.inl
  | .call op v k => .call (C := C.sum D) (.inl op) v fun o => (k o).inl

/-- A round of the first library. -/
def Round.inl (R : Round C) : Round (C.sum D) := ⟨.inl R.op, R.vs⟩

theorem Program.inl_ofExcept (x : Except ε α) :
    ((ofExcept x : Program C A ε α).inl : Program (C.sum D) A ε α) = .ofExcept x := by
  cases x <;> rfl

theorem Leads.inl {r : ι} {p q : Program C A ε α} {Rs : List (Round C)} {as : List A}
    (h : Leads r p Rs as q) :
    Leads r (p.inl : Program (C.sum D) A ε α) (Rs.map Round.inl) as q.inl := by
  induction h with
  | refl => exact .refl
  | act _ ih => exact .act ih
  | @call _ _ _ R k _ ih => exact .call (R := R.inl) (k := fun o => (k o).inl) ih

theorem Joint.inl {ps : ι → Program C A ε α} {Q : (ι → Except ε α) → Prop} (h : Joint ps Q) :
    Joint (fun r => ((ps r).inl : Program (C.sum D) A ε α)) Q := by
  obtain ⟨Rs, as, x, hps, hx⟩ := h
  refine ⟨Rs.map .inl, as, x, fun r => ?_, hx⟩
  have hinl := (hps r).inl (D := D)
  rwa [Program.inl_ofExcept] at hinl

theorem Program.Wp.inl {σ : Type} {E : Effects A σ} {s : σ} {Q : Except ε α → σ → Prop}
    {p : Program C A ε α} (h : p.Wp E s Q) : (p.inl : Program (C.sum D) A ε α).Wp E s Q := by
  induction p generalizing s with
  | ret | raise => exact h
  | act a k ih => exact ⟨h.1, ih h.2⟩
  | call op v k ih => exact fun o => ih o (h o)

end GinkgoTpl.Spmd
