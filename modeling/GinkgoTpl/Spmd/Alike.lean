import GinkgoTpl.Spmd.Progress

/-!
# Ranks that end alike

`EndAlike N ps Q` says that the programs `ps` run together through common rounds until either all
ranks return, each rank `r` a value with `Q r`, or all ranks raise an error, which they do only if
`N`. There is a rule for every way of building a program; none of them looks at the rounds.
-/

namespace GinkgoTpl.Spmd

variable {ι : Type} {C : Collectives ι} {A ε α β : Type} {N : Prop}

/-- All ranks return values that satisfy `Q`, or all raise errors, the latter only if `N`. -/
def EndAlike (N : Prop) (ps : ι → Program C A ε α) (Q : ι → α → Prop) : Prop :=
  ∃ Rs as, (∃ out : ι → α, (Together ps Rs as fun r => .ret (out r)) ∧ ∀ r, Q r (out r)) ∨
    N ∧ ∃ es : ι → ε, Together ps Rs as fun r => .raise (es r)

namespace EndAlike

variable {ps : ι → Program C A ε α} {Q : ι → α → Prop} {Q' : ι → β → Prop}

theorem ret {a : ι → α} (h : ∀ r, Q r (a r)) :
    EndAlike N (fun r => (.ret (a r) : Program C A ε α)) Q :=
  ⟨[], fun _ => [], .inl ⟨a, fun _ => .refl, h⟩⟩

theorem raise (hN : N) (es : ι → ε) :
    EndAlike N (fun r => (Program.raise (es r) : Program C A ε α)) Q :=
  ⟨[], fun _ => [], .inr ⟨hN, es, fun _ => .refl⟩⟩

theorem bind {f : ι → α → Program C A ε β} (h : EndAlike N ps Q)
    (hf : ∀ out : ι → α, (∀ r, Q r (out r)) → EndAlike N (fun r => f r (out r)) Q') :
    EndAlike N (fun r => ps r >>= f r) Q' := by
  obtain ⟨Rs, as, ⟨out, hps, hQ⟩ | ⟨hN, es, hps⟩⟩ := h
  · obtain ⟨Rs', as', ⟨out', hfs, hQ'⟩ | ⟨hN, es, hfs⟩⟩ := hf out hQ
    · exact ⟨Rs ++ Rs', fun r => as r ++ as' r, .inl ⟨out', fun r => (hps r).seq (hfs r), hQ'⟩⟩
    · exact ⟨Rs ++ Rs', fun r => as r ++ as' r, .inr ⟨hN, es, fun r => (hps r).seq (hfs r)⟩⟩
  · exact ⟨Rs, as, .inr ⟨hN, es, fun r => (hps r).bind_raise⟩⟩

/-- The ranks enter the same call; `Q` need only hold of what follows their answers. -/
theorem call {op : C.Op} {vs : ι → C.In op} {k : ι → C.Out op → Program C A ε α}
    (h : EndAlike N (fun r => k r (C.combine op vs r)) Q) :
    EndAlike N (fun r => .call op (vs r) (k r)) Q := by
  obtain ⟨Rs, as, ⟨out, hk, hQ⟩ | ⟨hN, es, hk⟩⟩ := h
  · exact ⟨⟨op, vs⟩ :: Rs, as, .inl ⟨out, fun r => (hk r).call' vs rfl, hQ⟩⟩
  · exact ⟨⟨op, vs⟩ :: Rs, as, .inr ⟨hN, es, fun r => (hk r).call' vs rfl⟩⟩

/-- A local computation that succeeds everywhere. -/
theorem ofExcept {x : ι → Except ε α} {a : ι → α} (hx : ∀ r, x r = .ok (a r))
    (hQ : ∀ r, Q r (a r)) : EndAlike N (fun r => (Program.ofExcept (x r) : Program C A ε α)) Q := by
  simp only [hx]
  exact .ret hQ

/-- A local computation that is the same everywhere. -/
theorem ofExcept_const (x : Except ε α) (hQ : ∀ a, x = .ok a → ∀ r, Q r a)
    (hN : ∀ e, x = .error e → N) :
    EndAlike N (fun _ => (Program.ofExcept x : Program C A ε α)) Q := by
  cases x with
  | ok a => exact .ret (hQ a rfl)
  | error e => exact .raise (hN e rfl) fun _ => e

/-- A condition that all ranks decide in the same way. -/
theorem ite {c : ι → Prop} [∀ r, Decidable (c r)] {qs : ι → Program C A ε α}
    (hc : ∀ r s, c r → c s) (h : (∀ r, c r) → EndAlike N ps Q)
    (h' : (∀ r, ¬ c r) → EndAlike N qs Q) :
    EndAlike N (fun r => if c r then ps r else qs r) Q := by
  by_cases hall : ∀ r, c r
  · simp only [hall, if_true]
    exact h hall
  · have hnone : ∀ r, ¬ c r := fun r hr => hall fun s => hc r s hr
    simp only [hnone, if_false]
    exact h' hnone

/-- From rounds that take all ranks to programs that end alike. -/
theorem of_together {qs : ι → Program C A ε α} {Rs : List (Round C)} {as : ι → List A}
    (h : Together ps Rs as qs) (hqs : EndAlike N qs Q) : EndAlike N ps Q := by
  obtain ⟨Rs', as', ⟨out, hq, hQ⟩ | ⟨hN, es, hq⟩⟩ := hqs
  · exact ⟨Rs ++ Rs', fun r => as r ++ as' r, .inl ⟨out, fun r => (h r).trans (hq r), hQ⟩⟩
  · exact ⟨Rs ++ Rs', fun r => as r ++ as' r, .inr ⟨hN, es, fun r => (h r).trans (hq r)⟩⟩

/-- Ranks that end alike never leave each other behind. -/
theorem not_strands [DecidableEq ι] (h : EndAlike N ps Q) {st : State C A ε α}
    (hst : Reach (start ps) st) (r s : ι) : ¬ st.Strands r s := by
  obtain ⟨Rs, as, ⟨out, hps, -⟩ | ⟨-, es, hps⟩⟩ := h
  · exact hps.not_strands (fun _ => .ret) hst
  · exact hps.not_strands (fun _ => .raise) hst

end EndAlike

end GinkgoTpl.Spmd
