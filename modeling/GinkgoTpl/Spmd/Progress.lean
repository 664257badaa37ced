import Mathlib.Algebra.BigOperators.Group.Finset.Basic
import Mathlib.Algebra.Order.BigOperators.Group.Finset
import Mathlib.Data.Fintype.Basic
import Mathlib.Data.Finset.Lattice.Fold
import GinkgoTpl.Spmd.Machine

/-!
# Stranded ranks and completion

A job *strands* rank `s` when some rank has raised an error and `s` waits in, or still gets to
enter, a collective call that the failed rank never enters. Programs that run together to final
programs never strand a rank, never block and always complete, in every interleaving
(`Together.not_strands`, `Together.progress`, `Together.completes`); programs that run together
to a point where one raises an error and another enters a call do strand a rank
(`Together.strands`).
-/

namespace GinkgoTpl.Spmd

variable {ι : Type} {C : Collectives ι} {A ε α : Type} [DecidableEq ι]
  {ps qs : ι → Program C A ε α} {Rs : List (Round C)} {as : ι → List A} {st st' : State C A ε α}
  {r s : ι}

namespace State

/-- Rank `r` has raised an error. -/
def Threw (st : State C A ε α) (r : ι) : Prop := ∃ e, (st r).phase = .run (.raise e)

/-- Rank `r` is inside a collective call. -/
def Inside (st : State C A ε α) (r : ι) : Prop := ∃ op k, (st r).phase = .inside op k

/-- Rank `r` has returned or raised an error. -/
def Done (st : State C A ε α) (r : ι) : Prop := ∃ p, (st r).phase = .run p ∧ p.Final

/-- Rank `r` has raised an error, and rank `s` is, or in some continuation will be, inside a
collective call later than the last one that `r` has entered. -/
def Strands (st : State C A ε α) (r s : ι) : Prop :=
  st.Threw r ∧ ∃ st', Reach st st' ∧ st'.Inside s ∧ (st r).entered.length < (st' s).entered.length

end State

/-- Programs that run together to final ones never strand a rank. -/
theorem Together.not_strands (h : Together ps Rs as qs) (hq : ∀ r, (qs r).Final)
    (hst : Reach (start ps) st) : ¬ st.Strands r s := by
  rintro ⟨⟨e, hr⟩, st', hst', -, hlt⟩
  obtain ⟨-, hent, -⟩ := h.outcome hst (hq r) hr .raise
  have := (h.onPath (hst.trans hst') (hq s)).entered_le.length_le
  simp only [hent, List.length_map] at hlt this
  omega

/-! ## Progress -/

omit [DecidableEq ι] in
theorem OnPath.inside_inv {Rs : List (Round C)} {as : List A} {q : Program C A ε α}
    {x : Rank C A ε α} (h : OnPath r Rs as q x) {op : C.Op} {k : C.Out op → Program C A ε α}
    (hx : x.phase = .inside op k) :
    ∃ es v, x = ⟨.inside op k, es ++ [⟨op, v⟩], x.log⟩ ∧
      ∃ vs, Rs[es.length]? = some ⟨op, vs⟩ ∧ vs r = v := by
  cases h with
  | run => cases hx
  | inside hRs =>
    cases hx
    exact ⟨_, _, rfl, _, by simp [hRs], rfl⟩

/-- Programs that run together to final ones never block: as long as a rank is not done, some
rank can take a step. -/
theorem Together.progress (h : Together ps Rs as qs) (hq : ∀ r, (qs r).Final)
    (hst : Reach (start ps) st) (hr : ¬ st.Done r) : ∃ st', Step st st' := by
  by_cases hrun : ∃ s p, (st s).phase = .run p ∧ ¬ p.Final
  · obtain ⟨s, p, hs, hp⟩ := hrun
    have hst_s : st s = ⟨.run p, (st s).entered, (st s).log⟩ := by rw [← hs]
    cases p with
    | ret | raise => exact absurd (by constructor) hp
    | act => exact ⟨_, .act hst_s⟩
    | call => exact ⟨_, .enter hst_s⟩
  -- all ranks are done or inside a call; take one that has entered the fewest rounds
  have hcase : ∀ s, st.Done s ∨ st.Inside s := by
    intro s
    cases hs : (st s).phase with
    | run p => exact .inl ⟨p, hs, by_contra fun hp => hrun ⟨s, p, hs, hp⟩⟩
    | inside op k => exact .inr ⟨op, k, hs⟩
  let waiting (n : ℕ) : Prop := ∃ s, st.Inside s ∧ (st s).entered.length = n
  have hex : ∃ n, waiting n := ⟨_, r, (hcase r).resolve_left hr, rfl⟩
  classical
  obtain ⟨s, ⟨op, k, hs⟩, hn⟩ := Nat.find_spec hex
  obtain ⟨es, v, hst_s, vs, hR, hv⟩ := (h.onPath hst (hq s)).inside_inv hs
  refine ⟨_, .leave vs hst_s hv fun t _ => ?_⟩
  have hlen : es.length < (st t).entered.length := by
    have hles : (st s).entered.length = es.length + 1 := by rw [hst_s]; simp
    rcases hcase t with ⟨p, hp, hf⟩ | ht
    · obtain ⟨-, hent, -⟩ := h.outcome hst (hq t) hp hf
      simpa [hent] using (List.getElem?_eq_some_iff.mp hR).1
    · have := Nat.find_min' hex ⟨t, ht, rfl⟩
      omega
  have ht := List.getElem?_eq_getElem hlen
  rw [ht, entered_eq_post (.inl (h.onPath hst (hq t))) hR ht]
  rfl

/-! ## Completion -/

section Completion
variable [Fintype ι]

/-- The steps a rank has taken. -/
def Rank.work (x : Rank C A ε α) : ℕ :=
  x.log.length + 2 * x.entered.length - match x.phase with | .run _ => 0 | .inside .. => 1

/-- The steps all ranks have taken together. -/
def State.work (st : State C A ε α) : ℕ := ∑ r, (st r).work

theorem Step.work (h : Step st st') : st'.work = st.work + 1 := by
  have key : ∀ r x, x.work = (st r).work + 1 →
      State.work (Function.update st r x) = st.work + 1 := by
    intro r x hx
    unfold State.work
    rw [← Finset.add_sum_erase _ _ (Finset.mem_univ r),
      ← Finset.add_sum_erase _ _ (Finset.mem_univ r),
      Function.update_self, hx]
    have : ∑ s ∈ Finset.univ.erase r, (Function.update st r x s).work =
        ∑ s ∈ Finset.univ.erase r, (st s).work :=
      Finset.sum_congr rfl fun s hs => by rw [Function.update_of_ne (Finset.ne_of_mem_erase hs)]
    omega
  cases h with
  | act hr => refine key _ _ ?_; simp [hr, Rank.work]; omega
  | enter hr => refine key _ _ ?_; simp [hr, Rank.work]; omega
  | leave vs hr => refine key _ _ ?_; simp [hr, Rank.work]; omega

omit [DecidableEq ι] [Fintype ι] in
/-- A rank on its path has taken at most the steps of the path. -/
theorem OnPath.work_le {Rs : List (Round C)} {as : List A} {q : Program C A ε α}
    {x : Rank C A ε α} (h : OnPath r Rs as q x) : x.work ≤ as.length + 2 * Rs.length := by
  have h1 := h.log_le.length_le
  have h2 := h.entered_le.length_le
  simp only [List.length_map] at h2
  unfold Rank.work
  omega

/-- Every interleaving of programs that run together to final ones can be continued until all
ranks are done. With `Step.work` and `OnPath.work_le`, no interleaving goes on for ever either. -/
theorem Together.completes (h : Together ps Rs as qs) (hq : ∀ r, (qs r).Final)
    (hst : Reach (start ps) st) : ∃ st', Reach st st' ∧ ∀ r, st'.Done r := by
  let bound := ∑ r, ((as r).length + 2 * Rs.length)
  have hbound : ∀ {st}, Reach (start ps) st → st.work ≤ bound := fun hst =>
    Finset.sum_le_sum fun r _ => (h.onPath hst (hq r)).work_le
  generalize hn : bound - st.work = n
  induction n using Nat.strongRecOn generalizing st with
  | _ n ih =>
    by_cases hdone : ∀ r, st.Done r
    · exact ⟨st, .refl, hdone⟩
    obtain ⟨r, hr⟩ := not_forall.mp hdone
    obtain ⟨st₁, hstep⟩ := h.progress hq hst hr
    have h1 := hstep.work
    have h2 := hbound (hst.tail hstep)
    obtain ⟨st', hst', hd⟩ := ih (bound - st₁.work) (by omega) (hst.tail hstep) rfl
    exact ⟨st', .head hstep hst', hd⟩

end Completion

/-! ## Reaching a common point -/

/-- If each rank can go from `f r` to `g r` on its own, whichever of the others have already
done so, then all of them can. -/
theorem reach_pointwise [Fintype ι] {f g : State C A ε α}
    (h : ∀ r (st : State C A ε α), st r = f r → (∀ s, st s = f s ∨ st s = g s) →
      Reach st (Function.update st r (g r))) : Reach f g := by
  have key : ∀ S : Finset ι, Reach f fun s => if s ∈ S then g s else f s := by
    intro S
    induction S using Finset.induction_on with
    | empty => simpa using Relation.ReflTransGen.refl
    | insert r S hr ih =>
      refine ih.trans ?_
      have hstep := h r (fun s => if s ∈ S then g s else f s) (by simp [hr])
        fun s => by by_cases hs : s ∈ S <;> simp [hs]
      convert hstep using 1
      funext s
      by_cases hs : s = r
      · subst hs; simp
      · simp [hs]
  simpa using key Finset.univ

theorem Leads.reach {p q : Program C A ε α} {as₁ : List A} (h : Leads r p [] as₁ q) :
    ∀ {st : State C A ε α} {es as₀}, st r = ⟨.run p, es, as₀⟩ →
      Reach st (Function.update st r ⟨.run q, es, as₀ ++ as₁⟩) := by
  generalize hRs : ([] : List (Round C)) = Rs at h
  induction h with
  | refl =>
    intro st es as₀ hst
    rw [List.append_nil, ← hst, Function.update_eq_self]
  | @act k _ _ _ a _ ih =>
    intro st es as₀ hst
    have hk : Function.update st r ⟨.run k, es, as₀ ++ [a]⟩ r = ⟨.run k, es, as₀ ++ [a]⟩ := by simp
    simpa using Relation.ReflTransGen.head (Step.act hst) (ih hRs hk)
  | call => cases hRs

/-- All ranks together reach the end of the common rounds, from any state in which they have
entered the same number of rounds. -/
theorem Together.reach_end [Fintype ι] (h : Together ps Rs as qs) (es : ι → List (Σ op, C.In op))
    (as₀ : ι → List A) {n : ℕ} (hes : ∀ r, (es r).length = n) :
    Reach (fun r => ⟨.run (ps r), es r, as₀ r⟩)
      (fun r => ⟨.run (qs r), es r ++ Rs.map (·.post r), as₀ r ++ as r⟩) := by
  induction Rs generalizing ps as es as₀ n with
  | nil => exact reach_pointwise fun r st hst _ => by simpa using (h r).reach hst
  | cons R Rs ih =>
    choose as₁ as₂ k has hcall hrest using fun r => (h r).cons_inv
    let mid (ph : ι → Phase C A ε α) (es : ι → List (Σ op, C.In op)) : State C A ε α :=
      fun r => ⟨ph r, es r, as₀ r ++ as₁ r⟩
    let es' (r : ι) := es r ++ [R.post r]
    -- every rank comes to its call, enters it, and leaves it once all are inside
    have h1 : Reach (fun r => ⟨.run (ps r), es r, as₀ r⟩)
        (mid (fun r => .run (.call R.op (R.vs r) (k r))) es) :=
      reach_pointwise fun r st hst _ => (hcall r).reach hst
    have h2 : Reach (mid (fun r => .run (.call R.op (R.vs r) (k r))) es)
        (mid (fun r => .inside R.op (k r)) es') :=
      reach_pointwise fun r st hst _ => .single (.enter hst)
    have h3 : Reach (mid (fun r => .inside R.op (k r)) es')
        (mid (fun r => .run (k r (R.answer r))) es') := by
      refine reach_pointwise fun r st hst hall => .single (.leave R.vs hst rfl fun s _ => ?_)
      rcases hall s with hs | hs <;> simp [mid, es', hs, hes, Round.post]
    have h4 := ih hrest es' (fun r => as₀ r ++ as₁ r) (n := n + 1) (by simp [es', hes])
    refine h1.trans (h2.trans (h3.trans ?_))
    simpa [es', has] using h4

end GinkgoTpl.Spmd
