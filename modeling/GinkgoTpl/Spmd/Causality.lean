import Mathlib.Order.Basic
import GinkgoTpl.Spmd.Machine

/-!
# What a rank knows once it is through a collective call

A rank leaves a collective call only after the ranks it needs have entered it. `Reach.synchronized`
says so for any programs and in any interleaving. For programs that run together to a common call,
`Together.before_of_after` turns it into an order of actions: once a rank acts after the call, all
ranks it needs have done everything they do before it. `TimedReach` adds a clock to the
interleavings, and `Together.stamp_le` is the same order for the times at which the actions are
taken.
-/

namespace GinkgoTpl.Spmd

variable {ι : Type} {C : Collectives ι} {A ε α : Type}

/-- The number of rounds that a rank has been through. -/
def Rank.passed (x : Rank C A ε α) : ℕ :=
  x.entered.length - match x.phase with | .run _ => 0 | .inside .. => 1

@[simp] theorem Rank.passed_run (p : Program C A ε α) (es : List (Σ op, C.In op)) (as : List A) :
    (⟨.run p, es, as⟩ : Rank C A ε α).passed = es.length := rfl

@[simp] theorem Rank.passed_inside (op : C.Op) (k : C.Out op → Program C A ε α)
    (es : List (Σ op, C.In op)) (as : List A) :
    (⟨.inside op k, es, as⟩ : Rank C A ε α).passed = es.length - 1 := rfl

theorem Rank.passed_le (x : Rank C A ε α) : x.passed ≤ x.entered.length := Nat.sub_le ..

/-- Whoever is through a round that needs rank `s` finds that `s` has entered it. -/
def State.Synchronized (st : State C A ε α) : Prop :=
  ∀ r s n op v, n < (st r).passed → (st r).entered[n]? = some ⟨op, v⟩ → C.Needs op r s →
    ∃ v', (st s).entered[n]? = some ⟨op, v'⟩

section
variable [DecidableEq ι] {ps qs : ι → Program C A ε α} {Rs : List (Round C)} {as : ι → List A}
  {st st' : State C A ε α} {r s : ι}

/-- What a step does to any rank: its rounds and its log only grow. -/
theorem Step.grows (h : Step st st') (s : ι) :
    (st s).entered <+: (st' s).entered ∧ (st s).log <+: (st' s).log ∧
      (st s).passed ≤ (st' s).passed := by
  have key : ∀ {r x}, (st r).entered <+: x.entered → (st r).log <+: x.log →
      (st r).passed ≤ x.passed → (st s).entered <+: (Function.update st r x s).entered ∧
      (st s).log <+: (Function.update st r x s).log ∧
      (st s).passed ≤ (Function.update st r x s).passed := by
    intro r x h1 h2 h3
    by_cases hs : s = r
    · subst hs
      simpa using ⟨h1, h2, h3⟩
    · simp [Function.update_of_ne hs]
  cases h with
  | act hr => exact key (by simp [hr]) (by simp [hr]) (by simp [hr])
  | enter hr => exact key (by simp [hr]) (by simp [hr]) (by simp [hr])
  | leave vs hr => exact key (by simp [hr]) (by simp [hr]) (by simp [hr])

/-- A rank that gets through a further round does so by leaving it. -/
theorem Step.passed_inv (h : Step st st') {n : ℕ} (hn : n < (st' r).passed)
    (hold : ¬ n < (st r).passed) {op : C.Op} {v : C.In op}
    (hv : (st' r).entered[n]? = some ⟨op, v⟩) (hs : C.Needs op r s) :
    ∃ v', (st s).entered[n]? = some ⟨op, v'⟩ := by
  -- a step of another rank, or one that is not a departure, gets `r` through no round
  have key : ∀ {r' x}, st' = Function.update st r' x →
      (r' = r → x.passed ≤ (st r).passed) → False := by
    rintro r' x rfl hx
    by_cases hr : r' = r
    · subst hr
      simp only [Function.update_self] at hn
      exact hold (Nat.lt_of_lt_of_le hn (hx rfl))
    · rw [Function.update_of_ne (Ne.symm hr)] at hn
      exact hold hn
  cases h with
  | act hr => exact (key rfl (by rintro rfl; simp [hr])).elim
  | enter hr => exact (key rfl (by rintro rfl; simp [hr])).elim
  | @leave r' op' v' k es _ vs hr hvs hneeds =>
    by_cases hr' : r' = r
    · subst hr'
      simp only [Function.update_self, Rank.passed_run, List.length_append, List.length_cons,
        List.length_nil, hr, Rank.passed_inside, Nat.zero_add, Nat.add_sub_cancel] at hn hold hv
      obtain rfl : n = es.length := by omega
      rw [List.getElem?_concat_length] at hv
      obtain ⟨rfl, -⟩ := Sigma.mk.inj (Option.some.inj hv)
      exact ⟨_, hneeds s hs⟩
    · exact (key rfl fun h => absurd h hr').elim

theorem Step.synchronized (h : Step st st') (hst : st.Synchronized) : st'.Synchronized := by
  intro r s n op v hn hv hs
  obtain ⟨v', hv'⟩ : ∃ v', (st s).entered[n]? = some ⟨op, v'⟩ := by
    by_cases hold : n < (st r).passed
    · obtain ⟨t, ht⟩ := (h.grows r).1
      rw [← ht, List.getElem?_append_left (Nat.lt_of_lt_of_le hold (st r).passed_le)] at hv
      exact hst r s n op v hold hv hs
    · exact h.passed_inv hn hold hv hs
  obtain ⟨t, ht⟩ := (h.grows s).1
  exact ⟨v', by rw [← ht, List.getElem?_append_left (List.getElem?_eq_some_iff.mp hv').1, hv']⟩

/-- In every interleaving, a rank is through a round only after the ranks it needs have entered
it. -/
theorem Reach.synchronized (h : Reach (start ps) st) : st.Synchronized := by
  induction h with
  | refl => exact fun r s n op v hn => absurd hn (Nat.not_lt_zero n)
  | tail _ hstep ih => exact hstep.synchronized ih

/-! ## Before and after a common call -/

omit [DecidableEq ι] in
/-- A rank on its path that enters a call is still on it, or has been through all its rounds. -/
theorem OnPath.enter_or {Rs : List (Round C)} {as : List A} {q : Program C A ε α} {op : C.Op}
    {v : C.In op} {k : C.Out op → Program C A ε α} {es as'}
    (h : OnPath r Rs as q ⟨.run (.call op v k), es, as'⟩) :
    OnPath r Rs as q ⟨.inside op k, es ++ [⟨op, v⟩], as'⟩ ∨ Rs.length ≤ es.length := by
  cases h with
  | run hRs has hl =>
    cases hl with
    | refl => exact .inr (by simp [hRs])
    | call hl => exact .inl (.inside hRs has hl)

omit [DecidableEq ι] in
theorem Beyond.passed {Rs : List (Round C)} {as : List A} {q p : Program C A ε α} {es as'}
    (h : Beyond r Rs as q ⟨.run p, es, as'⟩) : Rs.length ≤ es.length := by
  simpa using h.2.1.length_le

/-- A rank leaves its path only after it has been through all its rounds. -/
theorem Step.onPath_or_passed (h : Step st st') (hon : OnPath r Rs (as r) (qs r) (st r))
    (hstays : OnPath r Rs (as r) (qs r) (st' r) ∨ Beyond r Rs (as r) (qs r) (st' r)) :
    OnPath r Rs (as r) (qs r) (st' r) ∨ Rs.length ≤ (st' r).passed := by
  cases h with
  | @act r' _ _ _ _ hr =>
    by_cases hr' : r = r'
    · subst hr'
      simp only [Function.update_self] at hstays ⊢
      exact hstays.imp id Beyond.passed
    · exact .inl (by rwa [Function.update_of_ne hr'])
  | @enter r' _ _ _ _ _ hr =>
    by_cases hr' : r = r'
    · subst hr'
      rw [hr] at hon
      simpa using hon.enter_or
    · exact .inl (by rwa [Function.update_of_ne hr'])
  | @leave r' _ _ _ _ _ vs hr =>
    by_cases hr' : r = r'
    · subst hr'
      simp only [Function.update_self] at hstays ⊢
      exact hstays.imp id Beyond.passed
    · exact .inl (by rwa [Function.update_of_ne hr'])

/-- Every rank is on its path, or beyond it and through all its rounds. -/
theorem Together.onPath_or_passed (h : Together ps Rs as qs) (hst : Reach (start ps) st) (r : ι) :
    OnPath r Rs (as r) (qs r) (st r) ∨
      Beyond r Rs (as r) (qs r) (st r) ∧ Rs.length ≤ (st r).passed := by
  induction hst with
  | refl => exact .inl (.run (List.nil_append Rs).symm rfl (h r))
  | @tail st₁ st₂ hst hstep ih =>
    have hstays := h.stays (hst.tail hstep) r
    rcases ih with hon | ⟨-, hle⟩
    · rcases hstep.onPath_or_passed hon hstays with hon' | hle
      · exact .inl hon'
      · exact hstays.imp id fun hb => ⟨hb, hle⟩
    · exact hstays.imp id fun hb => ⟨hb, Nat.le_trans hle (hstep.grows r).2.2⟩

variable {op : C.Op} {vs : ι → C.In op} {k : ι → C.Out op → Program C A ε α}

/-- The ranks come to a common call. A rank that has acted after it has been through it. -/
theorem Together.passed_of_after (h : Together ps Rs as fun r => .call op (vs r) (k r))
    (hst : Reach (start ps) st) (hr : (as r).length < (st r).log.length) :
    Rs.length < (st r).passed ∧ (st r).entered[Rs.length]? = some ⟨op, vs r⟩ := by
  have hthrough : Together ps (Rs ++ [⟨op, vs⟩]) as fun r => k r (C.combine op vs r) := fun r => by
    simpa using (h r).trans (Leads.call' vs rfl .refl)
  have hround : (Rs ++ [⟨op, vs⟩])[Rs.length]? = some ⟨op, vs⟩ := by simp
  rcases hthrough.onPath_or_passed hst r with hon | ⟨hbeyond, hle⟩
  · exact absurd hon.log_le.length_le (by omega)
  · have hlt : Rs.length < (st r).passed := Nat.lt_of_succ_le (by simpa using hle)
    have hget := List.getElem?_eq_getElem (Nat.lt_of_lt_of_le hlt (st r).passed_le)
    exact ⟨hlt, by rw [hget, entered_eq_post (.inr hbeyond) hround hget]; rfl⟩

/-- Once a rank acts after a common call, each rank that the call needs has entered it, and so has
taken all its actions before it. -/
theorem Together.before_of_after (h : Together ps Rs as fun r => .call op (vs r) (k r))
    (hst : Reach (start ps) st) (hr : (as r).length < (st r).log.length) (hs : C.Needs op r s) :
    as s <+: (st s).log ∧ Rs.length < (st s).entered.length := by
  obtain ⟨hlt, hget⟩ := h.passed_of_after hst hr
  obtain ⟨v', hv'⟩ := Reach.synchronized hst r s Rs.length op (vs r) hlt hget hs
  have hentered := (List.getElem?_eq_some_iff.mp hv').1
  rcases h.stays hst s with hon | hbeyond
  · have := hon.entered_le.length_le
    simp only [List.length_map] at this
    omega
  · exact ⟨hbeyond.2.2, hentered⟩

end

/-! ## Times -/

/-- A job with the present time and the times at which the actions in the logs were taken. -/
structure TimedState (C : Collectives ι) (A ε α T : Type) where
  state : State C A ε α
  now : T
  stamps : ι → List T

section
variable {T : Type} [Preorder T] [DecidableEq ι] {ps qs : ι → Program C A ε α}
  {Rs : List (Round C)} {as : ι → List A} {x y : TimedState C A ε α T} {r s : ι}

/-- The job before its first step, at time `t`. -/
def TimedState.start (ps : ι → Program C A ε α) (t : T) : TimedState C A ε α T :=
  ⟨Spmd.start ps, t, fun _ => []⟩

/-- A step at a later time or at the same one. A rank that acts notes the time. -/
structure TimedStep (x y : TimedState C A ε α T) : Prop where
  step : Step x.state y.state
  now : x.now ≤ y.now
  stamps : ∀ r, y.stamps r = if (x.state r).log.length < (y.state r).log.length
    then x.stamps r ++ [y.now] else x.stamps r

/-- An interleaving with its times. -/
abbrev TimedReach : TimedState C A ε α T → TimedState C A ε α T → Prop :=
  Relation.ReflTransGen TimedStep

theorem TimedReach.reach (h : TimedReach x y) : Reach x.state y.state := by
  induction h with
  | refl => exact .refl
  | tail _ hstep ih => exact ih.tail hstep.step

/-- Every interleaving can take place at one time. -/
theorem Reach.timed {st : State C A ε α} (h : Reach (start ps) st) (t : T) :
    ∃ x, TimedReach (.start ps t) x ∧ x.state = st ∧ x.now = t := by
  induction h with
  | refl => exact ⟨_, .refl, rfl, rfl⟩
  | @tail st st' _ hstep ih =>
    obtain ⟨x, hx, rfl, hnow⟩ := ih
    exact ⟨⟨st', t, fun r => if (x.state r).log.length < (st' r).log.length
      then x.stamps r ++ [t] else x.stamps r⟩, hx.tail ⟨hstep, hnow.le, fun _ => rfl⟩, rfl, rfl⟩

omit [Preorder T] in
theorem Step.log_cases {st st' : State C A ε α} (h : Step st st') (r : ι) :
    (st' r).log = (st r).log ∨ ∃ a, (st' r).log = (st r).log ++ [a] := by
  have key : ∀ {r' x}, (x.log = (st r').log ∨ ∃ a, x.log = (st r').log ++ [a]) →
      (Function.update st r' x r).log = (st r).log ∨
        ∃ a, (Function.update st r' x r).log = (st r).log ++ [a] := by
    intro r' x hx
    by_cases hr : r = r'
    · subst hr
      simpa using hx
    · exact .inl (by rw [Function.update_of_ne hr])
  cases h with
  | act hr => exact key (.inr ⟨_, by rw [hr]⟩)
  | enter hr => exact key (.inl (by rw [hr]))
  | leave vs hr => exact key (.inl (by rw [hr]))

/-- There is a time for each action, and none lies in the future. -/
structure TimedState.Stamped (x : TimedState C A ε α T) : Prop where
  length : ∀ r, (x.stamps r).length = (x.state r).log.length
  le_now : ∀ r, ∀ t ∈ x.stamps r, t ≤ x.now

theorem TimedStep.stamps_cases (h : TimedStep x y) (r : ι) :
    y.stamps r = x.stamps r ∧ (y.state r).log = (x.state r).log ∨
      y.stamps r = x.stamps r ++ [y.now] ∧ ∃ a, (y.state r).log = (x.state r).log ++ [a] := by
  rcases h.step.log_cases r with hlog | ⟨a, hlog⟩
  · exact .inl ⟨by rw [h.stamps, if_neg (by simp [hlog])], hlog⟩
  · exact .inr ⟨by rw [h.stamps, if_pos (by simp [hlog])], a, hlog⟩

theorem TimedStep.stamped (h : TimedStep x y) (hx : x.Stamped) : y.Stamped where
  length r := by
    rcases h.stamps_cases r with ⟨hs, hlog⟩ | ⟨hs, a, hlog⟩
    · rw [hs, hlog, hx.length]
    · simp [hs, hlog, hx.length]
  le_now r t ht := by
    rcases h.stamps_cases r with ⟨hs, -⟩ | ⟨hs, -⟩
    · exact (hx.le_now r t (hs ▸ ht)).trans h.now
    · rw [hs, List.mem_append, List.mem_singleton] at ht
      rcases ht with ht | rfl
      · exact (hx.le_now r t ht).trans h.now
      · exact le_rfl

theorem TimedReach.stamped {t₀ : T} (h : TimedReach (.start ps t₀) x) : x.Stamped := by
  induction h with
  | refl => exact ⟨fun _ => rfl, fun _ _ ht => absurd ht (List.not_mem_nil)⟩
  | tail _ hstep ih => exact hstep.stamped ih

variable {op : C.Op} {vs : ι → C.In op} {k : ι → C.Out op → Program C A ε α} {t₀ t' : T} {i j : ℕ}

/-- The ranks come to a common call. No rank acts after it at an earlier time than a rank that the
call needs acts before it. -/
theorem Together.stamp_le (h : Together ps Rs as fun r => .call op (vs r) (k r))
    (hx : TimedReach (.start ps t₀) x) (hs : C.Needs op r s) (hi : (as r).length ≤ i)
    (ht' : (x.stamps r)[i]? = some t') (hj : j < (as s).length) :
    ∃ t, (x.stamps s)[j]? = some t ∧ t ≤ t' := by
  induction hx with
  | refl => simp [TimedState.start] at ht'
  | @tail x y hx hstep ih =>
    have hstamped := TimedReach.stamped hx
    have hy := hstep.stamped hstamped
    -- whoever has the time of such an action has the times of all actions before the call
    have hbefore : ∀ {z : TimedState C A ε α T}, TimedReach (.start ps t₀) z → z.Stamped →
        i < (z.stamps r).length → j < (z.stamps s).length := by
      intro z hz hzs hlt
      rw [hzs.length] at hlt ⊢
      have hafter := h.before_of_after (TimedReach.reach hz) (Nat.lt_of_le_of_lt hi hlt) hs
      have := hafter.1.length_le
      omega
    have hlt := hbefore (hx.tail hstep) hy (List.getElem?_eq_some_iff.mp ht').1
    by_cases hold : i < (x.stamps r).length
    · have hold' : (x.stamps r)[i]? = some t' := by
        rcases hstep.stamps_cases r with ⟨hr, -⟩ | ⟨hr, -⟩
        · rwa [← hr]
        · rwa [hr, List.getElem?_append_left hold] at ht'
      obtain ⟨t, ht, hle⟩ := ih hold'
      refine ⟨t, ?_, hle⟩
      rcases hstep.stamps_cases s with ⟨hs', -⟩ | ⟨hs', -⟩
      · rw [hs', ht]
      · rw [hs', List.getElem?_append_left (hbefore hx hstamped hold), ht]
    · -- the action is taken now
      have hnow : t' = y.now := by
        rcases hstep.stamps_cases r with ⟨hr, -⟩ | ⟨hr, -⟩
        · exact absurd (hr ▸ (List.getElem?_eq_some_iff.mp ht').1) hold
        · rw [hr, List.getElem?_append_right (by omega)] at ht'
          obtain ⟨hidx, rfl⟩ := List.getElem?_eq_some_iff.mp ht'
          simp
      exact ⟨_, List.getElem?_eq_getElem hlt, hnow ▸ hy.le_now s _ (List.getElem_mem hlt)⟩

/-- Rank `r` has taken the action `a` at time `t`. -/
def TimedState.At (x : TimedState C A ε α T) (r : ι) (a : A) (t : T) : Prop :=
  ∃ i : ℕ, (x.state r).log[i]? = some a ∧ (x.stamps r)[i]? = some t

/-- The ranks come to a common call. When a rank takes an action that it does not take before the
call, the ranks that the call needs have taken all their actions before it, and none later. -/
theorem Together.at_le (h : Together ps Rs as fun r => .call op (vs r) (k r))
    (hx : TimedReach (.start ps t₀) x) (hs : C.Needs op r s) {a a' : A} (hr : x.At r a' t')
    (ha' : a' ∉ as r) (ha : a ∈ as s) : ∃ t, x.At s a t ∧ t ≤ t' := by
  obtain ⟨i, hlog, hstamp⟩ := hr
  have hi : (as r).length ≤ i := by
    by_contra hlt
    refine ha' ?_
    -- so far the log of `r` and its actions before the call agree
    have hsame : (as r)[i]? = some a' := by
      rcases h.stays (TimedReach.reach hx) r with hon | ⟨-, -, l, hl⟩
      · obtain ⟨l, hl⟩ := hon.log_le
        rw [← hl, List.getElem?_append_left (List.getElem?_eq_some_iff.mp hlog).1, hlog]
      · rwa [← hl, List.getElem?_append_left (Nat.lt_of_not_le hlt)] at hlog
    exact List.mem_of_getElem? hsame
  obtain ⟨j, hj, rfl⟩ := List.mem_iff_getElem.mp ha
  obtain ⟨t, ht, hle⟩ := h.stamp_le hx hs hi hstamp hj
  have hlen : i < (x.state r).log.length := (List.getElem?_eq_some_iff.mp hlog).1
  obtain ⟨l, hl⟩ := (h.before_of_after (TimedReach.reach hx) (Nat.lt_of_le_of_lt hi hlen) hs).1
  refine ⟨t, ⟨j, ?_, ht⟩, hle⟩
  rw [← hl, List.getElem?_append_left hj, List.getElem?_eq_getElem hj]

end

end GinkgoTpl.Spmd
