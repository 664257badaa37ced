import Mathlib.Logic.Function.Basic
import Mathlib.Logic.Relation
import GinkgoTpl.Spmd.Program

/-!
# Interleavings of ranks

The small-step semantics of a job: the ranks take turns in any order, a rank that has entered a
collective call stays inside it until the ranks it needs have entered the same round, and no
rank ever waits for anything else. The main result is `Together.stays`: if the programs run
together through rounds `Rs` to `qs`, then in every reachable state every rank is on its path
through these rounds or beyond its end.
-/

namespace GinkgoTpl.Spmd

variable {ι : Type} {C : Collectives ι} {A ε α : Type}

/-- Where a rank is: about to run `p`, or inside a collective call. -/
inductive Phase (C : Collectives ι) (A ε α : Type) where
  | run (p : Program C A ε α)
  | inside (op : C.Op) (k : C.Out op → Program C A ε α)

/-- A rank with the contributions to the rounds it has entered and its log, oldest first. -/
structure Rank (C : Collectives ι) (A ε α : Type) where
  phase : Phase C A ε α
  entered : List (Σ op, C.In op)
  log : List A

abbrev State (C : Collectives ι) (A ε α : Type) := ι → Rank C A ε α

/-- The job before its first step. -/
def start (ps : ι → Program C A ε α) : State C A ε α := fun r => ⟨.run (ps r), [], []⟩

section
variable [DecidableEq ι]

/-- One step of one rank. A rank leaves its current round, the last one it entered, as soon as
the ranks it needs have entered that round with the same call. -/
inductive Step : State C A ε α → State C A ε α → Prop
  | act {st : State C A ε α} {r : ι} {a k es as} : st r = ⟨.run (.act a k), es, as⟩ →
    Step st (Function.update st r ⟨.run k, es, as ++ [a]⟩)
  | enter {st : State C A ε α} {r : ι} {op v k es as} : st r = ⟨.run (.call op v k), es, as⟩ →
    Step st (Function.update st r ⟨.inside op k, es ++ [⟨op, v⟩], as⟩)
  | leave {st : State C A ε α} {r : ι} {op v k es as} (vs : ι → C.In op) :
    st r = ⟨.inside op k, es ++ [⟨op, v⟩], as⟩ → vs r = v →
    (∀ s, C.Needs op r s → (st s).entered[es.length]? = some ⟨op, vs s⟩) →
    Step st (Function.update st r ⟨.run (k (C.combine op vs r)), es ++ [⟨op, v⟩], as⟩)

/-- Some interleaving of the ranks' steps leads from one state to another. -/
abbrev Reach : State C A ε α → State C A ε α → Prop := Relation.ReflTransGen Step

end

/-! ## The path of a rank through given rounds -/

/-- Rank `r` is somewhere on its way through the rounds `Rs` to the program `q`. -/
inductive OnPath (r : ι) (Rs : List (Round C)) (as : List A) (q : Program C A ε α) :
    Rank C A ε α → Prop
  | run {p done rest as₁ as₂} : Rs = done ++ rest → as = as₁ ++ as₂ → Leads r p rest as₂ q →
    OnPath r Rs as q ⟨.run p, done.map (·.post r), as₁⟩
  | inside {done : List (Round C)} {R : Round C} {rest as₁ as₂ k} : Rs = done ++ R :: rest →
    as = as₁ ++ as₂ → Leads r (k (R.answer r)) rest as₂ q →
    OnPath r Rs as q ⟨.inside R.op k, done.map (·.post r) ++ [R.post r], as₁⟩

/-- Rank `r` has gone through the rounds `Rs` to a program that is not final, and possibly
further. -/
def Beyond (r : ι) (Rs : List (Round C)) (as : List A) (q : Program C A ε α)
    (x : Rank C A ε α) : Prop :=
  ¬ q.Final ∧ Rs.map (·.post r) <+: x.entered ∧ as <+: x.log

namespace OnPath

variable {r : ι} {Rs : List (Round C)} {as : List A} {q : Program C A ε α} {x : Rank C A ε α}

theorem entered_le (h : OnPath r Rs as q x) : x.entered <+: Rs.map (·.post r) := by
  cases h with
  | run hRs => simp [hRs]
  | inside hRs => simp [hRs]

theorem log_le (h : OnPath r Rs as q x) : x.log <+: as := by
  cases h with
  | run _ has => simp [has]
  | inside _ has => simp [has]

/-- A rank on its path whose program is final has come to the end of the path. -/
theorem of_final {p : Program C A ε α} (h : OnPath r Rs as q x) (hx : x.phase = .run p)
    (hp : p.Final) : p = q ∧ x.entered = Rs.map (·.post r) ∧ x.log = as := by
  cases h with
  | run hRs has hl =>
    cases hx
    obtain ⟨rfl, rfl, rfl⟩ := hl.eq_of_final hp
    simp [hRs, has]
  | inside => cases hx

/-- A path without rounds and actions is a single point. -/
theorem of_nil (h : OnPath r [] [] q x) : x = ⟨.run q, [], []⟩ := by
  cases h with
  | run hRs has hl =>
    obtain ⟨rfl, rfl⟩ := List.nil_eq_append_iff.mp hRs
    obtain ⟨rfl, rfl⟩ := List.nil_eq_append_iff.mp has
    cases hl
    rfl
  | inside hRs => simp at hRs

theorem act {a : A} {k : Program C A ε α} {es as'}
    (h : OnPath r Rs as q ⟨.run (.act a k), es, as'⟩) :
    OnPath r Rs as q ⟨.run k, es, as' ++ [a]⟩ ∨ Beyond r Rs as q ⟨.run k, es, as' ++ [a]⟩ := by
  cases h with
  | run hRs has hl =>
    cases hl with
    | refl => exact .inr ⟨by simp, by simp [hRs], by simp [has]⟩
    | act hl => exact .inl (.run hRs (by simp [has]) hl)

theorem enter {op : C.Op} {v : C.In op} {k : C.Out op → Program C A ε α} {es as'}
    (h : OnPath r Rs as q ⟨.run (.call op v k), es, as'⟩) :
    OnPath r Rs as q ⟨.inside op k, es ++ [⟨op, v⟩], as'⟩ ∨
      Beyond r Rs as q ⟨.inside op k, es ++ [⟨op, v⟩], as'⟩ := by
  cases h with
  | run hRs has hl =>
    cases hl with
    | refl => exact .inr ⟨by simp, by simp [hRs], by simp [has]⟩
    | call hl => exact .inl (.inside hRs has hl)

/-- A rank inside a call of its path is inside a round of the path, and with the answer of that
round it stays on the path. -/
theorem leave {op : C.Op} {v : C.In op} {k : C.Out op → Program C A ε α} {es as'}
    (h : OnPath r Rs as q ⟨.inside op k, es ++ [⟨op, v⟩], as'⟩) :
    ∃ vs, Rs[es.length]? = some ⟨op, vs⟩ ∧
      OnPath r Rs as q ⟨.run (k (C.combine op vs r)), es ++ [⟨op, v⟩], as'⟩ := by
  generalize hx : (⟨.inside op k, es ++ [⟨op, v⟩], as'⟩ : Rank C A ε α) = x at h
  cases h with
  | run => cases hx
  | @inside done R rest as₁ as₂ k' hRs has hl =>
    obtain ⟨op', vs⟩ := R
    simp only [Rank.mk.injEq, Phase.inside.injEq] at hx
    obtain ⟨⟨rfl, hk⟩, hes, rfl⟩ := hx
    cases hk
    obtain ⟨rfl, -⟩ := List.append_inj' hes rfl
    refine ⟨vs, by simp [hRs], ?_⟩
    have hRs' : Rs = (done ++ [⟨op, vs⟩]) ++ rest := by simp [hRs]
    simpa [hes] using OnPath.run hRs' has hl

end OnPath

/-- An entry of any rank on or beyond the path is the contribution to that round. -/
theorem entered_eq_post {s : ι} {Rs : List (Round C)} {as : List A} {q : Program C A ε α}
    {x : Rank C A ε α} (h : OnPath s Rs as q x ∨ Beyond s Rs as q x) {n : ℕ} {R : Round C}
    (hR : Rs[n]? = some R) {v : Σ op, C.In op} (hv : x.entered[n]? = some v) : v = R.post s := by
  have hmap : (Rs.map (·.post s))[n]? = some (R.post s) := by simp [hR]
  rcases h with h | ⟨-, ⟨t, ht⟩, -⟩
  · obtain ⟨t, ht⟩ := h.entered_le
    rw [← ht, List.getElem?_append_left (List.getElem?_eq_some_iff.mp hv).1, hv] at hmap
    exact Option.some.inj hmap
  · rw [← ht, List.getElem?_append_left (List.getElem?_eq_some_iff.mp hmap).1, hmap] at hv
    exact (Option.some.inj hv).symm

section
variable [DecidableEq ι] {ps qs : ι → Program C A ε α} {Rs : List (Round C)} {as : ι → List A}
  {st st' : State C A ε α}

/-- One step keeps every rank on its path or beyond its end. -/
theorem Step.stays (h : Step st st')
    (hst : ∀ r, OnPath r Rs (as r) (qs r) (st r) ∨ Beyond r Rs (as r) (qs r) (st r)) :
    ∀ r, OnPath r Rs (as r) (qs r) (st' r) ∨ Beyond r Rs (as r) (qs r) (st' r) := by
  -- only the rank that steps has to be looked at
  have key : ∀ r x, OnPath r Rs (as r) (qs r) x ∨ Beyond r Rs (as r) (qs r) x →
      ∀ s, OnPath s Rs (as s) (qs s) (Function.update st r x s) ∨
        Beyond s Rs (as s) (qs s) (Function.update st r x s) := by
    intro r x hx s
    by_cases hs : s = r
    · subst hs; simpa using hx
    · simpa [Function.update_of_ne hs] using hst s
  cases h with
  | @act r _ _ _ _ hr =>
    refine key r _ ?_
    have hon := hst r
    rw [hr] at hon
    rcases hon with hon | ⟨hq, h1, h2⟩
    · exact hon.act
    · exact .inr ⟨hq, h1, h2.trans (List.prefix_append ..)⟩
  | @enter r _ _ _ _ _ hr =>
    refine key r _ ?_
    have hon := hst r
    rw [hr] at hon
    rcases hon with hon | ⟨hq, h1, h2⟩
    · exact hon.enter
    · exact .inr ⟨hq, h1.trans (List.prefix_append ..), h2⟩
  | @leave r op v k es _ vs hr hv hneeds =>
    refine key r _ ?_
    have hon := hst r
    rw [hr] at hon
    rcases hon with hon | ⟨hq, h1, h2⟩
    · obtain ⟨vs', hR, hon⟩ := hon.leave
      -- every needed contribution is the one of the round on the path
      have hanswer : C.combine op vs r = C.combine op vs' r := by
        refine C.combine_congr fun s hs => ?_
        have := entered_eq_post (hst s) hR (hneeds s hs)
        simpa [Round.post] using this
      rw [hanswer]
      exact .inl hon
    · exact .inr ⟨hq, h1, h2⟩

/-- Whatever the interleaving, every rank is on its path through the common rounds or beyond. -/
theorem Together.stays (h : Together ps Rs as qs) (hst : Reach (start ps) st) :
    ∀ r, OnPath r Rs (as r) (qs r) (st r) ∨ Beyond r Rs (as r) (qs r) (st r) := by
  induction hst with
  | refl => exact fun r => .inl (.run (List.nil_append Rs).symm rfl (h r))
  | tail _ hstep ih => exact hstep.stays ih

/-- A rank whose path ends in a final program never leaves it. -/
theorem Together.onPath (h : Together ps Rs as qs) (hst : Reach (start ps) st) {r : ι}
    (hq : (qs r).Final) : OnPath r Rs (as r) (qs r) (st r) :=
  (h.stays hst r).resolve_right fun hb => hb.1 hq

/-- A rank that is done has ended as the rounds say. -/
theorem Together.outcome (h : Together ps Rs as qs) (hst : Reach (start ps) st) {r : ι}
    (hq : (qs r).Final) {p : Program C A ε α} (hp : (st r).phase = .run p) (hf : p.Final) :
    p = qs r ∧ (st r).entered = Rs.map (·.post r) ∧ (st r).log = as r :=
  (h.onPath hst hq).of_final hp hf

end

end GinkgoTpl.Spmd
