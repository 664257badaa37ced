import Mathlib.Data.List.Induction

/-!
# Tokens

The tokens of a list are its longest parts without separators. `joinTokens` puts one separator
between tokens, and `tokens` takes them apart again.
-/

namespace GinkgoTpl.Text

variable {α : Type} {sep : α → Bool}

/-- The parts of a list between separators, without the empty ones. -/
def tokens (sep : α → Bool) (l : List α) : List (List α) :=
  (l.splitOnP sep).filter (!·.isEmpty)

/-- A list that is a token: it is not empty and has no separators. -/
structure IsToken (sep : α → Bool) (t : List α) : Prop where
  ne_nil : t ≠ []
  not_sep : ∀ c ∈ t, sep c = false

/-- Appends tokens, with a separator before each unless nothing stands there yet. -/
def appendTokens (s : α) (result : List α) (ts : List (List α)) : List α :=
  ts.foldl (fun result t => if result.isEmpty then t else result ++ s :: t) result

/-- The tokens with one separator between them. -/
def joinTokens (s : α) (ts : List (List α)) : List α := appendTokens s [] ts

@[simp] theorem tokens_nil : tokens sep [] = [] := by simp [tokens]

/-- A separator ends a token. -/
theorem tokens_append_sep {s : α} (hs : sep s) (a b : List α) :
    tokens sep (a ++ s :: b) = tokens sep a ++ tokens sep b := by
  rw [tokens, List.splitOnP_append_cons a b hs, List.filter_append]
  rfl

theorem IsToken.tokens_eq {t : List α} (h : IsToken sep t) : tokens sep t = [t] := by
  rw [tokens, List.splitOnP_eq_singleton h.not_sep]
  simp [h.ne_nil]

theorem mem_splitOnP {l t : List α} (h : t ∈ l.splitOnP sep) :
    ∀ c ∈ t, sep c = false ∧ c ∈ l := by
  induction l generalizing t with
  | nil =>
    rw [List.splitOnP_nil, List.mem_singleton] at h
    simp [h]
  | cons a l ih =>
    have hmem : ∀ {t}, t ∈ l.splitOnP sep → ∀ c ∈ t, sep c = false ∧ c ∈ a :: l :=
      fun ht c hc => ⟨(ih ht c hc).1, List.mem_cons_of_mem _ (ih ht c hc).2⟩
    rw [List.splitOnP_cons_eq_if_modifyHead] at h
    split at h
    · rcases List.mem_cons.mp h with rfl | h
      · simp
      · exact hmem h
    · next ha =>
      cases hl : l.splitOnP sep with
      | nil => simp [hl] at h
      | cons u us =>
        rw [hl, List.modifyHead_cons] at h
        rcases List.mem_cons.mp h with rfl | h
        · exact List.forall_mem_cons.mpr
            ⟨⟨by simpa using ha, List.mem_cons_self⟩, hmem (hl ▸ List.mem_cons_self)⟩
        · exact hmem (hl ▸ List.mem_cons_of_mem _ h)

theorem isToken_of_mem_tokens {l t : List α} (h : t ∈ tokens sep l) : IsToken sep t := by
  obtain ⟨hmem, hne⟩ := List.mem_filter.mp h
  exact ⟨by simpa using hne, fun c hc => (mem_splitOnP hmem c hc).1⟩

theorem mem_of_mem_tokens {l t : List α} (h : t ∈ tokens sep l) {c : α} (hc : c ∈ t) : c ∈ l :=
  (mem_splitOnP (List.mem_filter.mp h).1 c hc).2

theorem appendTokens_eq {s : α} {result : List α} {ts : List (List α)} (h : result ≠ []) :
    appendTokens s result ts = result ++ ts.flatMap (s :: ·) := by
  induction ts generalizing result with
  | nil => simp [appendTokens]
  | cons t ts ih =>
    have hstep : appendTokens s result (t :: ts) = appendTokens s (result ++ s :: t) ts := by
      simp [appendTokens, h]
    rw [hstep, ih (by simp), List.flatMap_cons, List.append_assoc]

theorem tokens_append_flatMap {s : α} (hs : sep s) (a : List α) {ts : List (List α)}
    (hts : ∀ t ∈ ts, IsToken sep t) :
    tokens sep (a ++ ts.flatMap (s :: ·)) = tokens sep a ++ ts := by
  induction ts generalizing a with
  | nil => simp
  | cons t ts ih =>
    obtain ⟨ht, hts⟩ := List.forall_mem_cons.mp hts
    rw [List.flatMap_cons, List.cons_append, tokens_append_sep hs, ih t hts, ht.tokens_eq]
    rfl

/-- Joined tokens come apart again. -/
theorem tokens_joinTokens {s : α} (hs : sep s) {ts : List (List α)}
    (hts : ∀ t ∈ ts, IsToken sep t) : tokens sep (joinTokens s ts) = ts := by
  cases ts with
  | nil => simp [joinTokens, appendTokens]
  | cons t ts =>
    obtain ⟨ht, hts⟩ := List.forall_mem_cons.mp hts
    have hjoin : joinTokens s (t :: ts) = appendTokens s t ts := rfl
    rw [hjoin, appendTokens_eq ht.ne_nil, tokens_append_flatMap hs t hts, ht.tokens_eq]
    rfl

theorem mem_joinTokens {s c : α} {ts : List (List α)} (hts : ∀ t ∈ ts, IsToken sep t)
    (h : c ∈ joinTokens s ts) : c = s ∨ ∃ t ∈ ts, c ∈ t := by
  cases ts with
  | nil => cases h
  | cons t ts =>
    have hjoin : joinTokens s (t :: ts) = appendTokens s t ts := rfl
    rw [hjoin, appendTokens_eq (hts t List.mem_cons_self).ne_nil, List.mem_append,
      List.mem_flatMap] at h
    rcases h with h | ⟨u, hu, h⟩
    · exact .inr ⟨t, List.mem_cons_self, h⟩
    · rcases List.mem_cons.mp h with rfl | h
      · exact .inl rfl
      · exact .inr ⟨u, List.mem_cons_of_mem _ hu, h⟩

theorem joinTokens_concat (s : α) (ts : List (List α)) (t : List α) :
    joinTokens s (ts ++ [t]) =
      if (joinTokens s ts).isEmpty then t else joinTokens s ts ++ s :: t := by
  simp [joinTokens, appendTokens, List.foldl_append]

theorem intercalate_singleton_cons (s : α) (t : List α) (ts : List (List α)) :
    [s].intercalate (t :: ts) = t ++ ts.flatMap (s :: ·) := by
  induction ts generalizing t with
  | nil => simp
  | cons u us ih => rw [List.intercalate_cons_cons, ih u]; simp

/-- Between tokens stands one separator. -/
theorem joinTokens_eq_intercalate (s : α) {ts : List (List α)} (hts : ∀ t ∈ ts, IsToken sep t) :
    joinTokens s ts = [s].intercalate ts := by
  cases ts with
  | nil => rfl
  | cons t ts =>
    have hjoin : joinTokens s (t :: ts) = appendTokens s t ts := rfl
    rw [hjoin, appendTokens_eq (hts t List.mem_cons_self).ne_nil, intercalate_singleton_cons]

/-- No separator stands before the first token. -/
theorem not_sep_of_head?_joinTokens {s c : α} {ts : List (List α)}
    (hts : ∀ t ∈ ts, IsToken sep t) (hc : c ∈ (joinTokens s ts).head?) : sep c = false := by
  cases ts with
  | nil => cases hc
  | cons t ts =>
    have ht := hts t List.mem_cons_self
    have hjoin : joinTokens s (t :: ts) = appendTokens s t ts := rfl
    rw [hjoin, appendTokens_eq ht.ne_nil] at hc
    cases t with
    | nil => exact absurd rfl ht.ne_nil
    | cons a t =>
      cases hc
      exact ht.not_sep c List.mem_cons_self

/-- No separator stands after the last token. -/
theorem not_sep_of_getLast?_joinTokens {s c : α} {ts : List (List α)}
    (hts : ∀ t ∈ ts, IsToken sep t) (hc : c ∈ (joinTokens s ts).getLast?) : sep c = false := by
  induction ts using List.reverseRecOn with
  | nil => cases hc
  | append_singleton ts t _ =>
    have ht := hts t (List.mem_append_right _ (List.mem_singleton_self t))
    have hlast : (joinTokens s (ts ++ [t])).getLast? = t.getLast? := by
      rw [joinTokens_concat]
      split
      · rfl
      · rw [List.getLast?_append, List.getLast?_cons_of_ne_nil ht.ne_nil,
          Option.or_of_isSome (by simpa using ht.ne_nil)]
    rw [hlast] at hc
    exact ht.not_sep c (List.mem_of_mem_getLast? hc)

/-! ## Around a point -/

/-- What stands before a point gives some tokens and the beginning of one more. -/
theorem exists_tokens_append (sep : α → Bool) (u : List α) : ∃ ts l,
    (∀ t ∈ ts, IsToken sep t ∧ ∀ c ∈ t, c ∈ u) ∧ (∀ c ∈ l, sep c = false ∧ c ∈ u) ∧
    ∀ v, tokens sep (u ++ v) = ts ++ tokens sep (l ++ v) := by
  induction u using List.reverseRecOn with
  | nil => exact ⟨[], [], by simp, by simp, fun v => rfl⟩
  | append_singleton u a ih =>
    obtain ⟨ts, l, hts, hl, hu⟩ := ih
    have hmem : ∀ {c}, c ∈ u → c ∈ u ++ [a] := fun hc => List.mem_append_left _ hc
    have hts' : ∀ t ∈ ts, IsToken sep t ∧ ∀ c ∈ t, c ∈ u ++ [a] :=
      fun t ht => ⟨(hts t ht).1, fun c hc => hmem ((hts t ht).2 c hc)⟩
    by_cases ha : sep a
    · refine ⟨ts ++ tokens sep l, [], List.forall_mem_append.mpr ⟨hts', fun t ht => ?_⟩, by simp,
        fun v => ?_⟩
      · exact ⟨isToken_of_mem_tokens ht, fun c hc => hmem (hl c (mem_of_mem_tokens ht hc)).2⟩
      · rw [List.append_assoc, List.singleton_append, hu, tokens_append_sep ha, List.append_assoc]
        rfl
    · refine ⟨ts, l ++ [a], hts', List.forall_mem_append.mpr ⟨fun c hc => ?_, by simpa using ha⟩,
        fun v => ?_⟩
      · exact ⟨(hl c hc).1, hmem (hl c hc).2⟩
      · rw [List.append_assoc, hu, List.append_assoc]

/-- What stands after the beginning of a token finishes it and gives further tokens. -/
theorem exists_tokens_eq_cons {t : List α} (ht : IsToken sep t) (w : List α) :
    ∃ r ts, (∀ t ∈ ts, IsToken sep t) ∧ (∀ c ∈ r, sep c = false) ∧
      tokens sep (t ++ w) = (t ++ r) :: ts := by
  induction w generalizing t with
  | nil => exact ⟨[], [], by simp, by simp, by simpa using ht.tokens_eq⟩
  | cons c w ih =>
    by_cases hc : sep c
    · refine ⟨[], tokens sep w, fun t => isToken_of_mem_tokens, by simp, ?_⟩
      rw [tokens_append_sep hc, ht.tokens_eq, List.append_nil]
      rfl
    · have ht' : IsToken sep (t ++ [c]) :=
        ⟨by simp, List.forall_mem_append.mpr ⟨ht.not_sep, by simpa using hc⟩⟩
      obtain ⟨r, ts, hts, hr, h⟩ := ih ht'
      refine ⟨c :: r, ts, hts, List.forall_mem_cons.mpr ⟨by simpa using hc, hr⟩, ?_⟩
      simpa using h

/-- Joined tokens up to a point inside one of them. -/
theorem exists_joinTokens_eq_append {s : α} (hs : sep s) {ts : List (List α)}
    (hts : ∀ t ∈ ts, IsToken sep t) (m : List α) (z : α) (r : List α) (us : List (List α)) :
    ∃ a b, joinTokens s (ts ++ (m ++ z :: r) :: us) = a ++ z :: b ∧
      tokens sep a = ts ++ tokens sep m ∧ ∀ c ∈ a, c = s ∨ c ∈ m ∨ ∃ t ∈ ts, c ∈ t := by
  cases ts with
  | nil =>
    refine ⟨m, r ++ us.flatMap (s :: ·), ?_, rfl, fun c hc => .inr (.inl hc)⟩
    have hjoin : joinTokens s ((m ++ z :: r) :: us) = appendTokens s (m ++ z :: r) us := rfl
    rw [List.nil_append, hjoin, appendTokens_eq (by simp), List.append_assoc, List.cons_append]
  | cons t ts =>
    obtain ⟨ht, hts⟩ := List.forall_mem_cons.mp hts
    have hjoin : joinTokens s (t :: ts ++ (m ++ z :: r) :: us) =
        appendTokens s t (ts ++ (m ++ z :: r) :: us) := rfl
    refine ⟨t ++ ts.flatMap (s :: ·) ++ s :: m, r ++ us.flatMap (s :: ·), ?_, ?_, ?_⟩
    · rw [hjoin, appendTokens_eq ht.ne_nil]
      simp
    · rw [tokens_append_sep hs, tokens_append_flatMap hs t hts, ht.tokens_eq]
      rfl
    · intro c hc
      simp only [List.mem_append, List.mem_flatMap, List.mem_cons] at hc
      rcases hc with (hc | ⟨t', ht', rfl | hc⟩) | rfl | hc
      · exact .inr (.inr ⟨t, by simp, hc⟩)
      · exact .inl rfl
      · exact .inr (.inr ⟨t', by simp [ht'], hc⟩)
      · exact .inl rfl
      · exact .inr (.inl hc)

end GinkgoTpl.Text
