import Mathlib.Algebra.Order.Ring.Int
import Mathlib.Data.List.Nodup
import Mathlib.Data.List.TakeWhile
import Mathlib.Logic.Function.Basic
import GinkgoTpl.Text.Tokens
import GinkgoTpl.Transition.Run

/-!
# The options of Ksp instances

`petsc/detail/options.hpp` and its use in the constructor of `solver::Ksp`: every instance takes a
number from a counter, puts a prefix with this number before the names of its options, and inserts
them into the one options database of PETSc, from which nothing is ever removed. The main result is
`instances_isolated`: under its prefix, every instance finds what its own options assign.
-/

namespace GinkgoTpl.Petsc

open Text Transition

/-- The characters of a string stand for its bytes. -/
abbrev Chars := List Char

/-! ## Names -/

/-- White space of the classic locale. -/
def isSpace (c : Char) : Bool := c = ' ' ∨ 9 ≤ c.toNat ∧ c.toNat ≤ 13

/-- A token is an option name if it starts with `-` followed by a letter. -/
def isOptionName : Chars → Bool
  | '-' :: c :: _ => c.isAlpha
  | _ => false

/-- A token with the prefix put into it if it is a name. -/
def prefixToken (instancePrefix token : Chars) : Chars :=
  if isOptionName token then '-' :: (instancePrefix ++ token.tail) else token

/-- `prefix_options`: every option name `-name` becomes `-<prefix>name`. -/
def prefixOptions (options instancePrefix : Chars) : Chars :=
  (tokens isSpace options).foldl (fun result token =>
    let token := prefixToken instancePrefix token
    if result.isEmpty then token else result ++ ' ' :: token) []

/-- `c_str`: what a C function reads of a string. -/
def cStr (s : Chars) : Chars := s.takeWhile (· ≠ '\x00')

/-- The prefix of the instance with number `id`: `gko_ksp_<id>_`. -/
def instancePrefix (id : ℕ) : Chars :=
  ['g', 'k', 'o', '_', 'k', 's', 'p', '_'] ++ (Nat.toDigits 10 id ++ ['_'])

/-! ## PETSc's database -/

/-- What the tokens of an options string assign: a name takes the token after it as its value
unless that is a name itself, and other tokens are skipped. -/
def assignments : List Chars → List (Chars × Option Chars)
  | [] => []
  | [t] => if isOptionName t then [(t.tail, none)] else []
  | t :: u :: ts =>
    if isOptionName t then
      if isOptionName u then (t.tail, none) :: assignments (u :: ts)
      else (t.tail, some u) :: assignments ts
    else assignments (u :: ts)

/-- What is known of each name: nothing, or its value, if it has one. -/
abbrev Lookup := Chars → Option (Option Chars)

/-- Later assignments win. -/
def assignAll (lookup : Lookup) (as : List (Chars × Option Chars)) : Lookup :=
  as.foldl (fun lookup a => Function.update lookup a.1 (some a.2)) lookup

/-- What an options string assigns on its own. -/
def assigned (options : Chars) : Lookup :=
  assignAll (fun _ => none) (assignments (tokens isSpace (cStr options)))

/-- The options database of PETSc with the documented effect of `PetscOptionsInsertString`. -/
structure OptionsDatabase where
  State : Type
  lookup : State → Lookup
  insertString : State → Chars → State
  lookup_insertString : ∀ d s,
    lookup (insertString d s) = assignAll (lookup d) (assignments (tokens isSpace s))

/-- The database as the table of its names. -/
def OptionsDatabase.table : OptionsDatabase where
  State := Lookup
  lookup := id
  insertString d s := assignAll d (assignments (tokens isSpace s))
  lookup_insertString _ _ := rfl

/-! ## Rewritten options -/

section
variable {p : Chars}

theorem prefixOptions_eq (options p : Chars) :
    prefixOptions options p = joinTokens ' ' ((tokens isSpace options).map (prefixToken p)) := by
  rw [prefixOptions, joinTokens, appendTokens, List.foldl_map]

theorem isSpace_space : isSpace ' ' = true := rfl

/-- A prefix for options: it starts with a letter, and has neither spaces nor an end. -/
structure IsPrefix (p : Chars) : Prop where
  letter : ∃ c cs, p = c :: cs ∧ c.isAlpha
  not_space : ∀ c ∈ p, isSpace c = false
  not_end : '\x00' ∉ p

/-- The characters start with a letter. -/
def startsWithLetter : Chars → Bool
  | c :: _ => c.isAlpha
  | [] => false

theorem IsPrefix.startsWithLetter (hp : IsPrefix p) : startsWithLetter p := by
  obtain ⟨c, cs, rfl, hc⟩ := hp.letter
  exact hc

theorem exists_of_isOptionName {t : Chars} (h : isOptionName t) :
    ∃ c cs, t = '-' :: c :: cs ∧ c.isAlpha := by
  unfold isOptionName at h
  split at h
  · exact ⟨_, _, rfl, h⟩
  · cases h

/-- Behind its `-`, a name with such a prefix still begins with a letter. -/
theorem isOptionName_prefixToken (hp : p = [] ∨ startsWithLetter p) (t : Chars) :
    isOptionName (prefixToken p t) = isOptionName t := by
  unfold prefixToken
  split
  · next h =>
    obtain ⟨c, cs, rfl, hc⟩ := exists_of_isOptionName h
    rw [h]
    rcases hp with rfl | hp
    · exact hc
    · cases p with
      | nil => cases hp
      | cons d ds => exact hp
  · rfl

theorem prefixToken_isToken (hp : ∀ c ∈ p, isSpace c = false) {t : Chars}
    (ht : IsToken isSpace t) : IsToken isSpace (prefixToken p t) := by
  unfold prefixToken
  split
  · refine ⟨by simp, List.forall_mem_cons.mpr ⟨rfl, List.forall_mem_append.mpr ⟨hp, ?_⟩⟩⟩
    exact fun c hc => ht.not_sep c (List.mem_of_mem_tail hc)
  · exact ht

theorem isToken_map_prefixToken (hp : ∀ c ∈ p, isSpace c = false) (options : Chars) :
    ∀ t ∈ (tokens isSpace options).map (prefixToken p), IsToken isSpace t :=
  List.forall_mem_map.mpr fun _ ht => prefixToken_isToken hp (isToken_of_mem_tokens ht)

/-- The rewritten options have the same tokens, with the prefix in the names. -/
theorem tokens_prefixOptions (hp : ∀ c ∈ p, isSpace c = false) (options : Chars) :
    tokens isSpace (prefixOptions options p) = (tokens isSpace options).map (prefixToken p) := by
  rw [prefixOptions_eq, tokens_joinTokens isSpace_space (isToken_map_prefixToken hp options)]

/-- The rewritten options assign the same values, to names with the prefix. -/
theorem assignments_map_prefixToken (hp : IsPrefix p) (ts : List Chars) :
    assignments (ts.map (prefixToken p)) =
      (assignments ts).map fun a => (p ++ a.1, a.2) := by
  have hkeep := isOptionName_prefixToken (.inr hp.startsWithLetter)
  have hname : ∀ t, isOptionName t → (prefixToken p t).tail = p ++ t.tail := by
    intro t ht
    rw [prefixToken, if_pos ht, List.tail_cons]
  have hvalue : ∀ t, isOptionName t = false → prefixToken p t = t := by
    intro t ht
    rw [prefixToken, if_neg (by simp [ht])]
  induction ts using assignments.induct with
  | case1 => rfl
  | case2 t ht => simp [assignments, hkeep, ht, hname t ht]
  | case3 t ht => simp [assignments, hkeep, ht]
  | case4 t u ts ht hu ih =>
    simp only [List.map_cons, assignments, hkeep, ht, hu, if_true,
      hname t ht] at ih ⊢
    rw [ih]
  | case5 t u ts ht hu ih =>
    simp only [List.map_cons, assignments, hkeep, ht, hu, if_true,
      Bool.false_eq_true, if_false, hname t ht, ih, hvalue u (by simpa using hu)]
  | case6 t u ts ht ih =>
    simp only [List.map_cons, assignments, hkeep, ht, Bool.false_eq_true,
      if_false] at ih ⊢
    exact ih

/-! ### Up to the end of a C string -/

/-- The characters before the first `c`. -/
theorem takeWhile_append_cons {c : Char} {a b : Chars} (ha : c ∉ a) :
    (a ++ c :: b).takeWhile (· ≠ c) = a := by
  have hall : ∀ d ∈ a, decide (d ≠ c) = true := fun d hd => by
    simpa using ne_of_mem_of_not_mem hd ha
  rw [List.takeWhile_append_of_pos hall]
  simp

theorem cStr_of_not_mem {s : Chars} (h : '\x00' ∉ s) : cStr s = s :=
  List.takeWhile_eq_self_iff.mpr fun c hc => by simpa using ne_of_mem_of_not_mem hc h

theorem prefixToken_append_end (t w : Chars) :
    prefixToken p (t ++ '\x00' :: w) = prefixToken p t ++ '\x00' :: w := by
  have hname : isOptionName (t ++ '\x00' :: w) = isOptionName t := by
    match t with
    | [] => rfl
    | [c] => by_cases hc : c = '-' <;> simp [isOptionName, hc]
    | c :: d :: t => by_cases hc : c = '-' <;> simp [isOptionName, hc]
  cases ht : isOptionName t with
  | false => simp [prefixToken, hname, ht]
  | true =>
    cases t with
    | nil => cases ht
    | cons c cs =>
      rw [prefixToken, prefixToken, hname, ht, if_pos rfl, if_pos rfl]
      simp

theorem mem_prefixToken {t : Chars} {c : Char} (h : c ∈ prefixToken p t) :
    c = '-' ∨ c ∈ p ∨ c ∈ t := by
  unfold prefixToken at h
  split at h
  · rcases List.mem_cons.mp h with rfl | h
    · exact .inl rfl
    · rcases List.mem_append.mp h with h | h
      · exact .inr (.inl h)
      · exact .inr (.inr (List.mem_of_mem_tail h))
  · exact .inr (.inr h)

theorem map_prefixToken_tokens (hp : IsPrefix p) {l : Chars} (hl : ∀ c ∈ l, isSpace c = false) :
    (tokens isSpace l).map (prefixToken p) = tokens isSpace (prefixToken p l) := by
  cases l with
  | nil => rfl
  | cons c l =>
    have ht : IsToken isSpace (c :: l) := ⟨by simp, hl⟩
    rw [ht.tokens_eq, (prefixToken_isToken hp.not_space ht).tokens_eq]
    rfl

/-- Cutting the rewritten options at the end of a C string is rewriting the options cut there. -/
theorem tokens_cStr_prefixOptions (hp : IsPrefix p) (options : Chars) :
    tokens isSpace (cStr (prefixOptions options p)) =
      (tokens isSpace (cStr options)).map (prefixToken p) := by
  have hend : ∀ {t : Chars}, '\x00' ∉ t → '\x00' ∉ prefixToken p t := by
    intro t ht hmem
    rcases mem_prefixToken hmem with h | h | h
    · cases h
    · exact hp.not_end h
    · exact ht h
  by_cases hmem : '\x00' ∈ options
  · obtain ⟨u, w, rfl, hu⟩ := List.eq_append_cons_of_mem hmem
    obtain ⟨ts, l, hts, hl, happend⟩ := exists_tokens_append isSpace u
    have hl0 : '\x00' ∉ l := fun h => hu (hl _ h).2
    -- the token that holds the end begins with `l`
    have htoken : IsToken isSpace (l ++ ['\x00']) :=
      ⟨by simp, List.forall_mem_append.mpr ⟨fun c hc => (hl c hc).1, by simp [isSpace]⟩⟩
    obtain ⟨r, us, -, -, hrest⟩ := exists_tokens_eq_cons htoken w
    have htokens : tokens isSpace (u ++ '\x00' :: w) = ts ++ (l ++ '\x00' :: r) :: us := by
      rw [happend]
      simpa using hrest
    have hts' : ∀ t ∈ ts.map (prefixToken p), IsToken isSpace t :=
      List.forall_mem_map.mpr fun t ht => prefixToken_isToken hp.not_space (hts t ht).1
    obtain ⟨a, b, hjoin, ha, hchars⟩ := exists_joinTokens_eq_append isSpace_space hts'
      (prefixToken p l) '\x00' r (us.map (prefixToken p))
    have ha0 : '\x00' ∉ a := by
      intro h
      rcases hchars _ h with h | h | ⟨t, ht, h⟩
      · cases h
      · exact hend hl0 h
      · obtain ⟨v, hv, rfl⟩ := List.mem_map.mp ht
        exact hend (fun h => hu ((hts v hv).2 _ h)) h
    have hpre : prefixOptions (u ++ '\x00' :: w) p = a ++ '\x00' :: b := by
      rw [prefixOptions_eq, htokens, ← hjoin]
      simp [prefixToken_append_end]
    have hcut := happend []
    rw [List.append_nil, List.append_nil] at hcut
    rw [hpre, cStr, takeWhile_append_cons ha0, cStr, takeWhile_append_cons hu, ha, hcut,
      List.map_append, map_prefixToken_tokens hp fun c hc => (hl c hc).1]
  · have hpre : '\x00' ∉ prefixOptions options p := by
      rw [prefixOptions_eq]
      intro h
      rcases mem_joinTokens (isToken_map_prefixToken hp.not_space options) h with h | ⟨t, ht, h⟩
      · cases h
      · obtain ⟨v, hv, rfl⟩ := List.mem_map.mp ht
        exact hend (fun h => hmem (mem_of_mem_tokens hv h)) h
    rw [cStr_of_not_mem hpre, cStr_of_not_mem hmem, tokens_prefixOptions hp.not_space]

end

/-! ## Prefixes of instances -/

theorem mem_instancePrefix {id : ℕ} {c : Char} (h : c ∈ instancePrefix id) :
    c.isAlphanum ∨ c = '_' := by
  have hstem : ∀ c ∈ ['g', 'k', 'o', '_', 'k', 's', 'p', '_'], c.isAlphanum ∨ c = '_' := by simp
  rcases List.mem_append.mp h with h | h
  · exact hstem c h
  · rcases List.mem_append.mp h with h | h
    · have hdigit := Nat.isDigit_of_mem_toDigits (by decide) (by decide) h
      simp [Char.isAlphanum, hdigit]
    · exact .inr (List.mem_singleton.mp h)

theorem isSpace_of_alphanum {c : Char} (h : c.isAlphanum ∨ c = '_') : isSpace c = false := by
  rw [← Bool.not_eq_true]
  intro hspace
  have hc : c ∈ [' ', '\t', '\n', '\x0b', '\x0c', '\r'] := by
    have hval : c = ' ' ∨ 9 ≤ c.toNat ∧ c.toNat ≤ 13 := by simpa [isSpace] using hspace
    rcases hval with rfl | ⟨h1, h2⟩
    · exact List.mem_cons_self
    · have : c.toNat = 9 ∨ c.toNat = 10 ∨ c.toNat = 11 ∨ c.toNat = 12 ∨ c.toNat = 13 := by omega
      rw [← Char.ofNat_toNat c]
      rcases this with h | h | h | h | h <;> rw [h] <;> simp
  rcases h with h | rfl
  · have hnot : ∀ c ∈ [' ', '\t', '\n', '\x0b', '\x0c', '\r'], c.isAlphanum = false := by simp
    rw [hnot c hc] at h
    cases h
  · simp at hc

theorem instancePrefix_isPrefix (id : ℕ) : IsPrefix (instancePrefix id) where
  letter := ⟨'g', _, rfl, rfl⟩
  not_space c hc := isSpace_of_alphanum (mem_instancePrefix hc)
  not_end hc := by
    rcases mem_instancePrefix hc with h | h
    · cases h
    · cases h

/-- No prefix with a name is another prefix with a name: the number ends at the first underscore
after it. -/
theorem instancePrefix_append_inj {i j : ℕ} {m n : Chars}
    (h : instancePrefix i ++ m = instancePrefix j ++ n) : i = j ∧ m = n := by
  have hnumber : Nat.toDigits 10 i ++ '_' :: m = Nat.toDigits 10 j ++ '_' :: n := by
    simpa [instancePrefix] using h
  have hdigits : Nat.toDigits 10 i = Nat.toDigits 10 j := by
    have htake := congrArg (List.takeWhile (· ≠ '_')) hnumber
    rwa [takeWhile_append_cons Nat.underscore_not_in_toDigits,
      takeWhile_append_cons Nat.underscore_not_in_toDigits] at htake
  have hij : i = j := by
    rw [← Nat.ofDigitChars_ten_toDigits (n := i), hdigits, Nat.ofDigitChars_ten_toDigits]
  subst hij
  exact ⟨rfl, (List.cons.inj (List.append_cancel_left hnumber)).2⟩

/-! ## Lookups -/

theorem assignAll_of_forall_ne {lookup : Lookup} {as : List (Chars × Option Chars)} {n : Chars}
    (h : ∀ a ∈ as, a.1 ≠ n) : assignAll lookup as n = lookup n := by
  induction as generalizing lookup with
  | nil => rfl
  | cons a as ih =>
    obtain ⟨ha, has⟩ := List.forall_mem_cons.mp h
    exact (ih has).trans (Function.update_of_ne ha.symm _ _)

/-- Under a prefix, assignments with the prefix are those without it. -/
theorem assignAll_map_append (p : Chars) (lookup : Lookup) (as : List (Chars × Option Chars))
    (m : Chars) : assignAll lookup (as.map fun a => (p ++ a.1, a.2)) (p ++ m) =
      assignAll (fun m => lookup (p ++ m)) as m := by
  induction as generalizing lookup with
  | nil => rfl
  | cons a as ih =>
    refine (ih _).trans (congrArg (fun lookup => assignAll lookup as m) (funext fun n => ?_))
    by_cases hn : n = a.1
    · simp [hn]
    · have hne : p ++ n ≠ p ++ a.1 := fun h => hn (List.append_cancel_left h)
      show Function.update lookup (p ++ a.1) (some a.2) (p ++ n) =
        Function.update (fun m => lookup (p ++ m)) a.1 (some a.2) n
      rw [Function.update_of_ne hne, Function.update_of_ne hn]

/-- Inserting the rewritten options of an instance assigns, under its prefix, what the options
assign, and nothing under other prefixes. -/
theorem lookup_insertString (db : OptionsDatabase) (d : db.State) (id : ℕ) (options : Chars) :
    (∀ m, db.lookup (db.insertString d (cStr (prefixOptions options (instancePrefix id))))
        (instancePrefix id ++ m) = assignAll (fun m => db.lookup d (instancePrefix id ++ m))
          (assignments (tokens isSpace (cStr options))) m) ∧
    ∀ i ≠ id, ∀ m, db.lookup (db.insertString d (cStr (prefixOptions options (instancePrefix id))))
        (instancePrefix i ++ m) = db.lookup d (instancePrefix i ++ m) := by
  have hp := instancePrefix_isPrefix id
  rw [db.lookup_insertString, tokens_cStr_prefixOptions hp, assignments_map_prefixToken hp]
  refine ⟨fun m => assignAll_map_append _ _ _ m, fun i hi m => assignAll_of_forall_ne ?_⟩
  refine List.forall_mem_map.mpr fun a _ h => ?_
  exact hi (instancePrefix_append_inj h).1.symm

/-! ## Generations -/

/-- The instances that have taken a number but not inserted their options, those that have, and the
database. -/
structure Generations (db : OptionsDatabase) where
  nextInstanceId : ℕ
  pending : List (ℕ × Chars)
  inserted : List (ℕ × Chars)
  database : db.State

/-- The steps of generations, of which several may be under way. -/
inductive GenerationEvent where
  | takeNumber (options : Chars)
  | insertOptions (id : ℕ) (options : Chars)
  /-- The generation throws before its options are inserted. -/
  | throws (id : ℕ) (options : Chars)

variable {db : OptionsDatabase}

inductive GenerationStep (db : OptionsDatabase) :
    Generations db → GenerationEvent → Generations db → Prop
  | takeNumber {id pending inserted d options} :
    GenerationStep db ⟨id, pending, inserted, d⟩ (.takeNumber options)
      ⟨(id + 1) % 2 ^ 64, (id, options) :: pending, inserted, d⟩
  | insertOptions {next pending₁ pending₂ inserted d id options} :
    GenerationStep db ⟨next, pending₁ ++ (id, options) :: pending₂, inserted, d⟩
      (.insertOptions id options)
      ⟨next, pending₁ ++ pending₂, (id, options) :: inserted,
        db.insertString d (cStr (prefixOptions options (instancePrefix id)))⟩
  | throws {next pending₁ pending₂ inserted d id options} :
    GenerationStep db ⟨next, pending₁ ++ (id, options) :: pending₂, inserted, d⟩
      (.throws id options) ⟨next, pending₁ ++ pending₂, inserted, d⟩

/-- No generation has started, and the database has no names with the prefix of an instance. -/
structure Generations.Fresh (g : Generations db) : Prop where
  nextInstanceId : g.nextInstanceId = 0
  pending : g.pending = []
  inserted : g.inserted = []
  database : ∀ i m, db.lookup g.database (instancePrefix i ++ m) = none

def GenerationEvent.takesNumber : GenerationEvent → Bool
  | takeNumber _ => true
  | _ => false

/-- The generations that have started in a run. -/
def numStarted (tr : List (Generations db × GenerationEvent × Generations db)) : ℕ :=
  tr.countP fun t => t.2.1.takesNumber

/-- The instances have different numbers, and each finds its own options. -/
structure Generations.Inv (g : Generations db) : Prop where
  below : ∀ i ∈ (g.pending ++ g.inserted).map Prod.fst, i < g.nextInstanceId
  nodup : ((g.pending ++ g.inserted).map Prod.fst).Nodup
  found : ∀ id options, (id, options) ∈ g.inserted → ∀ m,
    db.lookup g.database (instancePrefix id ++ m) = assigned options m
  absent : ∀ i ∉ g.inserted.map Prod.fst, ∀ m,
    db.lookup g.database (instancePrefix i ++ m) = none

section
variable {g g' : Generations db} {e : GenerationEvent}
  {tr : List (Generations db × GenerationEvent × Generations db)}

theorem Generations.Fresh.inv (h : g.Fresh) : g.Inv := by
  refine ⟨?_, ?_, ?_, fun i _ => h.database i⟩ <;> simp [h.pending, h.inserted]

theorem GenerationStep.inv (hstep : GenerationStep db g e g') (h : g.Inv)
    (hlt : e.takesNumber → g.nextInstanceId + 1 < 2 ^ 64) : g'.Inv := by
  cases hstep with
  | @takeNumber id pending inserted d options =>
    have hnext : (id + 1) % 2 ^ 64 = id + 1 := Nat.mod_eq_of_lt (hlt rfl)
    refine ⟨fun i hi => ?_, List.nodup_cons.mpr ⟨fun hid => ?_, h.nodup⟩, h.found, h.absent⟩
    · rcases List.mem_cons.mp hi with rfl | hi
      · show i < (i + 1) % 2 ^ 64
        omega
      · have hbelow : i < id := h.below i hi
        show i < (id + 1) % 2 ^ 64
        omega
    · exact absurd (h.below id hid) (lt_irrefl id)
  | @insertOptions next pending₁ pending₂ inserted d id options =>
    have hperm : (pending₁ ++ pending₂ ++ (id, options) :: inserted).Perm
        (pending₁ ++ (id, options) :: pending₂ ++ inserted) := by
      refine List.perm_middle.trans ?_
      rw [List.append_assoc, List.append_assoc, List.cons_append]
      exact List.perm_middle.symm
    have hnodup := (hperm.map Prod.fst).nodup_iff.mpr h.nodup
    have hid : id ∉ inserted.map Prod.fst := by
      rw [List.map_append, List.map_cons] at hnodup
      exact (List.nodup_cons.mp (List.nodup_append.mp hnodup).2.1).1
    obtain ⟨hown, hother⟩ := lookup_insertString db d id options
    refine ⟨fun i hi => h.below i ((hperm.map Prod.fst).mem_iff.mp hi), hnodup, ?_, ?_⟩
    · intro i o ho m
      rcases List.mem_cons.mp ho with heq | ho
      · cases heq
        rw [hown, assigned]
        simp only [h.absent _ hid]
      · have hne : i ≠ id := fun heq => hid (heq ▸ List.mem_map_of_mem ho)
        rw [hother i hne]
        exact h.found i o ho m
    · intro i hi m
      obtain ⟨hne, hi⟩ := not_or.mp (List.mem_cons.not.mp hi)
      rw [hother i hne]
      exact h.absent i hi m
  | @throws next pending₁ pending₂ inserted d id options =>
    have hsub : (pending₁ ++ pending₂ ++ inserted).Sublist
        (pending₁ ++ (id, options) :: pending₂ ++ inserted) :=
      .append (.append (.refl _) (List.sublist_cons_self _ _)) (.refl _)
    exact ⟨fun i hi => h.below i ((hsub.map _).subset hi), h.nodup.sublist (hsub.map _), h.found,
      h.absent⟩

theorem GenerationStep.nextInstanceId_eq (hstep : GenerationStep db g e g') :
    g'.nextInstanceId =
      if e.takesNumber then (g.nextInstanceId + 1) % 2 ^ 64 else g.nextInstanceId := by
  cases hstep <;> rfl

/-- As long as the counter does not wrap around, it counts the generations. -/
theorem inv_of_run (h : Run (GenerationStep db) g tr g') (hg : g.Fresh)
    (hlt : numStarted tr < 2 ^ 64) : g'.Inv ∧ g'.nextInstanceId = numStarted tr := by
  induction h with
  | nil => exact ⟨hg.inv, hg.nextInstanceId⟩
  | @snoc a b tr e hrun hstep ih =>
    have hcount : numStarted (tr ++ [(a, e, b)]) =
        numStarted tr + if e.takesNumber then 1 else 0 := by
      simp [numStarted, List.countP_append, List.countP_singleton]
    rw [hcount] at hlt ⊢
    obtain ⟨hinv, hnext⟩ := ih (by omega)
    rw [hstep.nextInstanceId_eq, hnext]
    refine ⟨hstep.inv hinv fun htakes => ?_, ?_⟩
    · rw [if_pos htakes] at hlt
      omega
    · split_ifs with htakes
      · rw [if_pos htakes] at hlt
        exact Nat.mod_eq_of_lt hlt
      · rfl

theorem GenerationStep.inserted_subset (hstep : GenerationStep db g e g') :
    g.inserted ⊆ g'.inserted := by
  cases hstep with
  | takeNumber | throws => exact List.Subset.refl _
  | insertOptions => exact List.subset_cons_self _ _

theorem mem_inserted_of_run (h : Run (GenerationStep db) g tr g') {a b : Generations db} {id : ℕ}
    {options : Chars} (ht : (a, .insertOptions id options, b) ∈ tr) :
    (id, options) ∈ g'.inserted := by
  induction h with
  | nil => cases ht
  | snoc _ hstep ih =>
    rcases List.mem_append.mp ht with ht | ht
    · exact hstep.inserted_subset (ih ht)
    · cases List.mem_singleton.mp ht
      cases hstep
      exact List.mem_cons_self

/-- After any interleaving of fewer than 2^64 generations, every instance that has inserted its
options finds under its prefix what these options alone assign, and an instance that has not
inserted any finds nothing. -/
theorem instances_isolated (h : Run (GenerationStep db) g tr g') (hg : g.Fresh)
    (hlt : numStarted tr < 2 ^ 64) :
    (∀ a b id options, (a, .insertOptions id options, b) ∈ tr → ∀ m,
      db.lookup g'.database (instancePrefix id ++ m) = assigned options m) ∧
    ∀ id ∉ g'.inserted.map Prod.fst, ∀ m,
      db.lookup g'.database (instancePrefix id ++ m) = none := by
  obtain ⟨hinv, -⟩ := inv_of_run h hg hlt
  exact ⟨fun a b id options ht => hinv.found id options (mem_inserted_of_run h ht), hinv.absent⟩

end

/-! ## Two instances -/

def maxIterations : Chars := "-ksp_max_it 1".toList
def tolerance : Chars := "-ksp_rtol 1e-8 -gko_ksp_0_ksp_max_it".toList

/-- The second instance inserts its options first, and they name an option of the first one. -/
theorem instances_isolated_two : ∃ g' : Generations .table,
    (∃ tr, Run (GenerationStep .table) ⟨0, [], [], fun _ => none⟩ tr g' ∧ numStarted tr = 2) ∧
    OptionsDatabase.table.lookup g'.database (instancePrefix 0 ++ "ksp_max_it".toList) =
      some (some "1".toList) ∧
    OptionsDatabase.table.lookup g'.database (instancePrefix 1 ++ "ksp_max_it".toList) = none := by
  let d : OptionsDatabase.table.State := fun _ => none
  have hinsert1 := @GenerationStep.insertOptions .table 2 [] [(0, maxIterations)] [] d 1 tolerance
  let d' := OptionsDatabase.table.insertString d (cStr (prefixOptions tolerance (instancePrefix 1)))
  have hinsert0 := @GenerationStep.insertOptions .table 2 [] [] [(1, tolerance)] d' 0 maxIterations
  have h := (((Run.nil.snoc (@GenerationStep.takeNumber .table 0 [] [] d maxIterations)).snoc
    .takeNumber).snoc hinsert1).snoc hinsert0
  have hall := (instances_isolated h ⟨rfl, rfl, rfl, fun _ _ => rfl⟩ (by decide)).1
  refine ⟨_, ⟨_, h, rfl⟩, ?_, ?_⟩
  · rw [hall _ _ _ _ (List.mem_append_right _ (List.mem_singleton_self _))]
    decide
  · rw [hall _ _ _ _ (List.mem_append_left _ (List.mem_append_right _ (List.mem_singleton_self _)))]
    decide

end GinkgoTpl.Petsc
