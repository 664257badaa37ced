import GinkgoTpl.Petsc.Options

/-!
# Options are rewritten token by token

What `prefix_options` does to any options string: it changes the names among the tokens and nothing
else, the tokens can be read back from its result, and a second prefix goes before the first one.
-/

namespace GinkgoTpl.Petsc

open Text

variable {p : Chars}

/-- Takes a prefix out of a token that is a name. -/
def recoverToken (instancePrefix token : Chars) : Chars :=
  if isOptionName token then '-' :: token.drop (instancePrefix.length + 1) else token

/-- The tokens of the options before `prefixOptions`, read from its result. -/
def recoverTokens (result instancePrefix : Chars) : List Chars :=
  (tokens isSpace result).map (recoverToken instancePrefix)

theorem prefixToken_name (p : Chars) {c : Char} (hc : c.isAlpha) (cs : Chars) :
    prefixToken p ('-' :: c :: cs) = '-' :: (p ++ c :: cs) := by
  rw [prefixToken, if_pos (show isOptionName ('-' :: c :: cs) from hc), List.tail_cons]

theorem prefixToken_of_not_name (p : Chars) {t : Chars}
    (ht : ∀ c cs, t = '-' :: c :: cs → ¬ c.isAlpha) : prefixToken p t = t := by
  refine if_neg fun h => ?_
  obtain ⟨c, cs, rfl, hc⟩ := exists_of_isOptionName h
  exact ht c cs rfl hc

theorem recoverToken_prefixToken (hp : p = [] ∨ startsWithLetter p) (t : Chars) :
    recoverToken p (prefixToken p t) = t := by
  rw [recoverToken, isOptionName_prefixToken hp]
  split
  · next h =>
    obtain ⟨c, cs, rfl, hc⟩ := exists_of_isOptionName h
    rw [prefixToken_name p hc, List.drop_succ_cons, List.drop_left]
  · next h => exact if_neg h

/-- A second prefix goes before the first one. -/
theorem prefixToken_prefixToken (hp : p = [] ∨ startsWithLetter p) (q t : Chars) :
    prefixToken q (prefixToken p t) = prefixToken (q ++ p) t := by
  have hkeep := isOptionName_prefixToken hp t
  cases h : isOptionName t with
  | false =>
    have hno : ∀ r, prefixToken r t = t := fun r => if_neg (by simp [h])
    rw [hno, hno, hno]
  | true =>
    obtain ⟨c, cs, rfl, hc⟩ := exists_of_isOptionName h
    rw [h, prefixToken_name p hc] at hkeep
    rw [prefixToken_name p hc, prefixToken_name _ hc, prefixToken, if_pos hkeep, List.tail_cons,
      List.append_assoc]

/-- What `prefixOptions` has done to `options` with the prefix `p`. -/
structure Rewritten (p options : Chars) : Prop where
  /-- The tokens stay, in their order, with the prefix put into them. -/
  tokens_eq : tokens isSpace (prefixOptions options p) =
    (tokens isSpace options).map (prefixToken p)
  /-- Into a token it is put behind the `-` that comes before a letter, -/
  name : ∀ c cs, c.isAlpha → prefixToken p ('-' :: c :: cs) = '-' :: (p ++ c :: cs)
  /-- and nowhere else. -/
  value : ∀ t, (∀ c cs, t = '-' :: c :: cs → ¬ c.isAlpha) → prefixToken p t = t
  /-- Between the tokens stand single spaces, and none at the ends. -/
  joined : prefixOptions options p =
    [' '].intercalate ((tokens isSpace options).map (prefixToken p))
  head : ∀ c ∈ (prefixOptions options p).head?, isSpace c = false
  last : ∀ c ∈ (prefixOptions options p).getLast?, isSpace c = false
  /-- With a letter at the beginning of the prefix, nothing is lost. -/
  recovered : startsWithLetter p →
    recoverTokens (prefixOptions options p) p = tokens isSpace options
  injective : startsWithLetter p → ∀ options',
    prefixOptions options p = prefixOptions options' p →
      tokens isSpace options = tokens isSpace options'
  composed : p = [] ∨ startsWithLetter p → ∀ q,
    prefixOptions (prefixOptions options p) q = prefixOptions options (q ++ p)

section
variable (hp : ∀ c ∈ p, isSpace c = false)
include hp

theorem recoverTokens_prefixOptions (hletter : startsWithLetter p) (options : Chars) :
    recoverTokens (prefixOptions options p) p = tokens isSpace options := by
  rw [recoverTokens, tokens_prefixOptions hp, List.map_map]
  refine (List.map_congr_left fun t _ => ?_).trans (List.map_id _)
  exact recoverToken_prefixToken (.inr hletter) t

theorem prefixOptions_prefixOptions (hletter : p = [] ∨ startsWithLetter p) (options q : Chars) :
    prefixOptions (prefixOptions options p) q = prefixOptions options (q ++ p) := by
  rw [prefixOptions_eq _ q, tokens_prefixOptions hp, prefixOptions_eq options, List.map_map]
  refine congrArg (joinTokens ' ') (List.map_congr_left fun t _ => ?_)
  exact prefixToken_prefixToken hletter q t

/-- With a prefix without white space, any options are rewritten at exactly their names. -/
theorem prefixOptions_rewritten (options : Chars) : Rewritten p options where
  tokens_eq := tokens_prefixOptions hp options
  name _ cs hc := prefixToken_name p hc cs
  value _ ht := prefixToken_of_not_name p ht
  joined := by
    rw [prefixOptions_eq, joinTokens_eq_intercalate ' ' (isToken_map_prefixToken hp options)]
  head c hc := by
    rw [prefixOptions_eq] at hc
    exact not_sep_of_head?_joinTokens (isToken_map_prefixToken hp options) hc
  last c hc := by
    rw [prefixOptions_eq] at hc
    exact not_sep_of_getLast?_joinTokens (isToken_map_prefixToken hp options) hc
  recovered hletter := recoverTokens_prefixOptions hp hletter options
  injective hletter options' h := by
    rw [← recoverTokens_prefixOptions hp hletter options, h,
      recoverTokens_prefixOptions hp hletter options']
  composed hletter := prefixOptions_prefixOptions hp hletter options

end

/-- Names, a negative number, a lone dash and a double dash between tabs and spaces. -/
theorem prefixOptions_rewritten_mixed :
    Rewritten (instancePrefix 12) " -ksp_rtol\t-1e-8  - --help\n-pc_type ilu ".toList :=
  prefixOptions_rewritten (instancePrefix_isPrefix 12).not_space _

example : prefixOptions " -ksp_rtol\t-1  - --help\n".toList ['s', '_'] =
    "-s_ksp_rtol -1 - --help".toList := by decide

end GinkgoTpl.Petsc
