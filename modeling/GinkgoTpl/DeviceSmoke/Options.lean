import GinkgoTpl.Petsc.Options
import GinkgoTpl.Text.Number

/-!
# The command line of device_smoke

`parse_options` of `hypre/tools/device_smoke.cpp`. A command line is accepted exactly if it is a
sequence of flags with readable values that describes valid options, and it is rejected for the
first thing that is wrong in it (`parseOptions_exact`). Valid options can be written in any order
and are read back (`parseOptions_perm`).
-/

namespace GinkgoTpl.DeviceSmoke

open Text

structure Options where
  executorName : String := "reference"
  grid : ℤ := 40
  reps : ℤ := 1
  relaxType : String := "l1-Jacobi"
  deriving DecidableEq

/-- The arguments that take a value. -/
inductive Flag where
  | executor
  | grid
  | reps
  | relaxType
  deriving DecidableEq

namespace Flag

def text : Flag → String
  | executor => "--executor"
  | grid => "--grid"
  | reps => "--reps"
  | relaxType => "--relax-type"

/-- The flag that an argument is. -/
def ofArg (arg : String) : Option Flag :=
  [executor, grid, reps, relaxType].find? (·.text = arg)

end Flag

/-- `std::stoll` and `std::stoi`, which throw if there is no number or it does not fit. -/
def readFitting (bits : ℕ) (s : String) : Option ℤ :=
  (readInt Petsc.isSpace s.toList).filter fun v => IntFits bits v

/-- Stores the value of a flag, if it can be read. -/
def Flag.set (value : String) (opts : Options) : Flag → Option Options
  | executor => some { opts with executorName := value }
  | grid => (readFitting 64 value).map fun v => { opts with grid := v }
  | reps => (readFitting 32 value).map fun v => { opts with reps := v }
  | relaxType => some { opts with relaxType := value }

/-- The checks after the last argument. -/
def checkOptions (opts : Options) : Except String Options :=
  if opts.executorName ≠ "reference" ∧ opts.executorName ≠ "omp" ∧ opts.executorName ≠ "cuda" then
    .error "--executor must be reference, omp, or cuda"
  else if opts.grid ≤ 0 then .error "--grid must be positive"
  else if opts.reps ≤ 0 then .error "--reps must be positive"
  else .ok opts

/-- The loop over the arguments. A request for help is an error without a text. -/
def parseArgs : List String → Options → Except String Options
  | [], opts => checkOptions opts
  | arg :: args, opts =>
    match Flag.ofArg arg with
    | some flag =>
      match args with
      | [] => .error (arg ++ " needs a value")
      | value :: args =>
        match flag.set value opts with
        | some opts => parseArgs args opts
        | none => .error ("invalid value for " ++ arg)
    | none =>
      if arg = "-h" ∨ arg = "--help" then .error ""
      else .error ("unknown argument '" ++ arg ++ "'")

/-- `parse_options` on the arguments after the name of the program. -/
def parseOptions (args : List String) : Except String Options := parseArgs args {}

/-! ## Settings -/

/-- A flag with its value. -/
structure Setting where
  flag : Flag
  value : String

namespace Setting

def args (s : Setting) : List String := [s.flag.text, s.value]

/-- The value is a number if the flag asks for one. -/
def Readable (s : Setting) : Prop :=
  match s.flag with
  | .executor | .relaxType => True
  | .grid => (readFitting 64 s.value).isSome
  | .reps => (readFitting 32 s.value).isSome

instance (s : Setting) : Decidable s.Readable := by
  unfold Readable
  split <;> infer_instance

end Setting

/-- The value of the last setting of a flag. -/
def lastValue (ss : List Setting) (flag : Flag) : Option String :=
  (ss.reverse.find? (·.flag = flag)).map (·.value)

/-- What settings say: the last one of each flag wins, and what none of them sets is kept. -/
def Options.override (opts : Options) (ss : List Setting) : Options where
  executorName := (lastValue ss .executor).getD opts.executorName
  grid := ((lastValue ss .grid).bind (readFitting 64)).getD opts.grid
  reps := ((lastValue ss .reps).bind (readFitting 32)).getD opts.reps
  relaxType := (lastValue ss .relaxType).getD opts.relaxType

structure Options.Valid (opts : Options) : Prop where
  executorName : opts.executorName ∈ ["reference", "omp", "cuda"]
  grid : 0 < opts.grid
  reps : 0 < opts.reps

/-- What is said of options that are not valid: the first of the three things that is wrong. -/
inductive Options.Fails (opts : Options) : String → Prop
  | executorName : opts.executorName ∉ ["reference", "omp", "cuda"] →
    Fails opts "--executor must be reference, omp, or cuda"
  | grid : opts.executorName ∈ ["reference", "omp", "cuda"] → opts.grid ≤ 0 →
    Fails opts "--grid must be positive"
  | reps : opts.executorName ∈ ["reference", "omp", "cuda"] → 0 < opts.grid → opts.reps ≤ 0 →
    Fails opts "--reps must be positive"

/-- Arguments that begin with something else than a setting, and what is said of them. -/
inductive Stops : List String → String → Prop
  | help {arg rest} : arg ∈ ["-h", "--help"] → Stops (arg :: rest) ""
  | unknown {arg rest} : Flag.ofArg arg = none → arg ∉ ["-h", "--help"] →
    Stops (arg :: rest) ("unknown argument '" ++ arg ++ "'")
  | noValue (flag) : Stops [Flag.text flag] (flag.text ++ " needs a value")
  | unreadable {flag value rest} : ¬ Setting.Readable ⟨flag, value⟩ →
    Stops (flag.text :: value :: rest) ("invalid value for " ++ flag.text)

/-- What a command line means: settings, and then the end or something that is none. -/
inductive Means : List String → Except String Options → Prop
  | valid {ss : List Setting} : (∀ s ∈ ss, s.Readable) → (Options.override {} ss).Valid →
    Means (ss.flatMap Setting.args) (.ok (Options.override {} ss))
  | fails {ss : List Setting} {e} : (∀ s ∈ ss, s.Readable) → (Options.override {} ss).Fails e →
    Means (ss.flatMap Setting.args) (.error e)
  | stops {ss : List Setting} {rest e} : (∀ s ∈ ss, s.Readable) → Stops rest e →
    Means (ss.flatMap Setting.args ++ rest) (.error e)

/-! ## The loop -/

variable {opts opts' : Options} {ss : List Setting} {s : Setting} {arg value e : String}
  {flag : Flag} {args rest : List String}

@[simp] theorem Flag.ofArg_text (flag : Flag) : Flag.ofArg flag.text = some flag := by
  cases flag <;> decide

theorem Flag.text_eq_of_ofArg (h : Flag.ofArg arg = some flag) : flag.text = arg := by
  simpa using List.find?_some h

@[simp] theorem lastValue_nil (flag : Flag) : lastValue [] flag = none := rfl

theorem lastValue_cons (s : Setting) (ss : List Setting) (flag : Flag) :
    lastValue (s :: ss) flag =
      (lastValue ss flag).or (if s.flag = flag then some s.value else none) := by
  rw [lastValue, List.reverse_cons, List.find?_append, Option.map_or]
  split <;> simp [lastValue, *]

@[simp] theorem Options.override_nil (opts : Options) : opts.override [] = opts := rfl

/-- What a readable number settles, it settles after everything before it. -/
theorem getD_readFitting {bits : ℕ} {last first : Option String} {v : ℤ}
    (hlast : ∀ value ∈ last, (readFitting bits value).isSome) :
    ((last.or first).bind (readFitting bits)).getD v =
      (last.bind (readFitting bits)).getD ((first.bind (readFitting bits)).getD v) := by
  cases last with
  | none => simp
  | some value =>
    obtain ⟨w, hw⟩ := Option.isSome_iff_exists.1 (hlast value rfl)
    simp [hw]

theorem mem_of_lastValue (h : lastValue ss flag = some value) : ⟨flag, value⟩ ∈ ss := by
  obtain ⟨s, hs, rfl⟩ := Option.map_eq_some_iff.1 h
  have hflag : s.flag = flag := by simpa using List.find?_some hs
  exact hflag ▸ List.mem_reverse.1 (List.mem_of_find?_eq_some hs)

/-- Settings can be applied one after the other. -/
theorem Options.override_cons (hss : ∀ s ∈ ss, s.Readable) :
    opts.override (s :: ss) = (opts.override [s]).override ss := by
  have hgrid : ∀ value ∈ lastValue ss .grid, (readFitting 64 value).isSome :=
    fun value h => hss _ (mem_of_lastValue h)
  have hreps : ∀ value ∈ lastValue ss .reps, (readFitting 32 value).isSome :=
    fun value h => hss _ (mem_of_lastValue h)
  simp only [override, lastValue_cons, lastValue_nil, Option.none_or, getD_readFitting hgrid,
    getD_readFitting hreps, Option.getD_or]

/-- The loop stores a value that it can read, and nothing else. -/
theorem Flag.set_eq_some :
    flag.set value opts = some opts' ↔
      Setting.Readable ⟨flag, value⟩ ∧ opts' = opts.override [⟨flag, value⟩] := by
  cases flag with
  | executor => simp [Flag.set, Setting.Readable, Options.override, lastValue_cons, eq_comm]
  | relaxType => simp [Flag.set, Setting.Readable, Options.override, lastValue_cons, eq_comm]
  | grid =>
    cases h : readFitting 64 value <;>
      simp [Flag.set, Setting.Readable, Options.override, lastValue_cons, eq_comm, h]
  | reps =>
    cases h : readFitting 32 value <;>
      simp [Flag.set, Setting.Readable, Options.override, lastValue_cons, eq_comm, h]

/-- The loop goes past settings that it can read. -/
theorem parseArgs_append (hss : ∀ s ∈ ss, s.Readable) :
    parseArgs (ss.flatMap Setting.args ++ rest) opts = parseArgs rest (opts.override ss) := by
  induction ss generalizing opts with
  | nil => rfl
  | cons s ss ih =>
    obtain ⟨hs, hss⟩ := List.forall_mem_cons.1 hss
    have hset : s.flag.set s.value opts = some (opts.override [s]) :=
      Flag.set_eq_some.2 ⟨hs, rfl⟩
    simp only [List.flatMap_cons, Setting.args, List.cons_append, List.nil_append, parseArgs,
      Flag.ofArg_text, hset]
    rw [ih hss, ← Options.override_cons hss]

/-- The loop ends where no setting begins. -/
theorem Stops.parseArgs (h : Stops rest e) (opts : Options) : parseArgs rest opts = .error e := by
  cases h with
  | help h =>
    simp only [List.mem_cons, List.not_mem_nil, or_false] at h
    obtain rfl | rfl := h <;> rfl
  | unknown hflag hhelp =>
    simp only [List.mem_cons, List.not_mem_nil, or_false] at hhelp
    simp [DeviceSmoke.parseArgs, hflag, hhelp]
  | noValue flag => simp [DeviceSmoke.parseArgs]
  | @unreadable flag value rest h =>
    have hset : flag.set value opts = none := by
      rw [Option.eq_none_iff_forall_not_mem]
      exact fun opts' hopts' => h (Flag.set_eq_some.1 hopts').1
    simp [DeviceSmoke.parseArgs, hset]

/-- Every command line is settings that can be read, and then the end or no setting. -/
theorem exists_settings (args : List String) :
    ∃ (ss : List Setting) (rest : List String), args = ss.flatMap Setting.args ++ rest ∧
      (∀ s ∈ ss, s.Readable) ∧ (rest = [] ∨ ∃ e, Stops rest e) := by
  match args with
  | [] => exact ⟨[], [], rfl, by simp, .inl rfl⟩
  | arg :: args =>
    cases hflag : Flag.ofArg arg with
    | none =>
      refine ⟨[], arg :: args, rfl, by simp, .inr ?_⟩
      by_cases hhelp : arg ∈ ["-h", "--help"]
      · exact ⟨_, .help hhelp⟩
      · exact ⟨_, .unknown hflag hhelp⟩
    | some flag =>
      obtain rfl := Flag.text_eq_of_ofArg hflag
      match args with
      | [] => exact ⟨[], [flag.text], rfl, by simp, .inr ⟨_, .noValue flag⟩⟩
      | value :: args =>
        by_cases h : Setting.Readable ⟨flag, value⟩
        · obtain ⟨ss, rest, rfl, hss, hrest⟩ := exists_settings args
          exact ⟨⟨flag, value⟩ :: ss, rest, rfl, List.forall_mem_cons.2 ⟨h, hss⟩, hrest⟩
        · exact ⟨[], flag.text :: value :: args, rfl, by simp, .inr ⟨_, .unreadable h⟩⟩

theorem checkOptions_eq_ok : checkOptions opts = .ok opts' ↔ opts.Valid ∧ opts' = opts := by
  unfold checkOptions
  constructor
  · intro h
    split_ifs at h with h1 h2 h3
    cases h
    exact ⟨⟨by simpa [or_iff_not_imp_left] using h1, by omega, by omega⟩, rfl⟩
  · rintro ⟨⟨h1, h2, h3⟩, rfl⟩
    rw [if_neg (by simpa [or_iff_not_imp_left] using h1), if_neg (by omega), if_neg (by omega)]

theorem checkOptions_eq_error : checkOptions opts = .error e ↔ opts.Fails e := by
  have hname : (opts.executorName ≠ "reference" ∧ opts.executorName ≠ "omp" ∧
      opts.executorName ≠ "cuda") ↔ opts.executorName ∉ ["reference", "omp", "cuda"] := by simp
  unfold checkOptions
  simp only [hname]
  constructor
  · intro h
    split_ifs at h with h1 h2 h3 <;> cases h
    · exact .grid h1 h2
    · exact .reps h1 (not_le.1 h2) h3
    · exact .executorName h1
  · intro h
    cases h with
    | executorName h1 => rw [if_pos h1]
    | grid h1 h2 => rw [if_neg (not_not.2 h1), if_pos h2]
    | reps h1 h2 h3 => rw [if_neg (not_not.2 h1), if_neg (not_le.2 h2), if_pos h3]

/-- `parse_options` answers what a command line means, and every command line means something. -/
theorem parseOptions_exact {args : List String} {result : Except String Options} :
    parseOptions args = result ↔ Means args result := by
  constructor
  · rintro rfl
    obtain ⟨ss, rest, rfl, hss, rfl | ⟨e, hstop⟩⟩ := exists_settings args
    · rw [parseOptions, parseArgs_append hss, List.append_nil]
      cases h : parseArgs [] (Options.override {} ss) with
      | error e => exact .fails hss (checkOptions_eq_error.1 h)
      | ok opts =>
        obtain ⟨hvalid, rfl⟩ := checkOptions_eq_ok.1 h
        exact .valid hss hvalid
    · rw [parseOptions, parseArgs_append hss, hstop.parseArgs]
      exact .stops hss hstop
  · intro h
    cases h with
    | @valid ss hss hvalid =>
      rw [← List.append_nil (ss.flatMap _), parseOptions, parseArgs_append hss]
      exact checkOptions_eq_ok.2 ⟨hvalid, rfl⟩
    | @fails ss e hss hfails =>
      rw [← List.append_nil (ss.flatMap _), parseOptions, parseArgs_append hss]
      exact checkOptions_eq_error.2 hfails
    | stops hss hstop => rw [parseOptions, parseArgs_append hss, hstop.parseArgs]

/-! ## The round trip -/

/-- Options as settings. -/
def Options.settings (opts : Options) : List Setting :=
  [⟨.executor, opts.executorName⟩, ⟨.grid, String.ofList (showInt opts.grid)⟩,
    ⟨.reps, String.ofList (showInt opts.reps)⟩, ⟨.relaxType, opts.relaxType⟩]

theorem readFitting_showInt {bits : ℕ} {v : ℤ} (hv : IntFits bits v) :
    readFitting bits (String.ofList (showInt v)) = some v := by
  have hspace : ∀ c : Char, c.isDigit → Petsc.isSpace c = false := by
    intro c hc
    simp only [Char.isDigit, Bool.and_eq_true, decide_eq_true_eq] at hc
    have h48 : 48 ≤ c.toNat := hc.1
    have hne : c ≠ ' ' := by
      rintro rfl
      exact absurd h48 (by decide)
    simp only [Petsc.isSpace, hne, false_or, decide_eq_false_iff_not]
    omega
  have hread : readInt Petsc.isSpace (showInt v ++ []) = some v :=
    readInt_showInt rfl hspace v (by simp)
  rw [List.append_nil] at hread
  rw [readFitting, String.toList_ofList, hread]
  simp [hv]

theorem lastValue_append (ss ts : List Setting) (flag : Flag) :
    lastValue (ss ++ ts) flag = (lastValue ts flag).or (lastValue ss flag) := by
  rw [lastValue, List.reverse_append, List.find?_append, Option.map_or]
  rfl

/-- Where each flag is set once, the order does not matter. -/
theorem lastValue_of_mem (hflags : (ss.map (·.flag)).Nodup) (hs : s ∈ ss) :
    lastValue ss s.flag = some s.value := by
  induction ss with
  | nil => cases hs
  | cons t ss ih =>
    obtain ⟨ht, hflags⟩ := List.nodup_cons.1 hflags
    rw [lastValue_cons]
    cases hs with
    | head =>
      have hnone : lastValue ss s.flag = none := by
        rw [Option.eq_none_iff_forall_not_mem]
        intro value hvalue
        have hmem := mem_of_lastValue hvalue
        exact ht (List.mem_map.2 ⟨_, hmem, rfl⟩)
      simp [hnone]
    | tail _ hs => rw [ih hflags hs, Option.some_or]

/-- Valid options that fit their types are read back from every order of their flags, whatever
was said before them. -/
theorem parseOptions_perm {opts : Options} {earlier ss : List Setting} (hvalid : opts.Valid)
    (hgrid : opts.grid < 2 ^ 63) (hreps : opts.reps < 2 ^ 31) (hperm : ss.Perm opts.settings)
    (hearlier : ∀ s ∈ earlier, s.Readable) :
    parseOptions ((earlier ++ ss).flatMap Setting.args) = .ok opts := by
  have hreadGrid : readFitting 64 (String.ofList (showInt opts.grid)) = some opts.grid :=
    readFitting_showInt ⟨by have := hvalid.grid; omega, by omega⟩
  have hreadReps : readFitting 32 (String.ofList (showInt opts.reps)) = some opts.reps :=
    readFitting_showInt ⟨by have := hvalid.reps; omega, by omega⟩
  have hreadable : ∀ s ∈ ss, s.Readable := by
    intro s hs
    have hmem := hperm.subset hs
    simp only [Options.settings, List.mem_cons, List.not_mem_nil, or_false] at hmem
    obtain rfl | rfl | rfl | rfl := hmem <;> simp [Setting.Readable, hreadGrid, hreadReps]
  have hflags : (ss.map (·.flag)).Nodup := by
    rw [(hperm.map _).nodup_iff]
    simp [Options.settings]
  have hlast : ∀ s ∈ opts.settings, lastValue (earlier ++ ss) s.flag = some s.value := by
    intro s hs
    rw [lastValue_append, lastValue_of_mem hflags (hperm.symm.subset hs), Option.some_or]
  have hoverride : Options.override {} (earlier ++ ss) = opts := by
    simp only [Options.settings, List.forall_mem_cons] at hlast
    obtain ⟨h1, h2, h3, h4, -⟩ := hlast
    simp only [Options.override, h1, h2, h3, h4, Option.bind_some, hreadGrid, hreadReps,
      Option.getD_some]
  have hall : ∀ s ∈ earlier ++ ss, s.Readable := by
    intro s hs
    exact (List.mem_append.1 hs).elim (hearlier s) (hreadable s)
  rw [← List.append_nil ((earlier ++ ss).flatMap _), parseOptions, parseArgs_append hall, hoverride]
  exact checkOptions_eq_ok.2 ⟨hvalid, rfl⟩

theorem parseOptions_perm_reversed :
    parseOptions ["--grid", "7", "--relax-type", "Jacobi", "--reps", "3", "--grid", "20",
      "--executor", "cuda"] = .ok ⟨"cuda", 20, 3, "Jacobi"⟩ :=
  @parseOptions_perm ⟨"cuda", 20, 3, "Jacobi"⟩ [⟨.grid, "7"⟩] _ ⟨by decide, by decide, by decide⟩
    (by decide) (by decide) (List.reverse_perm _) (by decide)

end GinkgoTpl.DeviceSmoke
