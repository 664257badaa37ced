import Mathlib.Data.Int.Notation
import GinkgoTpl.Memory.Spaces

/-!
# Staged solves

`solve_with_arrays` in `petsc/detail/vectors.hpp` on memory: on a device executor with host vectors
it solves on host copies of the caller's arrays and copies `x` back. The main result is
`staged_agrees`: whatever the solve does with the values, the caller finds what a solve on its own
arrays leaves.
-/

namespace GinkgoTpl.Petsc.Staging

open Memory Transition

inductive Space where
  | host
  | device
  deriving DecidableEq

variable {ε ρ V : Type}

/-- A solve on copies of the values behind `b` and `x`. -/
def solveOnCopies (n : ℕ) (b x hostB hostX : Pointer Space)
    (solve : Pointer Space → Pointer Space → EStateM ε (Cells Space V) ρ) :
    EStateM ε (Cells Space V) ρ := do
  modify (copy n b hostB)
  modify (copy n x hostX)
  let result ← solve hostB hostX
  modify (copy n hostX x)
  return result

/-- `solve_with_arrays` on an executor whose memory is `exec`. -/
def solveWithArrays (host : Allocator V Space.host) (badAlloc : ε) (exec : Space)
    (deviceVectors : Bool) (n : ℕ) (b x : Pointer Space)
    (solve : Pointer Space → Pointer Space → EStateM ε (Cells Space V) ρ) :
    EStateM ε (Cells Space V) ρ :=
  if deviceVectors ∨ exec = .host then solve b x
  else
    withArray host badAlloc n fun hostB =>
    withArray host badAlloc n fun hostX => solveOnCopies n b x hostB hostX solve

/-! ## The memory in which the staged solve starts -/

/-- In `m'`, two new host arrays hold the values of `b` and `x`, and all else is as in `m`. -/
structure Staged (n : ℕ) (b x hostB hostX : Pointer Space) (m m' : Cells Space V) : Prop where
  b_host : hostB.space = .host
  x_host : hostX.space = .host
  b_copied : ∀ i < n, m' (hostB.offset i) = m (b.offset i)
  x_copied : ∀ i < n, m' (hostX.offset i) = m (x.offset i)
  apart : ∀ q : Pointer Space, q.Among hostB n → ¬ q.Among hostX n
  fresh : ∀ q : Pointer Space, q.Among hostB n ∨ q.Among hostX n → m q = none
  others : ∀ q : Pointer Space, ¬ q.Among hostB n → ¬ q.Among hostX n → m' q = m q

/-- What is left of a staged solve in the memory `m'`. -/
def unstage (n : ℕ) (hostB hostX : Pointer Space) (m' : Cells Space V) : Cells Space V :=
  release n hostB (release n hostX m')

section
variable {host : Allocator V Space.host} {badAlloc : ε} {n : ℕ} {b x : Pointer Space}
  {hostB hostX : Pointer Space} {m m' : Cells Space V}
  {solve : Pointer Space → Pointer Space → EStateM ε (Cells Space V) ρ}

theorem not_among_host {q : Pointer Space} (hq : q.space = .device) (hp : hostB.space = .host) :
    ¬ q.Among hostB n := fun h => by
  have := (h.1.symm.trans hq).symm.trans hp
  cases this

theorem staged_start {aB aX : ℕ} (hb : b.space = .device) (hx : x.space = .device)
    (haB : host.address m n = some aB)
    (haX : host.address (allocate n ⟨.host, aB⟩ host.contents m) n = some aX) :
    Staged n b x ⟨.host, aB⟩ ⟨.host, aX⟩ m
      (copy n x ⟨.host, aX⟩ (copy n b ⟨.host, aB⟩ (allocate n ⟨.host, aX⟩ host.contents
        (allocate n ⟨.host, aB⟩ host.contents m)))) := by
  have hfreshB := host.fresh haB
  have hfreshX := host.fresh haX
  have hapart : ∀ q : Pointer Space, q.Among ⟨.host, aB⟩ n → ¬ q.Among ⟨.host, aX⟩ n :=
    fun q hq => not_among_of_fresh hfreshX hq
  have hnotB : ∀ i a, ¬ (b.offset i).Among ⟨.host, a⟩ n := fun i a => not_among_host hb rfl
  have hnotX : ∀ i a, ¬ (x.offset i).Among ⟨.host, a⟩ n := fun i a => not_among_host hx rfl
  refine ⟨rfl, rfl, fun i hi => ?_, fun i hi => ?_, hapart, fun q hq => ?_, fun q hB hX => ?_⟩
  · rw [copy_of_not_among (hapart _ (Pointer.among_offset hi)), copy_offset hi,
      allocate_of_not_among (hnotB i _), allocate_of_not_among (hnotB i _)]
  · rw [copy_offset hi, copy_of_not_among (hnotX i _), allocate_of_not_among (hnotX i _),
      allocate_of_not_among (hnotX i _)]
  · rcases hq with hq | hq
    · exact hfreshB q hq
    · have hnot : ¬ q.Among ⟨.host, aB⟩ n := fun hB => hapart q hB hq
      rw [← hfreshX q hq, allocate_of_not_among hnot]
  · rw [copy_of_not_among hX, copy_of_not_among hB, allocate_of_not_among hX,
      allocate_of_not_among hB]

theorem solveOnCopies_eq :
    solveOnCopies n b x hostB hostX solve m =
      match solve hostB hostX (copy n x hostX (copy n b hostB m)) with
      | .ok r m' => .ok r (copy n hostX x m')
      | .error e m' => .error e m' := by
  change EStateM.bind (solve hostB hostX) _ (copy n x hostX (copy n b hostB m)) = _
  rw [EStateM.bind]
  cases solve hostB hostX (copy n x hostX (copy n b hostB m)) with
  | ok r m' => rfl
  | error e m' => rfl

/-- A staged run solves on host copies, unless it does not get the arrays for them. -/
theorem solveWithArrays_staged (host : Allocator V Space.host) (badAlloc : ε) (n : ℕ)
    (solve : Pointer Space → Pointer Space → EStateM ε (Cells Space V) ρ) (m : Cells Space V)
    (hb : b.space = .device) (hx : x.space = .device) :
    solveWithArrays host badAlloc .device false n b x solve m = .error badAlloc m ∨
    ∃ hostB hostX m', Staged n b x hostB hostX m m' ∧
      solveWithArrays host badAlloc .device false n b x solve m =
        match solve hostB hostX m' with
        | .ok r m'' => .ok r (unstage n hostB hostX (copy n hostX x m''))
        | .error e m'' => .error e (unstage n hostB hostX m'') := by
  have hpath : ¬ ((false : Bool) = true ∨ Space.device = .host) := by simp
  rw [solveWithArrays, if_neg hpath]
  cases haB : host.address m n with
  | none => left; simp only [withArray, haB]
  | some aB =>
    cases haX : host.address (allocate n ⟨.host, aB⟩ host.contents m) n with
    | none =>
      left
      simp only [withArray, haB, haX, release_allocate (host.fresh haB)]
    | some aX =>
      have hstaged := staged_start hb hx haB haX
      refine .inr ⟨_, _, _, hstaged, ?_⟩
      simp only [withArray, haB, haX, solveOnCopies_eq, unstage]
      cases solve ⟨.host, aB⟩ ⟨.host, aX⟩ (copy n x ⟨.host, aX⟩ (copy n b ⟨.host, aB⟩
        (allocate n ⟨.host, aX⟩ host.contents (allocate n ⟨.host, aB⟩ host.contents m)))) <;> rfl

/-! ## What the caller finds -/

theorem Staged.operands (h : Staged n b x hostB hostX m m') (hops : Operands n b x m) :
    Operands n hostB hostX m' where
  b_allocated i hi := by rw [h.b_copied i hi]; exact hops.b_allocated i hi
  x_allocated i hi := by rw [h.x_copied i hi]; exact hops.x_allocated i hi
  apart i hi := h.apart _ (Pointer.among_offset hi)

/-- Without the host copies, the memory is as it was. -/
theorem Staged.unstage_eq (h : Staged n b x hostB hostX m m') {m'' : Cells Space V}
    (hframe : ∀ q : Pointer Space, ¬ q.Among hostX n → m'' q = m' q) :
    unstage n hostB hostX m'' = m := by
  funext q
  rw [unstage]
  by_cases hB : q.Among hostB n
  · rw [release, if_pos hB, h.fresh q (.inl hB)]
  · rw [release_of_not_among hB]
    by_cases hX : q.Among hostX n
    · rw [release, if_pos hX, h.fresh q (.inr hX)]
    · rw [release_of_not_among hX, hframe q hX, h.others q hB hX]

/-- Copying back changes nothing but the values behind `x`, -/
theorem unstage_copy_of_not_among {m'' : Cells Space V} {q : Pointer Space} (hq : ¬ q.Among x n) :
    unstage n hostB hostX (copy n hostX x m'') q = unstage n hostB hostX m'' q := by
  simp only [unstage, release, copy_of_not_among hq]

/-- which are those that the solve has written. -/
theorem Staged.unstage_copy (h : Staged n b x hostB hostX m m') (hx : x.space = .device)
    {m'' : Cells Space V} {i : ℕ} (hi : i < n) :
    unstage n hostB hostX (copy n hostX x m'') (x.offset i) = m'' (hostX.offset i) := by
  have hnotB : ¬ (x.offset i).Among hostB n := not_among_host hx h.b_host
  have hnotX : ¬ (x.offset i).Among hostX n := not_among_host hx h.x_host
  rw [unstage, release_of_not_among hnotB, release_of_not_among hnotX, copy_offset hi]

theorem stateAfter_of_ok {y : EStateM ε (Cells Space V) ρ} {r : ρ} (h : y m = .ok r m') :
    stateAfter y m = m' := by
  rw [stateAfter, h]

theorem stateAfter_of_error {y : EStateM ε (Cells Space V) ρ} {e : ε} (h : y m = .error e m') :
    stateAfter y m = m' := by
  rw [stateAfter, h]

theorem solveWithArrays_inPlace {exec : Space} {deviceVectors : Bool}
    (hpath : deviceVectors ∨ exec = .host) :
    solveWithArrays host badAlloc exec deviceVectors n b x solve = solve b x := if_pos hpath

end

section
variable {host : Allocator V Space.host} {badAlloc : ε} {n aB aX : ℕ} {m m' : Cells Space V}
  {solve : Pointer Space → Pointer Space → EStateM ε (Cells Space V) ρ} {exec : Space}

theorem operands_inPlace (hops : Operands n ⟨.device, aB⟩ ⟨.device, aX⟩ m)
    (hsame : ∀ a, m' ⟨exec, a⟩ = m ⟨.device, a⟩) : Operands n ⟨exec, aB⟩ ⟨exec, aX⟩ m' where
  b_allocated i hi := by rw [Pointer.offset, hsame]; exact hops.b_allocated i hi
  x_allocated i hi := by rw [Pointer.offset, hsame]; exact hops.x_allocated i hi
  apart i hi h := hops.apart i hi ⟨rfl, h.2⟩

/-- The values that a staged solve returns to the caller. -/
theorem staged_ok (hsolve : Confined n solve) (hops : Operands n ⟨.device, aB⟩ ⟨.device, aX⟩ m)
    (hsame : ∀ a, m' ⟨exec, a⟩ = m ⟨.device, a⟩) {r : ρ} {mf : Cells Space V}
    (hrun : solveWithArrays host badAlloc .device false n ⟨.device, aB⟩ ⟨.device, aX⟩ solve m =
      .ok r mf) :
    ∃ mf', solve ⟨exec, aB⟩ ⟨exec, aX⟩ m' = .ok r mf' ∧
      (∀ a, mf ⟨.device, a⟩ = mf' ⟨exec, a⟩) ∧ (∀ a, mf ⟨.host, a⟩ = m ⟨.host, a⟩) ∧
      ∀ q, q.space ≠ exec → mf' q = m' q := by
  have hops' := operands_inPlace hops hsame
  rcases solveWithArrays_staged host badAlloc n solve m (b := ⟨.device, aB⟩) (x := ⟨.device, aX⟩)
      rfl rfl with hthrow | ⟨hostB, hostX, m₁, hstaged, heq⟩
  · rw [hthrow] at hrun
    cases hrun
  rw [heq] at hrun
  -- the solve on the copies and the solve in place see the same values
  have hopsHost := hstaged.operands hops
  have hb : ∀ i < n, m₁ (hostB.offset i) = m' (Pointer.offset ⟨exec, aB⟩ i) :=
    fun i hi => (hstaged.b_copied i hi).trans (hsame _).symm
  have hx : ∀ i < n, m₁ (hostX.offset i) = m' (Pointer.offset ⟨exec, aX⟩ i) :=
    fun i hi => (hstaged.x_copied i hi).trans (hsame _).symm
  have houtcome := hsolve.outcome hopsHost hops' hb hx
  have hwritten := hsolve.written hopsHost hops' hb hx
  have hframe := hsolve.frame hopsHost
  have hframe' := hsolve.frame hops'
  cases hhost : solve hostB hostX m₁ with
  | error e m₂ =>
    rw [hhost] at hrun
    cases hrun
  | ok r' m₂ =>
    rw [hhost] at hrun
    cases hrun
    rw [outcome, hhost] at houtcome
    rw [stateAfter_of_ok hhost] at hwritten hframe
    cases hplace : solve ⟨exec, aB⟩ ⟨exec, aX⟩ m' with
    | error e m₃ =>
      rw [outcome, hplace] at houtcome
      cases houtcome
    | ok r'' m₃ =>
      rw [outcome, hplace] at houtcome
      cases houtcome
      rw [stateAfter_of_ok hplace] at hwritten hframe'
      refine ⟨m₃, rfl, fun a => ?_, fun a => ?_, fun q hq => hframe' q fun h => hq h.1⟩
      · by_cases ha : Pointer.Among ⟨Space.device, a⟩ ⟨.device, aX⟩ n
        · obtain ⟨i, hi, hoffset⟩ := ha.exists_offset
          obtain rfl : a = aX + i := congrArg Pointer.address hoffset
          exact (hstaged.unstage_copy rfl hi).trans (hwritten i hi)
        · have ha' : ¬ Pointer.Among ⟨exec, a⟩ ⟨exec, aX⟩ n := fun h => ha ⟨rfl, h.2⟩
          rw [unstage_copy_of_not_among ha, hstaged.unstage_eq hframe, hframe' _ ha', hsame]
      · have ha : ¬ Pointer.Among ⟨Space.host, a⟩ ⟨.device, aX⟩ n := fun h => by cases h.1
        rw [unstage_copy_of_not_among ha, hstaged.unstage_eq hframe]

/-- A staged solve that throws leaves no trace. -/
theorem staged_error (hsolve : Confined n solve)
    (hops : Operands n ⟨.device, aB⟩ ⟨.device, aX⟩ m) {e : ε} {mf : Cells Space V}
    (hrun : solveWithArrays host badAlloc .device false n ⟨.device, aB⟩ ⟨.device, aX⟩ solve m =
      .error e mf) : mf = m := by
  rcases solveWithArrays_staged host badAlloc n solve m (b := ⟨.device, aB⟩) (x := ⟨.device, aX⟩)
      rfl rfl with hthrow | ⟨hostB, hostX, m₁, hstaged, heq⟩
  · rw [hthrow] at hrun
    cases hrun
    rfl
  rw [heq] at hrun
  have hframe := hsolve.frame (hstaged.operands hops)
  cases hhost : solve hostB hostX m₁ with
  | ok r m₂ =>
    rw [hhost] at hrun
    cases hrun
  | error e m₂ =>
    rw [hhost] at hrun
    cases hrun
    rw [stateAfter_of_error hhost] at hframe
    exact hstaged.unstage_eq hframe

/-- A staged solve gets host pointers. -/
theorem staged_congr {b x : Pointer Space}
    {solve' : Pointer Space → Pointer Space → EStateM ε (Cells Space V) ρ}
    (hagree : ∀ b x : Pointer Space, b.space = .host → x.space = .host → solve' b x = solve b x) :
    solveWithArrays host badAlloc .device false n b x solve' =
      solveWithArrays host badAlloc .device false n b x solve := by
  have hpath : ¬ ((false : Bool) = true ∨ Space.device = .host) := by simp
  rw [solveWithArrays, solveWithArrays, if_neg hpath, if_neg hpath]
  refine withArray_congr fun hostB hB => withArray_congr fun hostX hX => ?_
  rw [solveOnCopies, solveOnCopies, hagree hostB hostX hB hX]

/-- A staged solve leaves the caller's memory as the solve in place does that starts from the same
contents, whatever else is in memory. It passes host pointers to the solve, and the solve in place
gets the caller's. If the staged solve throws, all memory is as it was. -/
theorem staged_agrees (hsolve : Confined n solve)
    (hops : Operands n ⟨.device, aB⟩ ⟨.device, aX⟩ m) {deviceVectors : Bool}
    (hpath : deviceVectors ∨ exec = .host) (hsame : ∀ a, m' ⟨exec, a⟩ = m ⟨.device, a⟩) :
    (∀ r mf, solveWithArrays host badAlloc .device false n ⟨.device, aB⟩ ⟨.device, aX⟩ solve m =
        .ok r mf →
      ∃ mf', solveWithArrays host badAlloc exec deviceVectors n ⟨exec, aB⟩ ⟨exec, aX⟩ solve m' =
          .ok r mf' ∧
        (∀ a, mf ⟨.device, a⟩ = mf' ⟨exec, a⟩) ∧ (∀ a, mf ⟨.host, a⟩ = m ⟨.host, a⟩) ∧
        ∀ q, q.space ≠ exec → mf' q = m' q) ∧
    (∀ e mf, solveWithArrays host badAlloc .device false n ⟨.device, aB⟩ ⟨.device, aX⟩ solve m =
        .error e mf → mf = m) ∧
    (∀ solve', (∀ b x, b.space = .host → x.space = .host → solve' b x = solve b x) →
      solveWithArrays host badAlloc .device false n ⟨.device, aB⟩ ⟨.device, aX⟩ solve' =
        solveWithArrays host badAlloc .device false n ⟨.device, aB⟩ ⟨.device, aX⟩ solve) ∧
    solveWithArrays host badAlloc exec deviceVectors n ⟨exec, aB⟩ ⟨exec, aX⟩ solve =
      solve ⟨exec, aB⟩ ⟨exec, aX⟩ := by
  rw [solveWithArrays_inPlace hpath]
  exact ⟨fun r mf hrun => staged_ok hsolve hops hsame hrun,
    fun e mf hrun => staged_error hsolve hops hrun, fun solve' hagree => staged_congr hagree, rfl⟩

end

/-! ## A solve of two values -/

/-- A solve that starts from `x` and uses `b`. -/
def doubleAndAdd (n : ℕ) (b x : Pointer Space) : EStateM String (Cells Space ℤ) Unit :=
  modify fun m q =>
    if q.Among x n then
      (m (b.offset (q.address - x.address))).bind fun u => (m q).map fun v => 2 * v + u
    else m q

theorem doubleAndAdd_confined (n : ℕ) : Confined n (doubleAndAdd n) where
  frame _ _ hq := if_neg hq
  outcome _ _ _ _ := rfl
  written := by
    intro b x m b' x' m' _ _ hb hx i hi
    have hvalue : ∀ (b x : Pointer Space) (m : Cells Space ℤ),
        stateAfter (doubleAndAdd n b x) m (x.offset i) =
          (m (b.offset i)).bind fun u => (m (x.offset i)).map fun v => 2 * v + u := by
      intro b x m
      have hsub : (x.offset i).address - x.address = i := Nat.add_sub_cancel_left ..
      refine (if_pos (Pointer.among_offset hi)).trans ?_
      rw [hsub]
    rw [hvalue, hvalue, hb i hi, hx i hi]

/-- Two arrays of three values on the device. -/
def twoArrays : Cells Space ℤ := fun q =>
  if q.space = .device then ([10, 20, 30, 1, 2, 3] : List ℤ)[q.address]? else none

theorem staged_agrees_two : ∃ mf mf',
    solveWithArrays (.firstFit Space.host 8 0) "bad_alloc" .device false 2 ⟨.device, 0⟩ ⟨.device, 3⟩
      (doubleAndAdd 2) twoArrays = .ok () mf ∧
    doubleAndAdd 2 ⟨.host, 0⟩ ⟨.host, 3⟩ (fun q => twoArrays ⟨.device, q.address⟩) = .ok () mf' ∧
    (∀ a, mf ⟨.device, a⟩ = mf' ⟨.host, a⟩) ∧
    [3, 4, 5].map (fun a => mf ⟨.device, a⟩) = [some 12, some 24, some 3] := by
  have hops : Operands 2 ⟨.device, 0⟩ ⟨.device, 3⟩ twoArrays := by
    refine ⟨?_, ?_, ?_⟩ <;> decide
  have h := @staged_agrees String Unit ℤ (.firstFit Space.host 8 0) "bad_alloc" 2 0 3 twoArrays
    (fun q => twoArrays ⟨.device, q.address⟩) (doubleAndAdd 2) .host (doubleAndAdd_confined 2) hops
    false (.inr rfl) fun _ => rfl
  obtain ⟨mf', hrun, hsame, -⟩ := h.1 () _ rfl
  exact ⟨_, mf', rfl, hrun, hsame, rfl⟩

end GinkgoTpl.Petsc.Staging
