import Mathlib.Algebra.BigOperators.Ring.Finset
import GinkgoTpl.Counting.Levels
import GinkgoTpl.Hypre.Pcg

/-!
# The reported hierarchy

The end of the constructor of `Pcg`: two reductions turn the last levels that BoomerAMG reports for
a rank's own rows into the numbers of global rows on all levels. `Hierarchy.ofLevels` is the
hierarchy of a list of last levels, and `hierarchy_true` says that this is what every rank reports
of the rows of all ranks, unless the query has failed somewhere.
-/

namespace GinkgoTpl.Hypre

open Spmd Counting

variable {P : ℕ} {A V : Type} [Inhabited V]

/-- The hierarchy of rows with the given last levels. -/
def Hierarchy.ofLevels (levels : List ℕ) : Hierarchy := ⟨top levels + 1, profile levels⟩

/-- What is documented of `HYPRE_BoomerAMGGetGridHierarchy`: its code is a sum of flags, and each
row's last level is below the number of levels, an `int`. -/
structure HierarchyQuery (hypre : Lib V) (localRows : ℕ) : Prop where
  code_nonneg : 0 ≤ hypre.gridHierarchy.1
  code_fits : IntFits 32 hypre.gridHierarchy.1
  level_nonneg : ∀ i < localRows, 0 ≤ hypre.gridHierarchy.2 i
  level_lt : ∀ i < localRows, hypre.gridHierarchy.2 i < 2 ^ 31 - 1

/-! ## One rank -/

/-- The last levels of a rank's rows. -/
def lastLevels (localRows : ℕ) (lastLevel : ℕ → ℤ) : List ℕ :=
  (List.range localRows).map fun i => (lastLevel i).toNat

/-- The places at which the loops of a rank increment a counter. -/
def counterPlaces (localRows : ℕ) (lastLevel : ℕ → ℤ) : List ℕ :=
  (List.range localRows).flatMap fun i => List.range (castInt 32 (lastLevel i) + 1).toNat

theorem rowsOnLevels_eq (localRows : ℕ) (lastLevel : ℕ → ℤ) (numLevels : ℤ) :
    rowsOnLevels localRows lastLevel numLevels =
      increments (List.replicate (castSize numLevels) 0) (counterPlaces localRows lastLevel) := by
  rw [rowsOnLevels, increments, counterPlaces, List.foldl_flatMap]

section
variable {hypre : Lib V} {localRows : ℕ}

namespace HierarchyQuery

theorem castInt_level (h : HierarchyQuery hypre localRows) {i : ℕ} (hi : i < localRows) :
    castInt 32 (hypre.gridHierarchy.2 i) = hypre.gridHierarchy.2 i := by
  have h0 := h.level_nonneg i hi
  have h1 := h.level_lt i hi
  exact IntFits.castInt (by decide) ⟨by omega, by omega⟩

/-- The places of a rank are the levels that its rows reach. -/
theorem counterPlaces_eq (h : HierarchyQuery hypre localRows) :
    counterPlaces localRows hypre.gridHierarchy.2 =
      (lastLevels localRows hypre.gridHierarchy.2).flatMap fun x => List.range (x + 1) := by
  simp only [counterPlaces, lastLevels, List.flatMap_map]
  refine List.flatMap_congr fun i hi => ?_
  have hi := List.mem_range.mp hi
  rw [h.castInt_level hi, Int.toNat_add (h.level_nonneg i hi) Int.one_nonneg]
  rfl

/-- The local maximum, as the code forms it. -/
theorem localMax_eq (h : HierarchyQuery hypre localRows) :
    (List.range localRows).foldl (fun m i => max m (hypre.gridHierarchy.2 i)) 0 =
      (top (lastLevels localRows hypre.gridHierarchy.2) : ℤ) := by
  have key : ∀ n ≤ localRows,
      (List.range n).foldl (fun m i => max m (hypre.gridHierarchy.2 i)) 0 =
        (top (lastLevels n hypre.gridHierarchy.2) : ℤ) := by
    intro n
    induction n with
    | zero => intro _; rfl
    | succ n ih =>
      intro hn
      have h0 := h.level_nonneg n hn
      have hone : top [(hypre.gridHierarchy.2 n).toNat] = (hypre.gridHierarchy.2 n).toNat :=
        Nat.max_zero _
      rw [List.range_succ, List.foldl_append, List.foldl_cons, List.foldl_nil, ih (by omega),
        lastLevels, lastLevels, List.range_succ, List.map_append, top_append, List.map_cons,
        List.map_nil, hone]
      omega
  exact key localRows le_rfl

/-- The code converts what it reduces without loss. -/
theorem top_fits (h : HierarchyQuery hypre localRows) :
    top (lastLevels localRows hypre.gridHierarchy.2) < 2 ^ 31 - 1 := by
  have hle : top (lastLevels localRows hypre.gridHierarchy.2) ≤ 2 ^ 31 - 2 := by
    refine top_le_iff.mpr fun x hx => ?_
    obtain ⟨i, hi, rfl⟩ := List.mem_map.mp hx
    have := h.level_lt i (List.mem_range.mp hi)
    omega
  omega

/-- The contribution of a rank to the first reduction. -/
theorem contribution_eq (h : HierarchyQuery hypre localRows) :
    (castInt 32 hypre.gridHierarchy.1, castInt 32
      ((List.range localRows).foldl (fun m i => max m (hypre.gridHierarchy.2 i)) 0) + 1) =
      (hypre.gridHierarchy.1,
        (top (lastLevels localRows hypre.gridHierarchy.2) : ℤ) + 1) := by
  have htop := h.top_fits
  rw [h.code_fits.castInt (by decide), h.localMax_eq,
    IntFits.castInt (by decide) ⟨by omega, by omega⟩]

/-- The counters of a rank say how many of its rows reach each level. -/
theorem rowsOnLevels_getD (h : HierarchyQuery hypre localRows) {numLevels : ℤ} {k : ℕ}
    (hk : k < castSize numLevels) :
    (rowsOnLevels localRows hypre.gridHierarchy.2 numLevels).getD k 0 =
      (reaching (lastLevels localRows hypre.gridHierarchy.2) k : ℤ) := by
  rw [rowsOnLevels_eq, h.counterPlaces_eq, List.getD_eq_getElem?_getD, getElem?_increments,
    count_reached, List.getElem?_replicate, if_pos hk]
  simp

end HierarchyQuery

end

/-! ## All ranks -/

section
variable {lib : Fin P → Lib V} {localRows : Fin P → ℕ}

/-- The last levels of the rows of all ranks. -/
def allLevels (lib : Fin P → Lib V) (localRows : Fin P → ℕ) : List ℕ :=
  (List.finRange P).flatMap fun r => lastLevels (localRows r) (lib r).gridHierarchy.2

theorem length_allLevels :
    (allLevels lib localRows).length = ((List.finRange P).map localRows).sum := by
  simp [allLevels, lastLevels, List.length_flatMap]

variable (lib localRows) in
theorem top_allLevels_le {m : ℕ} : top (allLevels lib localRows) ≤ m ↔
    ∀ r, top (lastLevels (localRows r) (lib r).gridHierarchy.2) ≤ m := by
  simp only [top_le_iff, allLevels, List.mem_flatMap]
  exact ⟨fun h r x hx => h x ⟨r, List.mem_finRange r, hx⟩, fun h x ⟨r, _, hx⟩ => h r x hx⟩

/-- What the ranks contribute to the first reduction. -/
def firstContributions (lib : Fin P → Lib V) (localRows : Fin P → ℕ) (r : Fin P) : ℤ × ℤ :=
  ((lib r).gridHierarchy.1, (top (lastLevels (localRows r) (lib r).gridHierarchy.2) : ℤ) + 1)

/-- The first reduction finds an error exactly if a rank has one. -/
theorem reduced_code (h : ∀ r, HierarchyQuery (lib r) (localRows r)) (r : Fin P) :
    (MpiOp.maxPair (firstContributions lib localRows) r).1 = 0 ↔
      ∀ s, (lib s).gridHierarchy.1 = 0 := by
  have hle : (MpiOp.maxPair (firstContributions lib localRows) r).1 ≤ 0 ↔
      ∀ s, (lib s).gridHierarchy.1 ≤ 0 := by
    rw [MpiOp.maxPair_eq, MpiOp.foldr_max_le_iff]
    simp only [List.forall_mem_map, List.mem_finRange, forall_const, firstContributions]
    exact ⟨fun hall => hall.2, fun hall => ⟨hall r, hall⟩⟩
  have hge : 0 ≤ (MpiOp.maxPair (firstContributions lib localRows) r).1 := by
    rw [MpiOp.maxPair_eq]
    exact (h r).code_nonneg.trans (MpiOp.foldr_max_le_iff.mp le_rfl).1
  have hcode := fun s => (h s).code_nonneg
  constructor
  · intro hzero s
    exact le_antisymm (hle.mp hzero.le s) (hcode s)
  · intro hall
    exact le_antisymm (hle.mpr fun s => (hall s).le) hge

variable (lib localRows) in
/-- The first reduction finds the number of levels. -/
theorem reduced_levels (r : Fin P) : (MpiOp.maxPair (firstContributions lib localRows) r).2 =
    (top (allLevels lib localRows) : ℤ) + 1 := by
  refine eq_of_forall_ge_iff fun m => ?_
  rw [MpiOp.maxPair_eq, MpiOp.foldr_max_le_iff]
  simp only [List.forall_mem_map, List.mem_finRange, forall_const, firstContributions]
  constructor
  · rintro ⟨hr, hall⟩
    have := (top_allLevels_le lib localRows (m := (m - 1).toNat)).mpr
      fun s => by have := hall s; omega
    omega
  · intro hm
    have := (top_allLevels_le lib localRows).mp le_rfl
    exact ⟨by have := this r; omega, fun s => by have := this s; omega⟩

/-! ### The rounds -/

def firstRound (lib : Fin P → Lib V) (localRows : Fin P → ℕ) : Round (mpi P) :=
  ⟨MpiOp.allreduceMax, firstContributions lib localRows⟩

/-- What the ranks contribute to the second reduction. -/
def secondContributions (lib : Fin P → Lib V) (localRows : Fin P → ℕ) (r : Fin P) : List ℤ :=
  rowsOnLevels (localRows r) (lib r).gridHierarchy.2 (top (allLevels lib localRows) + 1)

def secondRound (lib : Fin P → Lib V) (localRows : Fin P → ℕ) : Round (mpi P) :=
  ⟨MpiOp.allreduceSum, secondContributions lib localRows⟩

theorem top_allLevels_fits (h : ∀ r, HierarchyQuery (lib r) (localRows r)) :
    top (allLevels lib localRows) < 2 ^ 31 - 1 := by
  have hle : top (allLevels lib localRows) ≤ 2 ^ 31 - 2 := (top_allLevels_le _ _).mpr fun s => by
    have := (h s).top_fits
    omega
  omega

/-- The second reduction gives every rank the profile of all levels. -/
theorem reduced_rows (h : ∀ r, HierarchyQuery (lib r) (localRows r))
    (hrows : ((List.finRange P).map localRows).sum < 2 ^ 63) (r : Fin P) :
    ((MpiOp.sumList (secondContributions lib localRows) r).map castSize : List ℕ) =
      profile (allLevels lib localRows) := by
  have htop := top_allLevels_fits h
  have hsize : castSize (top (allLevels lib localRows) + 1 : ℤ) =
      top (allLevels lib localRows) + 1 := castSize_of_lt (by omega) (by omega)
  have hlength : (secondContributions lib localRows r).length =
      top (allLevels lib localRows) + 1 := by
    rw [secondContributions, rowsOnLevels_eq, length_increments, List.length_replicate, hsize]
  rw [MpiOp.sumList, hlength, profile, List.map_map]
  refine List.map_congr_left fun k hk => ?_
  have hk : k < castSize (top (allLevels lib localRows) + 1 : ℤ) := by
    rw [hsize]
    exact List.mem_range.mp hk
  have hsum : ((List.finRange P).map fun s => (secondContributions lib localRows s).getD k 0).sum =
      (reaching (allLevels lib localRows) k : ℤ) := by
    rw [allLevels, reaching_flatMap, Nat.cast_list_sum, List.map_map]
    exact congrArg List.sum (List.map_congr_left fun s _ => (h s).rowsOnLevels_getD hk)
  have hle := reaching_le_length (allLevels lib localRows) k
  rw [length_allLevels] at hle
  rw [Function.comp_apply, hsum, castSize_of_lt (Int.natCast_nonneg _) (by omega),
    Int.toNat_natCast]

variable (A) in
theorem gridHierarchy_raises (h : ∀ r, HierarchyQuery (lib r) (localRows r))
    (herror : ∃ r, (lib r).gridHierarchy.1 ≠ 0) (r : Fin P) :
    ∃ e, Leads r (gridHierarchy (A := A) (lib r) .matrix (localRows r))
      [firstRound lib localRows] [] (.raise e) := by
  have hne : (MpiOp.combine .allreduceMax (firstContributions lib localRows) r).1 ≠ 0 :=
    mt (reduced_code h r).mp (not_forall.mpr herror)
  refine ⟨hierarchyError (lib r).describe
    (MpiOp.combine .allreduceMax (firstContributions lib localRows) r).1,
    leads_collective .allreduceMax (firstContributions lib localRows)
      (h r).contribution_eq.symm ?_⟩
  rw [if_pos hne]
  exact .refl

variable (A) in
theorem gridHierarchy_returns (h : ∀ r, HierarchyQuery (lib r) (localRows r))
    (hrows : ((List.finRange P).map localRows).sum < 2 ^ 63)
    (hok : ∀ r, (lib r).gridHierarchy.1 = 0) (r : Fin P) :
    Leads r (gridHierarchy (A := A) (lib r) .matrix (localRows r))
      [firstRound lib localRows, secondRound lib localRows] []
      (.ret (.ofLevels (allLevels lib localRows))) := by
  have htop := top_allLevels_fits h
  have hzero : ¬ (MpiOp.combine .allreduceMax (firstContributions lib localRows) r).1 ≠ 0 :=
    not_not.mpr ((reduced_code h r).mpr hok)
  refine leads_collective .allreduceMax (firstContributions lib localRows)
    (h r).contribution_eq.symm ?_
  have hlevels : (MpiOp.combine .allreduceMax (firstContributions lib localRows) r).2 = _ :=
    reduced_levels _ _ r
  rw [if_neg hzero]
  simp only [hlevels]
  refine leads_collective .allreduceSum (secondContributions lib localRows) rfl ?_
  have hret : (⟨castSize (top (allLevels lib localRows) + 1),
      (MpiOp.sumList (secondContributions lib localRows) r).map castSize⟩ : Hierarchy) =
      .ofLevels (allLevels lib localRows) := by
    rw [reduced_rows h hrows, castSize_of_lt (by omega) (by omega)]
    rfl
  exact hret ▸ .refl

/-! ### Every interleaving -/

/-- A hierarchy is the one of rows with the given last levels. -/
structure Hierarchy.Describes (h : Hierarchy) (levels : List ℕ) : Prop where
  numLevels : h.numLevels = 1 + top levels
  length : h.rowsPerLevel.length = h.numLevels
  rows : ∀ k < h.numLevels, h.rowsPerLevel[k]? = some (reaching levels k)
  finest : h.rowsPerLevel.head? = some levels.length
  decreasing : h.rowsPerLevel.Pairwise (· ≥ ·)
  coarsest : levels ≠ [] → ∃ n, h.rowsPerLevel.getLast? = some n ∧ 0 < n
  sum : h.rowsPerLevel.sum = (levels.map (· + 1)).sum

theorem Hierarchy.ofLevels_describes (levels : List ℕ) :
    (Hierarchy.ofLevels levels).Describes levels where
  numLevels := Nat.add_comm ..
  length := length_profile levels
  rows _ hk := getElem?_profile levels hk
  finest := profile_head levels
  decreasing := profile_antitone levels
  coarsest := profile_last levels
  sum := profile_sum levels

/-- Every counter that a rank increments is one of the levels of the hierarchy. -/
theorem counterPlaces_lt (h : ∀ r, HierarchyQuery (lib r) (localRows r)) (r : Fin P) :
    ∀ k ∈ counterPlaces (localRows r) (lib r).gridHierarchy.2,
      k < (Hierarchy.ofLevels (allLevels lib localRows)).numLevels := by
  intro k hk
  rw [(h r).counterPlaces_eq] at hk
  obtain ⟨x, hx, hk⟩ := List.mem_flatMap.mp hk
  have hall : x ∈ allLevels lib localRows :=
    List.mem_flatMap.mpr ⟨r, List.mem_finRange r, hx⟩
  exact (List.mem_range.mp hk).trans_le (Nat.succ_le_succ (le_top hall))

/-- In every interleaving of the ranks: if the query has failed on some rank, every rank throws
after the first reduction, and otherwise every rank reports the hierarchy of the rows of all
ranks. -/
structure HierarchyReported (lib : Fin P → Lib V) (localRows : Fin P → ℕ)
    (st : State (mpi P) A Error Hierarchy) : Prop where
  completes : ∃ st', Reach st st' ∧ ∀ r, st'.Done r
  failed : (∃ r, (lib r).gridHierarchy.1 ≠ 0) → ∀ r,
    (st r).entered.length ≤ 1 ∧ (st.Done r → st.Threw r ∧ (st r).entered.length = 1)
  reported : (∀ r, (lib r).gridHierarchy.1 = 0) → ∃ hierarchy : Hierarchy,
    hierarchy.Describes (allLevels lib localRows) ∧
    (∀ r, st.Done r → (st r).phase = .run (.ret hierarchy)) ∧
    ∀ r, ∀ k ∈ counterPlaces (localRows r) (lib r).gridHierarchy.2, k < hierarchy.numLevels

theorem gridHierarchy_reported (h : ∀ r, HierarchyQuery (lib r) (localRows r))
    (hrows : ((List.finRange P).map localRows).sum < 2 ^ 63) {st : State (mpi P) A Error Hierarchy}
    (hst : Reach (start fun r => gridHierarchy (lib r) .matrix (localRows r)) st) :
    HierarchyReported lib localRows st := by
  by_cases herror : ∃ r, (lib r).gridHierarchy.1 ≠ 0
  · choose es hes using gridHierarchy_raises A h herror
    have htogether : Together _ _ (fun _ => []) fun r => .raise (es r) := hes
    refine ⟨htogether.completes (fun _ => .raise) hst, fun _ r => ⟨?_, ?_⟩, fun hok => ?_⟩
    · exact ((htogether.onPath hst .raise).entered_le (r := r)).length_le
    · rintro ⟨p, hp, hfinal⟩
      obtain ⟨rfl, hentered, -⟩ := htogether.outcome hst .raise hp hfinal
      exact ⟨⟨_, hp⟩, by rw [hentered]; rfl⟩
    · obtain ⟨r, hr⟩ := herror
      exact absurd (hok r) hr
  · have hok : ∀ r, (lib r).gridHierarchy.1 = 0 := fun r => by
      by_contra hr
      exact herror ⟨r, hr⟩
    have htogether : Together _ _ (fun _ => []) fun _ => .ret _ :=
      gridHierarchy_returns A h hrows hok
    refine ⟨htogether.completes (fun _ => .ret) hst, fun h => absurd h herror, fun _ =>
      ⟨_, Hierarchy.ofLevels_describes _, ?_, counterPlaces_lt h⟩⟩
    rintro r ⟨p, hp, hfinal⟩
    obtain ⟨rfl, -⟩ := htogether.outcome hst .ret hp hfinal
    exact hp

end

/-! ## A serial matrix -/

section
variable {hypre : Lib V} {localRows : ℕ}

/-- On `MPI_COMM_SELF` the rank is the only one. -/
theorem allLevels_one : allLevels (fun _ : Fin 1 => hypre) (fun _ => localRows) =
    lastLevels localRows hypre.gridHierarchy.2 := by
  simp [allLevels, List.finRange_succ]

theorem gridHierarchy_self (h : HierarchyQuery hypre localRows) (hrows : localRows < 2 ^ 63) :
    (hypre.gridHierarchy.1 ≠ 0 →
      ∃ e, gridHierarchy (P := P) (A := A) hypre .self localRows = .raise e) ∧
    (hypre.gridHierarchy.1 = 0 → gridHierarchy (P := P) (A := A) hypre .self localRows =
      .ret (.ofLevels (lastLevels localRows hypre.gridHierarchy.2))) := by
  have hone : ∀ r : Fin 1, HierarchyQuery ((fun _ => hypre) r) ((fun _ => localRows) r) :=
    fun _ => h
  have hcode := reduced_code hone 0
  have hlevels := reduced_levels (fun _ : Fin 1 => hypre) (fun _ => localRows) 0
  have hreduced : collective (P := P) (A := A) (ε := Error) .self .allreduceMax
      (castInt 32 hypre.gridHierarchy.1, castInt 32 ((List.range localRows).foldl
        (fun m i => max m (hypre.gridHierarchy.2 i)) 0) + 1) =
      .ret (MpiOp.maxPair (firstContributions (fun _ : Fin 1 => hypre) fun _ => localRows) 0) := by
    rw [h.contribution_eq]
    rfl
  constructor
  · intro herror
    refine ⟨hierarchyError hypre.describe
      (MpiOp.maxPair (firstContributions (fun _ : Fin 1 => hypre) fun _ => localRows) 0).1, ?_⟩
    have hne : (MpiOp.maxPair (firstContributions (fun _ : Fin 1 => hypre)
        fun _ => localRows) 0).1 ≠ 0 := mt hcode.mp fun hall => herror (hall 0)
    simp only [gridHierarchy, hreduced, Program.ret_bind, if_pos hne]
  · intro hok
    have hzero := hcode.mpr fun _ => hok
    have hrounds := reduced_rows hone (by simpa [List.finRange_succ] using hrows) 0
    have htop := top_allLevels_fits hone
    have hsum : collective (P := P) (A := A) (ε := Error) .self .allreduceSum
        (rowsOnLevels localRows hypre.gridHierarchy.2
          (top (allLevels (fun _ : Fin 1 => hypre) fun _ => localRows) + 1)) =
        .ret (MpiOp.sumList (secondContributions (fun _ : Fin 1 => hypre) fun _ => localRows) 0) :=
      rfl
    simp only [gridHierarchy, hreduced, Program.ret_bind, hzero, ne_eq, not_true_eq_false,
      if_false, hlevels, hsum, hrounds, Program.pure_eq]
    rw [castSize_of_lt (by omega) (by omega), ← allLevels_one]
    rfl

end

/-! ## Both kinds of matrices -/

/-- The hierarchy of a distributed matrix is reported of the rows of all ranks, in every
interleaving, and that of a serial matrix of the rank's own rows. -/
theorem hierarchy_true (A : Type) (lib : Fin P → Lib V) (localRows : Fin P → ℕ)
    (h : ∀ r, HierarchyQuery (lib r) (localRows r))
    (hrows : ((List.finRange P).map localRows).sum < 2 ^ 63) :
    (∀ st : State (mpi P) A Error Hierarchy,
      Reach (start fun r => gridHierarchy (lib r) .matrix (localRows r)) st →
      HierarchyReported lib localRows st) ∧
    ∀ r,
      ((lib r).gridHierarchy.1 ≠ 0 →
        ∃ e, gridHierarchy (P := P) (A := A) (lib r) .self (localRows r) = .raise e) ∧
      ((lib r).gridHierarchy.1 = 0 → ∃ hierarchy : Hierarchy,
        hierarchy.Describes (lastLevels (localRows r) (lib r).gridHierarchy.2) ∧
        gridHierarchy (P := P) (A := A) (lib r) .self (localRows r) = .ret hierarchy ∧
        ∀ k ∈ counterPlaces (localRows r) (lib r).gridHierarchy.2, k < hierarchy.numLevels) := by
  refine ⟨fun st hst => gridHierarchy_reported h hrows hst, fun r => ?_⟩
  have hr : localRows r < 2 ^ 63 :=
    (List.le_sum_of_mem (List.mem_map_of_mem (List.mem_finRange r))).trans_lt hrows
  obtain ⟨hfailed, hreturned⟩ := gridHierarchy_self (P := P) (A := A) (h r) hr
  have hone : ∀ s : Fin 1, HierarchyQuery ((fun _ => lib r) s) ((fun _ => localRows r) s) :=
    fun _ => h r
  have hplaces := counterPlaces_lt hone 0
  rw [allLevels_one] at hplaces
  exact ⟨hfailed, fun hok => ⟨_, Hierarchy.ofLevels_describes _, hreturned hok, hplaces⟩⟩

/-- Two rows on rank 0, one of which reaches level 2, and none on rank 1. -/
theorem hierarchy_true_two : ∃ (lib : Fin 2 → Lib ℤ) (localRows : Fin 2 → ℕ),
    localRows 1 = 0 ∧ allLevels lib localRows = [0, 2] ∧
    (∀ st : State (mpi 2) Unit Error Hierarchy,
      Reach (start fun r => gridHierarchy (lib r) .matrix (localRows r)) st →
      HierarchyReported lib localRows st) ∧
    ∃ hierarchy : Hierarchy, hierarchy.Describes [0, 2] ∧
      gridHierarchy (P := 2) (A := Unit) (lib 0) .self (localRows 0) = .ret hierarchy := by
  let lib : Fin 2 → Lib ℤ := fun _ =>
    { Lib.documented ℤ with gridHierarchy := (0, fun i => 2 * i) }
  let localRows : Fin 2 → ℕ := fun r => if r = 0 then 2 else 0
  have hle : ∀ r, localRows r ≤ 2 := by decide
  have h : ∀ r, HierarchyQuery (lib r) (localRows r) := by
    intro r
    refine ⟨le_rfl, by decide, fun i _ => ?_, fun i hi => ?_⟩
    · show (0 : ℤ) ≤ 2 * i
      omega
    · have hi : i < 2 := hi.trans_le (hle r)
      show (2 : ℤ) * i < 2 ^ 31 - 1
      omega
  obtain ⟨hdist, hone⟩ := hierarchy_true Unit lib localRows h (by decide)
  obtain ⟨hierarchy, hdescribes, hreturned, -⟩ := (hone 0).2 rfl
  exact ⟨lib, localRows, rfl, by decide, hdist, hierarchy, hdescribes, hreturned⟩

end GinkgoTpl.Hypre
