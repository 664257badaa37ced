import Mathlib.Algebra.BigOperators.Group.List.Basic
import Mathlib.Algebra.Order.Ring.Int
import Mathlib.Data.List.FinRange
import Mathlib.Tactic.Ring
import GinkgoTpl.Spmd.Contract

/-!
# The collective calls of the wrappers

The MPI operations that the wrappers call on a communicator of `P` ranks, and the library calls
that are collective. All ranks wait for all others, except in `MPI_Scan`, whose result on a rank
depends on the ranks up to that one only.
-/

namespace GinkgoTpl

open Spmd

/-- Collective calls of hypre and PETSc. -/
inductive LibraryCall where
  | hypreParCsrMatrixSetNumNonzeros
  | hypreMatvecCommPkgCreate
  | hypreIJVectorAssemble
  | hypreParCsrPcgSetup
  | hypreParCsrPcgSolve
  | kspSolve
  deriving DecidableEq

inductive MpiOp where
  | scan
  | allreduceBor
  | allreduceMax
  | allreduceSum
  | barrier
  | library (c : LibraryCall)
  deriving DecidableEq

namespace MpiOp

/-- What a rank contributes; the answers have the same type. -/
abbrev Data : MpiOp → Type
  | scan => ℤ
  | allreduceBor => ℕ
  | allreduceMax => ℤ × ℤ
  | allreduceSum => List ℤ
  | barrier | library _ => Unit

/-- Whether the answer of rank `r` depends on rank `s`. -/
def Needs {P : ℕ} : MpiOp → Fin P → Fin P → Prop
  | scan, r, s => s ≤ r
  | _, _, _ => True

/-- `MPI_Scan` with `MPI_SUM`: the sum over the ranks up to `r`. -/
def scanSum {P : ℕ} (vs : Fin P → ℤ) (r : Fin P) : ℤ :=
  (((List.finRange P).filter (· ≤ r)).map vs).sum

/-- `MPI_Allreduce` with `MPI_BOR`. -/
def bor {P : ℕ} (vs : Fin P → ℕ) : ℕ := ((List.finRange P).map vs).foldr (· ||| ·) 0

/-- `MPI_Allreduce` of two integers with `MPI_MAX`, as rank `r` sees it. -/
def maxPair {P : ℕ} (vs : Fin P → ℤ × ℤ) (r : Fin P) : ℤ × ℤ :=
  ((List.finRange P).map vs).foldr (fun x y => (max x.1 y.1, max x.2 y.2)) (vs r)

/-- `MPI_Allreduce` with `MPI_SUM` of as many integers as rank `r` gives. -/
def sumList {P : ℕ} (vs : Fin P → List ℤ) (r : Fin P) : List ℤ :=
  (List.range (vs r).length).map fun l => ((List.finRange P).map fun s => (vs s).getD l 0).sum

def combine {P : ℕ} : (op : MpiOp) → (Fin P → op.Data) → Fin P → op.Data
  | scan, vs, r => scanSum vs r
  | allreduceBor, vs, _ => bor vs
  | allreduceMax, vs, r => maxPair vs r
  | allreduceSum, vs, r => sumList vs r
  | barrier, _, _ | library _, _, _ => ()

theorem scanSum_congr {P : ℕ} {vs vs' : Fin P → ℤ} {r : Fin P} (h : ∀ s ≤ r, vs s = vs' s) :
    scanSum vs r = scanSum vs' r := by
  unfold scanSum
  congr 1
  refine List.map_congr_left fun s hs => h s ?_
  simpa using (List.mem_filter.mp hs).2

theorem foldr_max_le_iff {l : List ℤ} {z m : ℤ} : l.foldr max z ≤ m ↔ z ≤ m ∧ ∀ x ∈ l, x ≤ m := by
  induction l with
  | nil => simp
  | cons x l ih =>
    simp only [List.foldr_cons, max_le_iff, ih, List.forall_mem_cons]
    exact ⟨fun ⟨hx, hz, hl⟩ => ⟨hz, hx, hl⟩, fun ⟨hz, hx, hl⟩ => ⟨hx, hz, hl⟩⟩

theorem foldr_max_mem {l : List ℤ} {z : ℤ} : l.foldr max z = z ∨ l.foldr max z ∈ l := by
  induction l with
  | nil => exact .inl rfl
  | cons x l ih =>
    rw [List.foldr_cons]
    rcases max_choice x (l.foldr max z) with hmax | hmax
    · rw [hmax]
      exact .inr List.mem_cons_self
    · rw [hmax]
      exact ih.imp_right (List.mem_cons_of_mem x)

/-- The maximum over all ranks from the value of any of them. -/
theorem foldr_max_congr {P : ℕ} (f : Fin P → ℤ) (r s : Fin P) :
    ((List.finRange P).map f).foldr max (f r) = ((List.finRange P).map f).foldr max (f s) := by
  have hle : ∀ r s, ((List.finRange P).map f).foldr max (f r) ≤
      ((List.finRange P).map f).foldr max (f s) := by
    intro r s
    have hall := (foldr_max_le_iff (l := (List.finRange P).map f) (z := f s)).mp le_rfl
    exact foldr_max_le_iff.mpr
      ⟨hall.2 _ (List.mem_map_of_mem (List.mem_finRange r)), hall.2⟩
  exact le_antisymm (hle r s) (hle s r)

theorem foldr_or_and_ne_zero {l : List ℕ} {m : ℕ} :
    l.foldr (· ||| ·) 0 &&& m ≠ 0 ↔ ∃ x ∈ l, x &&& m ≠ 0 := by
  induction l with
  | nil => simp
  | cons x l ih => simp [Nat.and_or_distrib_right, imp_iff_not_or, ← ih]

/-- A flag is set in the answer if some rank has set it. -/
theorem bor_and_ne_zero {P : ℕ} {vs : Fin P → ℕ} {m : ℕ} :
    bor vs &&& m ≠ 0 ↔ ∃ r, vs r &&& m ≠ 0 := by
  simp [bor, foldr_or_and_ne_zero]

theorem maxPair_eq {P : ℕ} (vs : Fin P → ℤ × ℤ) (r : Fin P) : maxPair vs r =
    (((List.finRange P).map fun s => (vs s).1).foldr max (vs r).1,
      ((List.finRange P).map fun s => (vs s).2).foldr max (vs r).2) := by
  unfold maxPair
  induction List.finRange P with
  | nil => rfl
  | cons s l ih => simp only [List.map_cons, List.foldr_cons, ih]

/-- All ranks see the same maxima. -/
theorem maxPair_congr {P : ℕ} (vs : Fin P → ℤ × ℤ) (r s : Fin P) :
    maxPair vs r = maxPair vs s := by
  rw [maxPair_eq, maxPair_eq, foldr_max_congr (fun s => (vs s).1) r s,
    foldr_max_congr (fun s => (vs s).2) r s]

/-- Some rank has contributed the maximum. -/
theorem exists_maxPair_fst {P : ℕ} (vs : Fin P → ℤ × ℤ) (r : Fin P) :
    ∃ s, (vs s).1 = (maxPair vs r).1 := by
  rw [maxPair_eq]
  rcases foldr_max_mem (l := (List.finRange P).map fun s => (vs s).1) (z := (vs r).1) with h | h
  · exact ⟨r, h.symm⟩
  · obtain ⟨s, -, hs⟩ := List.mem_map.mp h
    exact ⟨s, hs⟩

/-- What the ranks before `r` contribute to a scan. -/
def sumBefore {P : ℕ} (vs : Fin P → ℤ) (r : Fin P) : ℤ :=
  (((List.finRange P).filter (· < r)).map vs).sum

theorem scanSum_eq {P : ℕ} (vs : Fin P → ℤ) (r : Fin P) : scanSum vs r = sumBefore vs r + vs r := by
  have hsplit : ∀ l : List (Fin P), ((l.filter (· ≤ r)).map vs).sum =
      ((l.filter (· < r)).map vs).sum + l.count r * vs r := by
    intro l
    induction l with
    | nil => simp
    | cons s l ih =>
      rcases lt_trichotomy s r with hlt | rfl | hgt
      · simp [hlt, hlt.le, hlt.ne, ih]; ring
      · simp [ih]; ring
      · simp [hgt, hgt.le.not_gt, hgt.ne', ih]
  have hcount : (List.finRange P).count r = 1 :=
    List.count_eq_one_of_mem (List.nodup_finRange P) (List.mem_finRange r)
  rw [scanSum, hsplit, hcount, sumBefore]
  simp

/-- The ranks up to `r` are the first `r + 1`. -/
theorem scanSum_eq_sum_range {P : ℕ} (f : ℕ → ℤ) (r : Fin P) :
    scanSum (fun s => f s) r = ((List.range (r + 1)).map f).sum := by
  have hranks : ((List.finRange P).filter (· ≤ r)).map Fin.val = List.range (r + 1) := by
    have hle : (fun s : Fin P => decide (s ≤ r)) = (fun n => decide (n ≤ (r : ℕ))) ∘ Fin.val := rfl
    obtain ⟨m, hm⟩ : ∃ m, P = (r + 1) + m := ⟨P - (r + 1), by omega⟩
    have hP : List.range P = List.range (r + 1) ++ (List.range m).map ((r : ℕ) + 1 + ·) := by
      rw [← List.range_add, ← hm]
    rw [hle, ← List.filter_map, List.map_coe_finRange_eq_range, hP, List.filter_append]
    have h1 : (List.range (r + 1)).filter (fun n => decide (n ≤ (r : ℕ))) = List.range (r + 1) :=
      List.filter_eq_self.mpr fun n hn => by simpa [Nat.lt_succ_iff] using hn
    have h2 : ((List.range m).map ((r : ℕ) + 1 + ·)).filter (fun n => decide (n ≤ (r : ℕ))) = [] :=
      List.filter_eq_nil_iff.mpr fun n hn => by
        obtain ⟨k, -, rfl⟩ := List.mem_map.mp hn
        simp; omega
    rw [h1, h2, List.append_nil]
  rw [← hranks, List.map_map]
  rfl

end MpiOp

/-- The collective calls on a communicator of `P` ranks. -/
abbrev mpi (P : ℕ) : Collectives (Fin P) where
  Op := MpiOp
  In := MpiOp.Data
  Out := MpiOp.Data
  Needs := MpiOp.Needs
  combine := MpiOp.combine
  combine_congr {op r vs vs'} h := by
    cases op with
    | scan => exact MpiOp.scanSum_congr h
    | _ => rw [show vs = vs' from funext fun s => h s trivial]

/-- The calling rank's part of `MPI_Scan`. -/
def mpiScan {P : ℕ} {A ε : Type} (v : ℤ) : Program (mpi P) A ε ℤ :=
  Program.enter (C := mpi P) MpiOp.scan v

@[simp] theorem mpiScan_bind {P : ℕ} {A ε β : Type} (v : ℤ) (f : ℤ → Program (mpi P) A ε β) :
    (mpiScan v >>= f) = .call MpiOp.scan v f := rfl

/-- A rank that takes part in a scan goes on with the sum over the ranks up to it. -/
theorem leads_mpiScan {P : ℕ} {A ε β : Type} {r : Fin P} {v : ℤ} {f : ℤ → Program (mpi P) A ε β}
    {Rs : List (Round (mpi P))} {as : List A} {q : Program (mpi P) A ε β} (vs : Fin P → ℤ)
    (hv : vs r = v) (h : Leads r (f (MpiOp.scanSum vs r)) Rs as q) :
    Leads r (mpiScan v >>= f) (⟨MpiOp.scan, vs⟩ :: Rs) as q := by
  subst hv
  exact Leads.call (C := mpi P) (R := ⟨MpiOp.scan, vs⟩) (k := f) h

/-- The communicator an object lives on. -/
inductive Comm where
  | null
  | self
  /-- The communicator of a distributed matrix. -/
  | matrix
  deriving DecidableEq

/-- A collective call on a communicator: on `MPI_COMM_SELF` the rank is alone. -/
def collective {P : ℕ} {A ε : Type} (comm : Comm) (op : MpiOp) (v : op.Data) :
    Program (mpi P) A ε op.Data :=
  match comm with
  | .matrix => Program.enter (C := mpi P) op v
  | _ => .ret (MpiOp.combine op (fun _ : Fin 1 => v) 0)

theorem leads_collective {P : ℕ} {A ε β : Type} {r : Fin P} (op : MpiOp) {v : op.Data}
    {f : op.Data → Program (mpi P) A ε β} {Rs : List (Round (mpi P))} {as : List A}
    {q : Program (mpi P) A ε β} (vs : Fin P → op.Data) (hv : vs r = v)
    (h : Leads r (f (MpiOp.combine op vs r)) Rs as q) :
    Leads r (collective .matrix op v >>= f) (⟨op, vs⟩ :: Rs) as q := by
  subst hv
  exact Leads.call (C := mpi P) (R := ⟨op, vs⟩) (k := f) h

/-- The round of a collective library call. -/
def libraryRound {P : ℕ} (c : LibraryCall) : Round (mpi P) := ⟨MpiOp.library c, fun _ => ()⟩

/-- A program that enters a collective library call and then goes on locally. -/
theorem endsAfter_library {P : ℕ} {A ε β : Type} {r : Fin P} (c : LibraryCall)
    {f : Unit → Program (mpi P) A ε β} (hf : (f ()).Local) :
    EndsAfter r (collective .matrix (.library c) () >>= f) [libraryRound c] := by
  obtain ⟨as, q, hleads, hq⟩ := hf.endsAfter (r := r)
  exact ⟨as, q, leads_collective (.library c) (fun _ => ()) rfl hleads, hq⟩

/-- On every communicator, a collective call of a rank is answered. -/
theorem outcome_collective {P : ℕ} {A ε : Type} (comm : Comm) (op : MpiOp) (v : op.Data)
    (answer : (op : MpiOp) → op.Data → op.Data) :
    (collective comm op v : Program (mpi P) A ε op.Data).outcome answer =
      .ok (if comm = .matrix then answer op v else MpiOp.combine op (fun _ : Fin 1 => v) 0) := by
  cases comm <;> rfl

@[simp] theorem trace_collective {P : ℕ} {A ε : Type} (comm : Comm) (op : MpiOp) (v : op.Data)
    (answer : (op : MpiOp) → op.Data → op.Data) :
    (collective comm op v : Program (mpi P) A ε op.Data).trace answer = [] := by
  cases comm <;> rfl

/-- A collective call changes nothing on the rank that enters it. -/
theorem wp_collective {P : ℕ} {A ε σ : Type} {E : Effects A σ} {s : σ} {comm : Comm} {op : MpiOp}
    {v : op.Data} {Q : Except ε op.Data → σ → Prop} (hQ : ∀ o, Q (.ok o) s) :
    (collective comm op v : Program (mpi P) A ε op.Data).Wp E s Q := by
  cases comm with
  | null | self => exact hQ _
  | matrix => exact hQ

end GinkgoTpl
