import GinkgoTpl.Ginkgo.DistVector
import GinkgoTpl.Petsc.GenerateTimes
import GinkgoTpl.Sparse.Assembly

/-!
# The operator that PETSc is given

What the ranks hand to PETSc during a generation is read off their logs: the triplets, which PETSc
assembles into one matrix, and the numbers of rows, which decide the rows that each rank owns.
`generate_operator` says that this matrix is the operator of the Ginkgo matrix: rank by rank, its
products with any vector are those that Ginkgo computes from its two blocks.
-/

namespace GinkgoTpl.Petsc

open Sparse Ginkgo Spmd

variable {P : ℕ} {V : Type} {needs : PetscOp → Fin P → Fin P → Prop}

/-! ## What is handed over -/

namespace KspAction

/-- The rows and columns that an action hands over. -/
def indices : KspAction V → List (ℤ × ℤ)
  | .petsc .matSetPreallocationCoo (.indices rows cols) => rows.zip cols
  | _ => []

/-- The values that an action hands over. -/
def values : KspAction V → List V
  | .petsc .matSetValuesCoo (.values values) => values
  | _ => []

/-- The numbers of local rows that an action hands over. -/
def sizes : KspAction V → List ℤ
  | .petsc .matSetSizes (.sizes numLocalRows) => [numLocalRows]
  | _ => []

end KspAction

/-- The triplets that a rank has handed over. -/
def handedTriplets (log : List (KspAction V)) : List (ℤ × ℤ × V) :=
  ((log.flatMap KspAction.indices).zip (log.flatMap KspAction.values)).map fun t =>
    (t.1.1, t.1.2, t.2)

/-- The numbers of local rows that a rank has handed over. -/
def handedSizes (log : List (KspAction V)) : List ℤ := log.flatMap KspAction.sizes

section
variable [Inhabited V] {bits : ℕ} {cudaBuild cuda device : Bool} {process : PetscProcess}
  {answers : Fin P → GenerateAnswers} {factory : Fin P → KspFactory} {id : Fin P → ℕ}
  {M : DistMatrix P V}

/-- In a whole generation, a rank hands over its own triplets and the size of its part. -/
theorem handed_of_generation (r : Fin P) :
    handedTriplets (setupActions device answers factory id M r ++ [.readClock .setupEnd]) =
      rankTriplets (M.rank r) (M.rowPart.start r) ∧
    handedSizes (setupActions device answers factory id M r ++ [.readClock .setupEnd]) =
      [(M.rowPart.partSize r : ℤ)] := by
  have hrows : (rankCoo M r).numLocalRows = (M.rowPart.partSize r : ℤ) := by
    rw [← (M.read r).diag_rows]
    rfl
  have hcoo : ((rankCoo M r).rows.zip (rankCoo M r).cols).zip (rankCoo M r).values =
      (rankTriplets (M.rank r) (M.rowPart.start r)).map fun t => ((t.1, t.2.1), t.2.2) := by
    simp only [rankCoo, CooData.append, List.nil_append, List.zip_map']
  unfold handedTriplets handedSizes setupActions setupLog importActions importLog matLog kspLog
    waitLog
  constructor
  · split <;> split <;>
      simp [KspAction.indices, KspAction.values, hcoo, Function.comp_def]
  · split <;> split <;> simp [KspAction.sizes, hrows]

/-! ## The assembled operator -/

/-- The triplets of all ranks are the stored entries. -/
theorem allTriplets_perm (hord : M.rowPart.hasOrderedParts) :
    ((List.finRange P).flatMap fun r => rankTriplets (M.rank r) (M.rowPart.start r)).Perm
      (M.entries.map Entry.triplet) := by
  refine (List.Perm.flatMap_left _ fun r _ => rankTriplets_perm hord r).trans ?_
  rw [← List.map_flatMap]
  refine (rowsOf_perm M.entries M.rowPart fun e he => ?_).map _
  rw [M.rowPart_size]
  exact (M.entries_lt e he).1

theorem assemble_entries_mulVec [Semiring V] (M : DistMatrix P V) (x : ℤ → V) (g : Fin M.n) :
    (assemble M.n (M.entries.map Entry.triplet)).mulVec (fun j => x j) g =
      rowOfProduct M.entries x g := by
  rw [assemble_mulVec]
  · rw [List.filter_map, List.map_map, rowOfProduct]
    congr 2
    refine List.filter_congr fun e _ => ?_
    simp [Entry.triplet]
  · intro t ht
    obtain ⟨e, he, rfl⟩ := List.mem_map.mp ht
    exact ⟨Int.natCast_nonneg _, Int.ofNat_lt.mpr (M.entries_lt e he).2⟩

/-- The matrix that PETSc assembles from what all ranks have handed over. -/
def assembledMatrix [AddMonoid V] (n : ℕ)
    (st : State (mpiPetsc P needs) (KspAction V) Error GenerationState) :
    Matrix (Fin n) (Fin n) V :=
  assemble n ((List.finRange P).flatMap fun r => handedTriplets (st r).log)

/-- When all ranks have ended a generation in which all calls succeed, each owns the rows of its
part, and the matrix that PETSc has assembled has the products that Ginkgo computes from its
blocks. -/
theorem generate_operator [Semiring V] (h : Succeeds cuda answers factory)
    (himport : Importable bits process M) (hn : M.n < 2 ^ 63)
    {st : State (mpiPetsc P needs) (KspAction V) Error GenerationState}
    (hst : Reach (start fun r => generate bits cudaBuild (answers r) process (factory r) (id r)
      (.distributed (M.rank r))) st) (hdone : ∀ r, st.Done r) :
    (∀ r, handedSizes (st r).log = [(M.rowPart.partSize r : ℤ)]) ∧
    assembledMatrix M.n st = assemble M.n (M.entries.map Entry.triplet) ∧
    ∀ (x : ℤ → V) (r : Fin P) (i : ℕ) (hi : M.rowPart.start r + i < M.n), i < M.rowPart.partSize r →
      (assembledMatrix M.n st).mulVec (fun j => x j) ⟨M.rowPart.start r + i, hi⟩ =
        rankProduct (M.rank r) x i := by
  have hlog : ∀ r, (st r).log = setupActions (cudaBuild && cuda) answers factory id M r ++
      [.readClock .setupEnd] := fun r => by
    obtain ⟨p, hp, hf⟩ := hdone r
    exact ((together_generate needs cudaBuild id h himport hn).outcome hst .ret hp hf).2.2
  have hassembled : assembledMatrix M.n st = assemble M.n (M.entries.map Entry.triplet) := by
    simp only [assembledMatrix, hlog, (handed_of_generation _).1]
    exact assemble_perm (allTriplets_perm himport.ordered)
  refine ⟨fun r => by rw [hlog, (handed_of_generation r).2], hassembled, fun x r i hi hpart => ?_⟩
  rw [hassembled, assemble_entries_mulVec, rankProduct_eq himport.ordered r x hpart]

end

/-- The two ranks of `twoRows` give PETSc a matrix with two entries in its first row. -/
theorem generate_operator_two :
    ∃ st : State (mpiPetsc 2 fun _ _ _ => True) (KspAction ℤ) Error GenerationState,
      (∀ r, st.Done r) ∧ assembledMatrix 2 st = assemble 2 [(0, 0, 5), (0, 1, 7), (1, 1, 3)] ∧
      assembledMatrix 2 st 0 1 = 7 := by
  have htogether := together_generate (fun _ _ _ => True) false (fun _ => 0) succeeds_succeeding
    importable_twoRows (by decide)
  have hreach := htogether.reach_end (fun _ => []) (fun _ => []) fun _ => rfl
  obtain ⟨-, hassembled, -⟩ := generate_operator succeeds_succeeding importable_twoRows (by decide)
    hreach fun r => ⟨_, rfl, .ret⟩
  refine ⟨_, fun r => ⟨_, rfl, .ret⟩, hassembled, ?_⟩
  rw [show assembledMatrix 2 _ = _ from hassembled]
  decide

end GinkgoTpl.Petsc
