import GinkgoTpl.Ginkgo.Array
import GinkgoTpl.Hypre.Ledger
import GinkgoTpl.Hypre.Shutdown
import GinkgoTpl.Transition.Run

/-!
# Moving imported matrices

Objects of `par_csr` are built, moved and destroyed in any order, while system matrices are
provided and dropped. A move swaps all members, and the arrays among them as Ginkgo moves arrays,
so that the two objects keep one coherent set each unless an array with elements meets one on
another executor: `run_coherent_iff`, `moved_across_executors`.
-/

namespace GinkgoTpl.Hypre

open Sparse Memory Ginkgo Spmd Transition

variable {P : ℕ} {V : Type}

/-! ## Objects -/

/-- A `par_csr` with its own arrays. -/
structure ParCsrObject where
  matrix : Option ParCsrMatrix
  comm : Comm
  distributed : Bool
  numLocalRows : ℤ
  rowStart : ℤ
  globalRows : ℤ
  memoryLocation : MemoryLocation
  diagRowPtrs : GkoArray
  diagColIdxs : GkoArray
  diagValues : GkoArray
  offdRowPtrs : GkoArray
  offdColIdxs : GkoArray
  systemMatrix : Option ℕ

namespace ParCsrObject

/-- The default constructor. -/
def new : ParCsrObject :=
  ⟨none, .null, false, 0, 0, 0, .host, .unset, .unset, .unset, .unset, .unset, none⟩

/-- An array of an importer, which is default constructed where nothing has been stored in it. -/
def arrayOn (exec : ℕ) (heap : Heap (Buffer V)) (storage : Option ℕ) : GkoArray :=
  storage.elim .unset fun a => .on exec (some ⟨a, (heap.read a).elim 0 Buffer.size⟩)

/-- What an importer returns, with its arrays on the executor of the system matrix. -/
def ofParCsr (exec : ℕ) (heap : Heap (Buffer V)) (result : ParCsr) : ParCsrObject :=
  let array := arrayOn exec heap
  ⟨result.matrix, result.comm, result.distributed, result.numLocalRows, result.rowStart,
    result.globalRows, result.memoryLocation, array result.diagRowPtrs, array result.diagColIdxs,
    array result.diagValues, array result.offdRowPtrs, array result.offdColIdxs,
    result.systemMatrix⟩

/-- The object with the buffers of its arrays. -/
def toParCsr (x : ParCsrObject) : ParCsr :=
  ⟨x.matrix, x.comm, x.distributed, x.numLocalRows, x.rowStart, x.globalRows, x.memoryLocation,
    x.diagRowPtrs.buffer, x.diagColIdxs.buffer, x.diagValues.buffer, x.offdRowPtrs.buffer,
    x.offdColIdxs.buffer, x.systemMatrix⟩

/-- The swaps of the move assignment, member by member; only those of the arrays may do more than
exchange two values. -/
def swap (x y : ParCsrObject) (h : Heap (Buffer V)) :
    ParCsrObject × ParCsrObject × Heap (Buffer V) :=
  let (diagRowPtrs, diagRowPtrs', h) := x.diagRowPtrs.swap y.diagRowPtrs h
  let (diagColIdxs, diagColIdxs', h) := x.diagColIdxs.swap y.diagColIdxs h
  let (diagValues, diagValues', h) := x.diagValues.swap y.diagValues h
  let (offdRowPtrs, offdRowPtrs', h) := x.offdRowPtrs.swap y.offdRowPtrs h
  let (offdColIdxs, offdColIdxs', h) := x.offdColIdxs.swap y.offdColIdxs h
  ({ y with diagRowPtrs, diagColIdxs, diagValues, offdRowPtrs, offdColIdxs },
    { x with
      diagRowPtrs := diagRowPtrs'
      diagColIdxs := diagColIdxs'
      diagValues := diagValues'
      offdRowPtrs := offdRowPtrs'
      offdColIdxs := offdColIdxs' }, h)

/-- Each array of one object is compatible with the same array of the other one. -/
structure Compatible (x y : ParCsrObject) : Prop where
  diagRowPtrs : x.diagRowPtrs.Compatible y.diagRowPtrs
  diagColIdxs : x.diagColIdxs.Compatible y.diagColIdxs
  diagValues : x.diagValues.Compatible y.diagValues
  offdRowPtrs : x.offdRowPtrs.Compatible y.offdRowPtrs
  offdColIdxs : x.offdColIdxs.Compatible y.offdColIdxs

theorem buffer_arrayOn (exec : ℕ) (heap : Heap (Buffer V)) (storage : Option ℕ) :
    (arrayOn exec heap storage).buffer = storage := by
  cases storage <;> rfl

theorem toParCsr_ofParCsr (exec : ℕ) (heap : Heap (Buffer V)) (result : ParCsr) :
    (ofParCsr exec heap result).toParCsr = result := by
  simp only [toParCsr, ofParCsr, buffer_arrayOn]

theorem compatible_new (x : ParCsrObject) : new.Compatible x := ⟨trivial, trivial, trivial, trivial,
  trivial⟩

theorem Compatible.refl (x : ParCsrObject) : x.Compatible x :=
  ⟨.refl _, .refl _, .refl _, .refl _, .refl _⟩

/-- Compatible objects exchange their records. -/
theorem swap_of_compatible {x y : ParCsrObject} (h : x.Compatible y) (heap : Heap (Buffer V)) :
    ∃ x' y', swap x y heap = (x', y', heap) ∧ x'.toParCsr = y.toParCsr ∧
      y'.toParCsr = x.toParCsr := by
  obtain ⟨a₁, b₁, h₁, ha₁, hb₁⟩ := GkoArray.swap_of_compatible h.diagRowPtrs heap
  obtain ⟨a₂, b₂, h₂, ha₂, hb₂⟩ := GkoArray.swap_of_compatible h.diagColIdxs heap
  obtain ⟨a₃, b₃, h₃, ha₃, hb₃⟩ := GkoArray.swap_of_compatible h.diagValues heap
  obtain ⟨a₄, b₄, h₄, ha₄, hb₄⟩ := GkoArray.swap_of_compatible h.offdRowPtrs heap
  obtain ⟨a₅, b₅, h₅, ha₅, hb₅⟩ := GkoArray.swap_of_compatible h.offdColIdxs heap
  refine ⟨_, _, by simp only [swap, h₁, h₂, h₃, h₄, h₅]; rfl, ?_, ?_⟩
  · simp only [toParCsr, ha₁, ha₂, ha₃, ha₄, ha₅]
  · simp only [toParCsr, hb₁, hb₂, hb₃, hb₄, hb₅]

/-- If all buffers of both objects are still in memory after a swap, the objects are compatible. -/
theorem compatible_of_swap {x y : ParCsrObject} (heap : Heap (Buffer V))
    (h : ∀ a ∈ x.toParCsr.buffers ++ y.toParCsr.buffers,
      a < heap.next ∧ (swap x y heap).2.2.Live a) : x.Compatible y := by
  -- the memory after each of the five swaps
  let h₁ := (x.diagRowPtrs.swap y.diagRowPtrs heap).2.2
  let h₂ := (x.diagColIdxs.swap y.diagColIdxs h₁).2.2
  let h₃ := (x.diagValues.swap y.diagValues h₂).2.2
  let h₄ := (x.offdRowPtrs.swap y.offdRowPtrs h₃).2.2
  let h₅ := (x.offdColIdxs.swap y.offdColIdxs h₄).2.2
  have f₁ : heap.Forgets h₁ := GkoArray.swap_forgets ..
  have f₂ : h₁.Forgets h₂ := GkoArray.swap_forgets ..
  have f₃ : h₂.Forgets h₃ := GkoArray.swap_forgets ..
  have f₄ : h₃.Forgets h₄ := GkoArray.swap_forgets ..
  have f₅ : h₄.Forgets h₅ := GkoArray.swap_forgets ..
  change ∀ a ∈ _, a < heap.next ∧ h₅.Live a at h
  simp only [toParCsr, ParCsr.buffers, List.mem_append, Option.mem_toList] at h
  exact {
    diagRowPtrs := GkoArray.compatible_of_live (.refl heap)
      (f₂.trans (f₃.trans (f₄.trans f₅))) fun a ha => h a (by tauto)
    diagColIdxs := GkoArray.compatible_of_live f₁ (f₃.trans (f₄.trans f₅))
      fun a ha => h a (by tauto)
    diagValues := GkoArray.compatible_of_live (f₁.trans f₂) (f₄.trans f₅)
      fun a ha => h a (by tauto)
    offdRowPtrs := GkoArray.compatible_of_live (f₁.trans (f₂.trans f₃)) f₅
      fun a ha => h a (by tauto)
    offdColIdxs := GkoArray.compatible_of_live (f₁.trans (f₂.trans (f₃.trans f₄))) (.refl h₅)
      fun a ha => h a (by tauto) }

end ParCsrObject

/-! ## Runs -/

/-- The objects in the order of their construction; a destroyed one leaves a hole. -/
structure ParCsrObjects (V : Type) where
  ledger : Ledger V
  objects : List (Option ParCsrObject)

/-- The record of an object, and an empty one for a hole. -/
def recordOf (x : Option ParCsrObject) : ParCsr := x.elim .new ParCsrObject.toParCsr

namespace ParCsrObjects

def records (w : ParCsrObjects V) : List ParCsr := w.objects.map recordOf

/-- No objects yet, in any memory. -/
def new (heap : Heap (Buffer V)) : ParCsrObjects V := ⟨⟨heap, [], [], [], []⟩, []⟩

def construct (w : ParCsrObjects V) (x : ParCsrObject) : ParCsrObjects V :=
  { w with objects := w.objects ++ [some x] }

/-- The move assignment of the object at `j` to the one at `i`. -/
def moveAssign (w : ParCsrObjects V) (i j : ℕ) : ParCsrObjects V :=
  if i = j then w
  else
    match w.objects[i]?.join, w.objects[j]?.join with
    | some x, some y =>
      let (x, y, heap) := x.swap y w.ledger.heap
      ⟨{ w.ledger with heap }, (w.objects.set i (some x)).set j (some y)⟩
    | _, _ => w

/-- The move constructor: a new object is assigned to. -/
def moveConstruct (w : ParCsrObjects V) (j : ℕ) : ParCsrObjects V :=
  (w.construct .new).moveAssign w.objects.length j

def destroy (w : ParCsrObjects V) (p : Process) (i : ℕ) : ParCsrObjects V :=
  let objects := w.objects.set i none
  ⟨w.ledger.destroy p (objects.map recordOf) (recordOf w.objects[i]?.join), objects⟩

/-- An importer returns a record with arrays on an executor. -/
def build (w : ParCsrObjects V) (exec : ℕ) (imported : ImportedParCsr) (heap : Heap (Buffer V)) :
    ParCsrObjects V :=
  ⟨w.ledger.build imported heap, w.objects ++ [some (.ofParCsr exec heap imported.record)]⟩

end ParCsrObjects

inductive ParCsrEvent where
  | provide
  | drop
  | construct
  | buildSerial
  | buildDistributed
  | moveConstruct
  | moveAssign (target source : ℕ)
  | destroy

/-- Objects are built over system matrices that are in the memory and referenced. -/
inductive ParCsrStep [Inhabited V] (p : Process) :
    ParCsrObjects V → ParCsrEvent → ParCsrObjects V → Prop
  | provide {w heap} {system : SystemInMemory} :
    (∀ s ∈ w.ledger.systems, s.addr ≠ system.addr) →
    w.ledger.heap.Allocates heap system.arrays →
    ParCsrStep p w .provide { w with ledger := w.ledger.provide system heap }
  | drop {w} {addr : ℕ} :
    ParCsrStep p w .drop { w with ledger := w.ledger.drop w.records addr }
  | construct {w} : ParCsrStep p w .construct (w.construct .new)
  | buildSerial {w} {system : SystemInMemory} {build : Build} {hypre : Lib V}
      {systemMatrix : Block V} {mem : SerialMemory systemMatrix.csr}
      {policy policy' : PolicyState} {record : ParCsr} {heap : Heap (Buffer V)} :
    system ∈ w.ledger.systems → system.addr ∈ w.ledger.referenced →
    mem.heap = w.ledger.heap → mem.systemMatrix = system.addr → mem.arrays.all ⊆ system.arrays →
    buildSerialParCsr build hypre system.location systemMatrix mem policy =
      .ok (record, policy', heap) →
    ParCsrStep p w .buildSerial (w.build system.exec ⟨false, record⟩ heap)
  | buildDistributed {w} {system : SystemInMemory} {P : ℕ} {build : Build}
      {hypre : Lib V} {L : LocalMatrix P V} {mem : RankMemory L}
      {answer : (op : MpiOp) → op.Data → op.Data} {policy policy' : PolicyState} {record : ParCsr}
      {heap : Heap (Buffer V)} :
    system ∈ w.ledger.systems → system.addr ∈ w.ledger.referenced →
    mem.heap = w.ledger.heap → mem.systemMatrix = system.addr → mem.arrays ⊆ system.arrays →
    (buildDistributedParCsr build hypre system.location L mem policy :
      Program (mpi P) Unit Error _).outcome answer = .ok (record, policy', heap) →
    ParCsrStep p w .buildDistributed (w.build system.exec ⟨true, record⟩ heap)
  | moveConstruct {w j} {y : ParCsrObject} : w.objects[j]? = some (some y) →
    ParCsrStep p w .moveConstruct (w.moveConstruct j)
  | moveAssign {w i j} {x y : ParCsrObject} : w.objects[i]? = some (some x) →
    w.objects[j]? = some (some y) → ParCsrStep p w (.moveAssign i j) (w.moveAssign i j)
  | destroy {w i} {x : ParCsrObject} : w.objects[i]? = some (some x) →
    ParCsrStep p w .destroy (w.destroy p i)

/-- A move assignment joins objects whose arrays are compatible. -/
def AssignsCompatible : ParCsrObjects V × ParCsrEvent × ParCsrObjects V → Prop
  | (w, .moveAssign i j, _) => ∀ x y, w.objects[i]? = some (some x) →
    w.objects[j]? = some (some y) → x.Compatible y
  | _ => True

/-! ## Coherence -/

namespace ParCsrObjects

/-- The object at `i` holds the matrix with the handle `a`. -/
def Holds (w : ParCsrObjects V) (i a : ℕ) : Prop :=
  ∃ x, w.objects[i]? = some (some x) ∧ x.toParCsr.handle = some a

/-- The object at `i`, and no other, holds what an importer has built: the matrix with its flag,
communicator, sizes and system matrix. The arrays that the blocks of the matrix point at are in
memory and of this object or its system matrix. -/
structure Keeps (w : ParCsrObjects V) (i : ℕ) (b : ImportedParCsr) : Prop where
  record : ∃ x, w.objects[i]? = some (some x) ∧ x.toParCsr = b.record
  unique : ∀ j a, b.record.handle = some a → w.Holds j a → j = i
  arrays : ∀ a ∈ b.record.borrowed, w.ledger.heap.Live a ∧ (a ∈ b.record.buffers ∨
    ∃ s ∈ w.ledger.systems, b.record.systemMatrix = some s.addr ∧ a ∈ s.arrays)
  notDestroyed : ∀ a, b.record.handle = some a → a ∉ w.ledger.destroyed.map ParCsrMatrix.handle

/-- What an importer has built has been destroyed, without its off-diagonal arrays if it was built
from a distributed matrix. -/
structure Destroyed (w : ParCsrObjects V) (b : ImportedParCsr) : Prop where
  called : ∃ matrix, b.record.matrix = some matrix ∧ { matrix with
    diag := matrix.diag.detach
    offd := if b.distributed then matrix.offd.detach else matrix.offd } ∈ w.ledger.destroyed
  notHeld : ∀ i a, b.record.handle = some a → ¬ w.Holds i a

/-- Every matrix that has been built is kept by one object or has been destroyed once. -/
structure Coherent (w : ParCsrObjects V) : Prop where
  built : ∀ b ∈ w.ledger.built, (∃ i, w.Keeps i b) ∨ w.Destroyed b
  distinct : (w.ledger.built.map fun b => b.record.handle).Nodup
  once : (w.ledger.destroyed.map ParCsrMatrix.handle).Nodup
  held_built : ∀ i a, w.Holds i a → ∃ b ∈ w.ledger.built, b.record.handle = some a
  destroyed_built : ∀ m ∈ w.ledger.destroyed, ∃ b ∈ w.ledger.built,
    b.record.handle = some m.handle

section
variable {w : ParCsrObjects V} {p : Process}

theorem records_getElem? {i : ℕ} {x : ParCsrObject} (h : w.objects[i]? = some (some x)) :
    w.records[i]? = some x.toParCsr := by
  simp [records, recordOf, h]

/-- A record with a matrix is that of an object. -/
theorem object_of_record {r : ParCsr} {a : ℕ} {i : ℕ} (h : w.records[i]? = some r)
    (ha : r.handle = some a) : ∃ x, w.objects[i]? = some (some x) ∧ x.toParCsr = r := by
  rw [records, List.getElem?_map, Option.map_eq_some_iff] at h
  obtain ⟨x, hx, rfl⟩ := h
  cases x with
  | none => cases ha
  | some x => exact ⟨x, hx, rfl⟩

theorem holds_iff {i a : ℕ} :
    w.Holds i a ↔ ∃ r, w.records[i]? = some r ∧ r.handle = some a := by
  constructor
  · rintro ⟨x, hx, ha⟩
    exact ⟨_, records_getElem? hx, ha⟩
  · rintro ⟨r, hr, ha⟩
    obtain ⟨x, hx, rfl⟩ := object_of_record hr ha
    exact ⟨x, hx, ha⟩

section
variable {L : Ledger V} {gone : List ParCsr} {b : ImportedParCsr} {i : ℕ}

/-- What is in the record of an object is kept. -/
theorem keeps_of_sound (h : w.ledger.Sound p w.records) (hgone : w.ledger.Gone p w.records gone)
    (hp : p.library = .initialized) (hb : b ∈ w.ledger.built)
    (hi : w.records[i]? = some b.record) : w.Keeps i b := by
  obtain ⟨-, a, -, ha⟩ := h.imported b hb
  have hmem : b.record ∈ w.records := List.mem_of_getElem? hi
  have hmatrix : b.record.matrix.isSome := by
    simpa [ParCsr.handle] using congrArg Option.isSome ha
  exact {
    record := object_of_record hi ha
    unique := fun j a' ha' hj => by
      obtain ⟨r, hr, hra⟩ := holds_iff.mp hj
      refine eq_of_nodup_flatMap (List.nodup_append'.mp h.owned).1 hr hi ?_ ?_ (b := a')
      · exact ParCsr.mem_owns_handle hra
      · exact ParCsr.mem_owns_handle ha'
    arrays := fun a ha => by
      rcases h.borrowed _ hmem a ha with hbuffer | ⟨s, hs, hsystem, harray⟩
      · exact ⟨h.owned_live _ hmem a (List.mem_append_right _ hbuffer), .inl hbuffer⟩
      · refine ⟨(h.systems s hs a harray).2 (.inr ?_), .inr ⟨s, hs, hsystem, harray⟩⟩
        exact hsystem ▸ List.mem_map_of_mem hmem
    notDestroyed := fun a' ha' hmem' =>
      hgone.apart _ hmem hmatrix (ha' ▸ (hgone.mem_destroyed_handles hp).mp hmem') }

theorem destroyed_of_gone (h : w.ledger.Sound p w.records)
    (hgone : w.ledger.Gone p w.records gone) (hp : p.library = .initialized)
    (hb : b ∈ w.ledger.built) (hmem : b.record ∈ gone) : w.Destroyed b := by
  obtain ⟨hdist, a, -, ha⟩ := h.imported b hb
  obtain ⟨matrix, hmatrix, -⟩ := Option.map_eq_some_iff.mp ha
  refine ⟨⟨matrix, hmatrix, ?_⟩, fun i a' ha' hi => ?_⟩
  · rw [hgone.destroyed, List.mem_filterMap]
    refine ⟨b.record, hmem, ?_⟩
    rw [ParCsr.destroy_eq hp, hmatrix, hdist]
    rfl
  · obtain ⟨r, hr, hra⟩ := holds_iff.mp hi
    refine hgone.apart r (List.mem_of_getElem? hr) ?_ ?_
    · simpa [ParCsr.handle] using congrArg Option.isSome hra
    · rw [hra, ← ha']
      exact List.mem_map_of_mem hmem

end

theorem coherent_of_sound (h : w.ledger.Sound p w.records) (hp : p.library = .initialized) :
    w.Coherent := by
  obtain ⟨gone, hgone⟩ := h.exists_gone
  exact {
    built := fun b hb => by
      rcases hgone.mem_built b hb with hmem | hmem
      · obtain ⟨i, hi⟩ := List.mem_iff_getElem?.mp hmem
        exact .inl ⟨i, keeps_of_sound h hgone hp hb hi⟩
      · exact .inr (destroyed_of_gone h hgone hp hb hmem)
    distinct := h.handles
    once := hgone.destroyed_handles hp ▸ hgone.handles.filterMap
      fun _ _ _ h h' => h.trans h'.symm
    held_built := fun i a hi => by
      obtain ⟨r, hr, ha⟩ := holds_iff.mp hi
      obtain ⟨b, hb, rfl⟩ := hgone.records_built r (List.mem_of_getElem? hr) (by
        simpa [ParCsr.handle] using congrArg Option.isSome ha)
      exact ⟨b, hb, ha⟩
    destroyed_built := fun m hm => by
      obtain ⟨r, hr, hra⟩ := List.mem_map.mp
        ((hgone.mem_destroyed_handles hp).mp (List.mem_map_of_mem hm))
      obtain ⟨b, hb, rfl⟩ := hgone.gone_built r hr
      exact ⟨b, hb, hra⟩ }

/-! ## Steps -/

theorem construct_sound (h : w.ledger.Sound p w.records) :
    (w.construct .new).ledger.Sound p (w.construct .new).records := by
  refine h.new.perm ?_
  simp only [records, construct, List.map_append]
  exact (List.perm_append_singleton ..).symm

theorem build_sound (h : w.ledger.Sound p w.records) {exec : ℕ} {imported : ImportedParCsr}
    {heap : Heap (Buffer V)} {system : SystemInMemory} {arrays : List ℕ}
    (hsystem : system ∈ w.ledger.systems) (huse : system.addr ∈ w.ledger.referenced)
    (harrays : arrays ⊆ system.arrays)
    (hbuilt : imported.record.BuiltOver imported.distributed system.addr arrays w.ledger.heap
      heap) : (w.build exec imported heap).ledger.Sound p (w.build exec imported heap).records := by
  have hsound := h.build hsystem huse { hbuilt with
    borrowed := fun a ha => (hbuilt.borrowed a ha).imp_right (harrays ·) }
  refine hsound.perm ?_
  simp only [records, build, List.map_append, List.map_singleton, recordOf, Option.elim_some,
    ParCsrObject.toParCsr_ofParCsr]
  exact (List.perm_append_singleton ..).symm

/-- A move assignment of compatible objects permutes the records. -/
theorem moveAssign_sound {i j : ℕ} {x y : ParCsrObject} (h : w.ledger.Sound p w.records)
    (hi : w.objects[i]? = some (some x)) (hj : w.objects[j]? = some (some y))
    (hcompatible : x.Compatible y) :
    (w.moveAssign i j).ledger.Sound p (w.moveAssign i j).records := by
  unfold moveAssign
  split
  · exact h
  obtain ⟨x', y', hswap, hx, hy⟩ := ParCsrObject.swap_of_compatible hcompatible w.ledger.heap
  simp only [hi, hj, Option.join_some, hswap]
  refine h.perm ?_
  obtain ⟨hi', hri⟩ := List.getElem?_eq_some_iff.mp (records_getElem? hi)
  obtain ⟨hj', hrj⟩ := List.getElem?_eq_some_iff.mp (records_getElem? hj)
  have hset := List.set_set_perm hi' hj'
  rw [hri, hrj] at hset
  simpa [records, recordOf, hx, hy] using hset.symm

/-- If the objects are coherent after a move assignment, it has joined compatible ones. -/
theorem compatible_of_coherent {i j : ℕ} {x y : ParCsrObject} (h : w.ledger.Sound p w.records)
    (hp : p.library = .initialized) (hi : w.objects[i]? = some (some x))
    (hj : w.objects[j]? = some (some y)) (hcoherent : (w.moveAssign i j).Coherent) :
    x.Compatible y := by
  rcases eq_or_ne i j with rfl | hne
  · cases hi.symm.trans hj
    exact .refl x
  obtain ⟨gone, hgone⟩ := h.exists_gone
  have hmoved : (w.moveAssign i j).ledger =
      { w.ledger with heap := (x.swap y w.ledger.heap).2.2 } := by
    simp only [moveAssign, hne, if_false, hi, hj, Option.join_some]
  have hbuffers (r : ParCsr) (hr : r ∈ w.records) (a : ℕ) (ha : a ∈ r.buffers) :
      a < w.ledger.heap.next ∧ (x.swap y w.ledger.heap).2.2.Live a := by
    have hborrowed : a ∈ r.borrowed := h.buffers r hr a ha
    have hmatrix : r.matrix.isSome := ParCsr.matrix_of_borrowed hborrowed
    refine ⟨(h.owned_live r hr a (List.mem_append_right _ ha)).lt_next, ?_⟩
    obtain ⟨b, hb, rfl⟩ := hgone.records_built r hr hmatrix
    rcases hcoherent.built b (by rwa [hmoved]) with ⟨i, hkeeps⟩ | hdestroyed
    · have hlive := (hkeeps.arrays a hborrowed).1
      rwa [hmoved] at hlive
    · obtain ⟨matrix, hmatrix', hcalled⟩ := hdestroyed.called
      rw [hmoved] at hcalled
      have hhandle := (hgone.mem_destroyed_handles hp).mp (List.mem_map_of_mem hcalled)
      refine (hgone.apart _ hr hmatrix ?_).elim
      rwa [ParCsr.handle, hmatrix']
  refine ParCsrObject.compatible_of_swap w.ledger.heap fun a ha => ?_
  rcases List.mem_append.mp ha with ha | ha
  · exact hbuffers _ (List.mem_of_getElem? (records_getElem? hi)) a ha
  · exact hbuffers _ (List.mem_of_getElem? (records_getElem? hj)) a ha

theorem moveConstruct_sound {j : ℕ} {y : ParCsrObject} (h : w.ledger.Sound p w.records)
    (hj : w.objects[j]? = some (some y)) :
    (w.moveConstruct j).ledger.Sound p (w.moveConstruct j).records := by
  have hlt : j < w.objects.length := (List.getElem?_eq_some_iff.mp hj).1
  refine moveAssign_sound (construct_sound h) ?_ ?_ (ParCsrObject.compatible_new y)
  · simp [construct]
  · simpa [construct, List.getElem?_append_left hlt] using hj

theorem destroy_sound {i : ℕ} {x : ParCsrObject} (h : w.ledger.Sound p w.records)
    (hp : p.library = .initialized) (hi : w.objects[i]? = some (some x)) :
    (w.destroy p i).ledger.Sound p (w.destroy p i).records := by
  obtain ⟨hi', hri⟩ := List.getElem?_eq_some_iff.mp (records_getElem? hi)
  have hset : (w.objects.set i none).map recordOf = w.records.set i .new := List.map_set ..
  have hperm : (.new :: w.records).Perm (x.toParCsr :: w.records.set i .new) := by
    have herase := List.getElem_cons_eraseIdx_perm hi'
    rw [hri] at herase
    exact ((herase.symm.cons _).trans (.swap ..)).trans
      ((List.set_perm_cons_eraseIdx hi' _).symm.cons _)
  have hsound := (h.new.perm hperm).destroy hp
  simpa only [destroy, records, hset, hi, Option.join_some, recordOf, Option.elim_some] using hsound

end

end ParCsrObjects

section
variable [Inhabited V] {p : Process} {w w' : ParCsrObjects V} {e : ParCsrEvent}
  {tr : List (ParCsrObjects V × ParCsrEvent × ParCsrObjects V)}

theorem ParCsrStep.sound (hp : p.library = .initialized) (hstep : ParCsrStep p w e w')
    (hassigns : AssignsCompatible (w, e, w')) (h : w.ledger.Sound p w.records) :
    w'.ledger.Sound p w'.records := by
  cases hstep with
  | provide haddr hnew => exact h.provide haddr hnew
  | drop => exact h.drop _
  | construct => exact ParCsrObjects.construct_sound h
  | buildSerial hsystem huse hheap haddr harrays hbuild =>
    refine ParCsrObjects.build_sound h hsystem huse harrays ?_
    exact haddr ▸ hheap ▸ buildSerialParCsr_builtOver hbuild
  | buildDistributed hsystem huse hheap haddr harrays hbuild =>
    refine ParCsrObjects.build_sound h hsystem huse harrays ?_
    exact haddr ▸ hheap ▸ buildDistributedParCsr_builtOver hbuild
  | moveConstruct hj => exact ParCsrObjects.moveConstruct_sound h hj
  | moveAssign hi hj => exact ParCsrObjects.moveAssign_sound h hi hj (hassigns _ _ hi hj)
  | destroy hi => exact ParCsrObjects.destroy_sound h hp hi

omit [Inhabited V] in
theorem ParCsrObjects.new_sound (heap : Heap (Buffer V)) :
    (ParCsrObjects.new heap).ledger.Sound p (ParCsrObjects.new heap).records where
  built := ⟨[], .refl _, rfl⟩
  imported := by simp [new]
  handles := .nil
  owned := .nil
  owned_live := by simp [records, new]
  systems := by simp [new]
  borrowed := by simp [records, new]
  buffers := by simp [records, new]

/-- If all states of a run are coherent, its move assignments join compatible objects. -/
theorem compatible_of_run (hp : p.library = .initialized) (h : Run (ParCsrStep p) w tr w')
    (hw : w.ledger.Sound p w.records) (hcoherent : ∀ t ∈ tr, t.2.2.Coherent) :
    w'.ledger.Sound p w'.records ∧ ∀ t ∈ tr, AssignsCompatible t := by
  induction h with
  | nil => exact ⟨hw, by simp⟩
  | @snoc w₁ w₂ tr e _ hstep ih =>
    obtain ⟨hsound, hassigns⟩ := ih fun t ht => hcoherent t (List.mem_append_left _ ht)
    have hcoherent' : w₂.Coherent := hcoherent (w₁, e, w₂) (by simp)
    have hlast : AssignsCompatible (w₁, e, w₂) := by
      cases hstep with
      | moveAssign =>
        intro x y hi hj
        exact ParCsrObjects.compatible_of_coherent hsound hp hi hj hcoherent'
      | _ => trivial
    refine ⟨hstep.sound hp hlast hsound, fun t ht => ?_⟩
    rcases List.mem_append.mp ht with ht | ht
    · exact hassigns t ht
    · exact List.mem_singleton.mp ht ▸ hlast

/-- Each object keeps one coherent set at every state of a run exactly if no move assignment of
the run joins arrays that are on different executors and not both without elements. -/
theorem run_coherent_iff {heap : Heap (Buffer V)} (hp : p.library = .initialized)
    (h : Run (ParCsrStep p) (.new heap) tr w) :
    (∀ t ∈ tr, t.2.2.Coherent) ↔ ∀ t ∈ tr, AssignsCompatible t := by
  have hnew := ParCsrObjects.new_sound (p := p) heap
  constructor
  · exact fun hcoherent => (compatible_of_run hp h hnew hcoherent).2
  · intro hassigns t ht
    obtain ⟨hstep, hsound⟩ := h.invariant_mem hnew
      (fun _ _ _ ht hstep => hstep.sound hp (hassigns _ ht)) ht
    exact ParCsrObjects.coherent_of_sound (hstep.sound hp (hassigns t ht) hsound) hp

end

/-! ## Two objects -/

theorem ParCsrObject.compatible_ofParCsr (exec : ℕ) (heap heap' : Heap (Buffer V))
    (result result' : ParCsr) :
    (ofParCsr exec heap result).Compatible (ofParCsr exec heap' result') := by
  have harray (storage storage' : Option ℕ) :
      (arrayOn exec heap storage).Compatible (arrayOn exec heap' storage') := by
    cases storage <;> cases storage' <;> first | trivial | exact .inl rfl
  exact ⟨harray .., harray .., harray .., harray .., harray ..⟩

/-- The memory after a matrix has been stored behind what was there. -/
def oneRowMemory (cells : List (Option (Buffer ℤ))) : SerialMemory oneRow where
  heap := ⟨cells ++ (SerialMemory.new oneRow).heap.cells⟩
  systemMatrix := cells.length
  arrays := ⟨cells.length + 1, cells.length + 2, cells.length + 3⟩
  stored := by constructor <;> simp [Heap.read, SerialMemory.new]

/-- The matrix on an executor. -/
def oneRowSystem (exec : ℕ) (cells : List (Option (Buffer ℤ))) : SystemInMemory :=
  ⟨cells.length, exec, .host, [cells.length + 1, cells.length + 2, cells.length + 3]⟩

def buildOneRow (cells : List (Option (Buffer ℤ))) :
    Except Error (ParCsr × PolicyState × Heap (Buffer ℤ)) :=
  buildSerialParCsr .host (.documented ℤ) .host ⟨"Csr", true, oneRow⟩ (oneRowMemory cells)
    ⟨none, .device, .device⟩

/-- The memory after one build. -/
def oneRowBuilt : List (Option (Buffer ℤ)) :=
  (oneRowMemory []).heap.cells ++ [some .object, some (.ints [0]), some (.reals [2])]

theorem buildOneRow_ok : ∃ record policy record' policy' heap,
    buildOneRow [] = .ok (record, policy, ⟨oneRowBuilt⟩) ∧
    buildOneRow oneRowBuilt = .ok (record', policy', heap) ∧
    record.diagValues = some 6 ∧ record'.diagValues = some 13 :=
  ⟨_, _, _, _, _, rfl, rfl, rfl, rfl⟩

theorem oneRow_allocates (exec : ℕ) (cells : List (Option (Buffer ℤ))) :
    Heap.Allocates ⟨cells⟩ (oneRowMemory cells).heap (oneRowSystem exec cells).arrays where
  keeps := List.prefix_append ..
  nodup := by simp [oneRowSystem]
  fresh := by simp [oneRowSystem, Heap.next]
  live := (oneRowMemory cells).stored.live

/-- Two matrices are stored on the given executors, and an object is built over each of them. -/
theorem run_buildTwice (exec exec' : ℕ) : ∃ tr, ∃ w : ParCsrObjects ℤ, ∃ x y,
    ∃ heap heap' : Heap (Buffer ℤ), Run (ParCsrStep withHypre) (.new ⟨[]⟩) tr w ∧
    tr.map (·.2.1) = [.provide, .buildSerial, .provide, .buildSerial] ∧
    (∀ t ∈ tr, AssignsCompatible t) ∧
    w.objects = [some (.ofParCsr exec heap x), some (.ofParCsr exec' heap' y)] ∧
    (∃ a, x.diagValues = some a ∧ heap.read a = some (.reals [2])) ∧ y.diagValues.isSome := by
  obtain ⟨x, _, y, _, heap, hx, hy, hxValues, hyValues⟩ := buildOneRow_ok
  let w₀ : ParCsrObjects ℤ := .new ⟨[]⟩
  let system := oneRowSystem exec []
  let system' := oneRowSystem exec' oneRowBuilt
  let w₁ : ParCsrObjects ℤ := { w₀ with ledger := w₀.ledger.provide system (oneRowMemory []).heap }
  let w₂ := w₁.build exec ⟨false, x⟩ ⟨oneRowBuilt⟩
  let w₃ := { w₂ with ledger := w₂.ledger.provide system' (oneRowMemory oneRowBuilt).heap }
  let w₄ := w₃.build exec' ⟨false, y⟩ heap
  have h₁ : ParCsrStep withHypre w₀ .provide w₁ :=
    .provide (by simp [w₀, ParCsrObjects.new]) (oneRow_allocates exec [])
  have hsystem : system ∈ w₁.ledger.systems := List.mem_singleton_self _
  have h₂ : ParCsrStep withHypre w₁ .buildSerial w₂ :=
    .buildSerial hsystem (List.mem_singleton_self _) rfl rfl (List.Subset.refl _) hx
  have h₃ : ParCsrStep withHypre w₂ .provide w₃ := by
    refine .provide (fun s hs => ?_) (oneRow_allocates exec' oneRowBuilt)
    obtain rfl : s = system := List.mem_singleton.mp hs
    show 0 ≠ oneRowBuilt.length
    decide
  have hsystem' : system' ∈ w₃.ledger.systems :=
    List.mem_append_right _ (List.mem_singleton_self _)
  have huse' : system'.addr ∈ w₃.ledger.referenced :=
    List.mem_append_right _ (List.mem_singleton_self _)
  have h₄ : ParCsrStep withHypre w₃ .buildSerial w₄ :=
    .buildSerial hsystem' huse' rfl rfl (List.Subset.refl _) hy
  refine ⟨_, w₄, x, y, ⟨oneRowBuilt⟩, heap, (((Run.nil.snoc h₁).snoc h₂).snoc h₃).snoc h₄, rfl, ?_,
    rfl, ⟨6, hxValues, rfl⟩, ?_⟩
  · simp [AssignsCompatible]
  · simp [hyValues]

/-- On one executor, an object is assigned to another one, and then moved from and destroyed: all
states are coherent. -/
theorem run_coherent_iff_oneExecutor : ∃ tr, ∃ w : ParCsrObjects ℤ,
    Run (ParCsrStep withHypre) (.new ⟨[]⟩) tr w ∧
    tr.map (·.2.1) = [.provide, .buildSerial, .provide, .buildSerial, .moveAssign 0 1,
      .moveConstruct, .destroy] ∧
    ∀ t ∈ tr, t.2.2.Coherent := by
  obtain ⟨tr, w, x, y, heap, heap', hrun, hevents, hassigns, hobjects, -, -⟩ := run_buildTwice 0 0
  have hi : w.objects[0]? = some (some (.ofParCsr 0 heap x)) := by rw [hobjects]; rfl
  have hj : w.objects[1]? = some (some (.ofParCsr 0 heap' y)) := by rw [hobjects]; rfl
  obtain ⟨x', hx'⟩ : ∃ x', (w.moveAssign 0 1).objects[0]? = some (some x') := by
    simp [ParCsrObjects.moveAssign, hobjects]
  obtain ⟨x'', hx''⟩ :
      ∃ x'', ((w.moveAssign 0 1).moveConstruct 0).objects[0]? = some (some x'') := by
    simp [ParCsrObjects.moveConstruct, ParCsrObjects.moveAssign, ParCsrObjects.construct, hobjects]
  have hrun' := ((hrun.snoc (.moveAssign hi hj)).snoc (.moveConstruct hx')).snoc (.destroy hx'')
  refine ⟨_, _, hrun', by simp [hevents], (run_coherent_iff rfl hrun').mpr ?_⟩
  simp only [List.forall_mem_append, List.forall_mem_singleton]
  refine ⟨⟨⟨hassigns, fun x₁ y₁ hx₁ hy₁ => ?_⟩, trivial⟩, trivial⟩
  cases hi.symm.trans hx₁
  cases hj.symm.trans hy₁
  exact ParCsrObject.compatible_ofParCsr 0 heap heap' x y

/-- Two objects over matrices on different executors are assigned, and then they are not
coherent. -/
theorem moved_across_executors : ∃ tr, ∃ w : ParCsrObjects ℤ,
    Run (ParCsrStep withHypre) (.new ⟨[]⟩) tr w ∧ ¬ w.Coherent := by
  obtain ⟨tr, w, x, y, heap, heap', hrun, -, hassigns, hobjects, ⟨a, hx, ha⟩, hy⟩ :=
    run_buildTwice 0 1
  have hi : w.objects[0]? = some (some (.ofParCsr 0 heap x)) := by rw [hobjects]; rfl
  have hj : w.objects[1]? = some (some (.ofParCsr 1 heap' y)) := by rw [hobjects]; rfl
  refine ⟨_, _, hrun.snoc (.moveAssign hi hj), fun hcoherent => ?_⟩
  have hsound : w.ledger.Sound withHypre w.records :=
    hrun.invariant (ParCsrObjects.new_sound ⟨[]⟩)
      fun _ _ _ ht hstep => hstep.sound rfl (hassigns _ ht)
  have hvalues := (ParCsrObjects.compatible_of_coherent hsound rfl hi hj hcoherent).diagValues
  obtain ⟨b, hb⟩ := Option.isSome_iff_exists.mp hy
  simp [ParCsrObject.ofParCsr, ParCsrObject.arrayOn, hx, ha, hb, GkoArray.Compatible,
    GkoArray.NoElements, Buffer.size] at hvalues

end GinkgoTpl.Hypre
