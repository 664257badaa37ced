import GinkgoTpl.Hypre.Borrowed
import Mathlib.Data.List.ReduceOption

/-!
# The ledger of the imported matrices

Which matrices the importers have built, which of them are in the records of `par_csr` objects,
and which have been destroyed, together with the memory of all of them. `Ledger.Sound` only
depends on the records up to their order, so that a swap of two objects keeps it.
-/

namespace GinkgoTpl.Hypre

open Memory

variable {V : Type}

/-- In a list of lists without duplicates, a member is in one place. -/
theorem eq_of_nodup_flatMap {α β : Type} {l : List α} {f : α → List β}
    (h : (l.flatMap f).Nodup) {i j : ℕ} {x y : α} {b : β} (hi : l[i]? = some x)
    (hj : l[j]? = some y) (hx : b ∈ f x) (hy : b ∈ f y) : i = j := by
  obtain ⟨hi', rfl⟩ := List.getElem?_eq_some_iff.mp hi
  obtain ⟨hj', rfl⟩ := List.getElem?_eq_some_iff.mp hj
  have hdisjoint := List.pairwise_iff_getElem.mp (List.nodup_flatMap.mp h).2
  rcases Nat.lt_trichotomy i j with hlt | heq | hlt
  · exact (hdisjoint i j hi' hj' hlt hx hy).elim
  · exact heq
  · exact (hdisjoint j i hj' hi' hlt hy hx).elim

def ParCsr.handle (result : ParCsr) : Option ℕ := result.matrix.map ParCsrMatrix.handle

theorem ParCsr.mem_owns_handle {result : ParCsr} {a : ℕ} (h : result.handle = some a) :
    a ∈ result.owns := by
  rw [ParCsr.owns, ← ParCsr.handle, h]
  simp

/-- A system matrix in memory, with its executor. -/
structure SystemInMemory where
  addr : ℕ
  exec : ℕ
  /-- `memory_location_of` the executor. -/
  location : MemoryLocation
  arrays : List ℕ

/-- What an importer has returned. -/
structure ImportedParCsr where
  /-- Whether the system matrix is a distributed one. -/
  distributed : Bool
  record : ParCsr

structure Ledger (V : Type) where
  heap : Heap (Buffer V)
  systems : List SystemInMemory
  /-- The system matrices that others than the objects keep alive. -/
  referenced : List ℕ
  built : List ImportedParCsr
  /-- The matrices as `hypre_ParCSRMatrixDestroy` has found them. -/
  destroyed : List ParCsrMatrix

/-- What hypre frees when the object is destroyed. -/
theorem ParCsr.destroy_frees {p : Process} (hp : p.library = .initialized) (result : ParCsr)
    (heap : Heap (Buffer V)) :
    ((result.destroy p).elim heap fun matrix => heap.freeAll (matrix.handle :: matrix.frees)) =
      heap.freeAll (result.handle.toList ++ result.ownArrays) := by
  rw [ParCsr.destroy_eq hp]
  simp only [ParCsr.handle, ParCsr.ownArrays]
  cases result.matrix with
  | none => rfl
  | some matrix =>
    cases result.distributed <;>
      simp [ParCsrMatrix.frees, HypreCsr.frees, HypreCsr.detach]

namespace Ledger

/-- The system matrix at `addr` is referenced or shared by an object. -/
def InUse (L : Ledger V) (records : List ParCsr) (addr : ℕ) : Prop :=
  addr ∈ L.referenced ∨ some addr ∈ records.map ParCsr.systemMatrix

instance (L : Ledger V) (records : List ParCsr) (addr : ℕ) : Decidable (L.InUse records addr) :=
  inferInstanceAs (Decidable (_ ∨ _))

/-- The arrays that the last owner of a system matrix frees. -/
def unused (L : Ledger V) (records : List ParCsr) (addr : ℕ) : List ℕ :=
  if L.InUse records addr then [] else (L.systems.filter (·.addr = addr)).flatMap (·.arrays)

/-- A system matrix is stored in new arrays. -/
def provide (L : Ledger V) (system : SystemInMemory) (heap : Heap (Buffer V)) : Ledger V :=
  { L with
    heap
    systems := L.systems ++ [system]
    referenced := L.referenced ++ [system.addr] }

/-- Nobody but the objects keeps the system matrix any longer. -/
def drop (L : Ledger V) (records : List ParCsr) (addr : ℕ) : Ledger V :=
  let L := { L with referenced := L.referenced.filter (· ≠ addr) }
  { L with heap := L.heap.freeAll (L.unused records addr) }

/-- An importer returns a record. -/
def build (L : Ledger V) (imported : ImportedParCsr) (heap : Heap (Buffer V)) : Ledger V :=
  { L with heap, built := L.built ++ [imported] }

/-- The destructor of an object, while there are the other records: its body calls hypre, and then
its members are destroyed. -/
def destroy (L : Ledger V) (p : Process) (records : List ParCsr) (result : ParCsr) : Ledger V :=
  let L := { L with
    heap := (result.destroy p).elim L.heap fun matrix =>
      L.heap.freeAll (matrix.handle :: matrix.frees)
    destroyed := L.destroyed ++ (result.destroy p).toList }
  let L := { L with heap := L.heap.freeAll (result.systemMatrix.elim [] (L.unused records)) }
  { L with heap := L.heap.freeAll result.buffers }

/-- Every matrix is in one record or has been destroyed once, no two records own the same memory,
and what they own or borrow is in memory. -/
structure Sound (L : Ledger V) (p : Process) (records : List ParCsr) : Prop where
  built : ∃ gone,
    (L.built.map ImportedParCsr.record).Perm (records.filter (·.matrix.isSome) ++ gone) ∧
      L.destroyed = gone.filterMap (·.destroy p)
  imported : ∀ b ∈ L.built, b.record.distributed = b.distributed ∧
    ∃ a < L.heap.next, b.record.handle = some a
  handles : (L.built.map fun b => b.record.handle).Nodup
  owned : (records.flatMap ParCsr.owns ++ L.systems.flatMap (·.arrays)).Nodup
  owned_live : ∀ r ∈ records, ∀ a ∈ r.owns, L.heap.Live a
  systems : ∀ s ∈ L.systems, ∀ a ∈ s.arrays,
    a < L.heap.next ∧ (L.InUse records s.addr → L.heap.Live a)
  borrowed : ∀ r ∈ records, ∀ a ∈ r.borrowed,
    a ∈ r.buffers ∨ ∃ s ∈ L.systems, r.systemMatrix = some s.addr ∧ a ∈ s.arrays
  buffers : ∀ r ∈ records, ∀ a ∈ r.buffers, a ∈ r.borrowed

variable {L : Ledger V} {p : Process} {records records' : List ParCsr} {result : ParCsr}

theorem inUse_perm (h : records.Perm records') (addr : ℕ) :
    L.InUse records addr ↔ L.InUse records' addr := or_congr_right (h.map _).mem_iff

theorem InUse.cons {addr : ℕ} (h : L.InUse records addr) : L.InUse (result :: records) addr :=
  h.imp_right (List.mem_cons_of_mem _)

theorem mem_unused {addr a : ℕ} (ha : a ∈ L.unused records addr) :
    ¬ L.InUse records addr ∧ ∃ s ∈ L.systems, s.addr = addr ∧ a ∈ s.arrays := by
  unfold unused at ha
  split at ha
  · cases ha
  · rename_i huse
    obtain ⟨s, hs, ha⟩ := List.mem_flatMap.mp ha
    obtain ⟨hs, haddr⟩ := List.mem_filter.mp hs
    exact ⟨huse, s, hs, by simpa using haddr, ha⟩

namespace Sound

theorem perm (h : L.Sound p records) (hperm : records.Perm records') : L.Sound p records' where
  built := by
    obtain ⟨gone, hbuilt, hgone⟩ := h.built
    exact ⟨gone, hbuilt.trans ((hperm.filter _).append_right gone), hgone⟩
  imported := h.imported
  handles := h.handles
  owned := ((hperm.flatMap_right _).append_right _).nodup_iff.mp h.owned
  owned_live r hr := h.owned_live r (hperm.mem_iff.mpr hr)
  systems s hs a ha := (h.systems s hs a ha).imp_right fun hlive huse =>
    hlive ((inUse_perm hperm _).mpr huse)
  borrowed r hr := h.borrowed r (hperm.mem_iff.mpr hr)
  buffers r hr := h.buffers r (hperm.mem_iff.mpr hr)

/-- A default constructed object. -/
theorem new (h : L.Sound p records) : L.Sound p (.new :: records) where
  built := h.built
  imported := h.imported
  handles := h.handles
  owned := h.owned
  owned_live := List.forall_mem_cons.mpr ⟨by simp [ParCsr.owns, ParCsr.new, ParCsr.ownArrays,
    ParCsr.buffers], h.owned_live⟩
  systems s hs a ha := by
    refine (h.systems s hs a ha).imp_right fun hlive huse => hlive (huse.imp_right fun hmem => ?_)
    exact (List.mem_cons.mp hmem).resolve_left (by simp [ParCsr.new])
  borrowed := List.forall_mem_cons.mpr ⟨by simp [ParCsr.borrowed, ParCsr.new], h.borrowed⟩
  buffers := List.forall_mem_cons.mpr ⟨by simp [ParCsr.buffers, ParCsr.new], h.buffers⟩

/-- The addresses at hand are older than those that have been allocated since. -/
theorem not_mem_of_fresh (h : L.Sound p records) {a : ℕ} (ha : L.heap.next ≤ a) :
    a ∉ records.flatMap ParCsr.owns ++ L.systems.flatMap (·.arrays) := by
  intro hmem
  rcases List.mem_append.mp hmem with hmem | hmem
  · obtain ⟨r, hr, hmem⟩ := List.mem_flatMap.mp hmem
    exact Nat.lt_irrefl a ((h.owned_live r hr a hmem).lt_next.trans_le ha)
  · obtain ⟨s, hs, hmem⟩ := List.mem_flatMap.mp hmem
    exact Nat.lt_irrefl a ((h.systems s hs a hmem).1.trans_le ha)

theorem provide (h : L.Sound p records) {system : SystemInMemory} {heap : Heap (Buffer V)}
    (haddr : ∀ s ∈ L.systems, s.addr ≠ system.addr)
    (hnew : L.heap.Allocates heap system.arrays) : (L.provide system heap).Sound p records where
  built := h.built
  imported b hb := by
    obtain ⟨hdist, a, ha, hhandle⟩ := h.imported b hb
    exact ⟨hdist, a, ha.trans_le hnew.keeps.next_le, hhandle⟩
  handles := h.handles
  owned := by
    simp only [Ledger.provide, List.flatMap_append, List.flatMap_singleton, ← List.append_assoc]
    refine List.nodup_append'.mpr ⟨h.owned, hnew.nodup, fun a hmem ha => ?_⟩
    exact h.not_mem_of_fresh (hnew.fresh a ha) hmem
  owned_live r hr a ha := hnew.keeps.live (h.owned_live r hr a ha)
  systems s hs a ha := by
    rcases List.mem_append.mp hs with hs | hs
    · obtain ⟨hlt, hlive⟩ := h.systems s hs a ha
      refine ⟨hlt.trans_le hnew.keeps.next_le, fun huse => hnew.keeps.live (hlive ?_)⟩
      refine huse.imp_left fun hmem => (List.mem_append.mp hmem).resolve_right ?_
      simpa using haddr s hs
    · cases List.mem_singleton.mp hs
      exact ⟨(hnew.live a ha).lt_next, fun _ => hnew.live a ha⟩
  borrowed r hr a ha := by
    refine (h.borrowed r hr a ha).imp_right ?_
    rintro ⟨s, hs, hsystem, ha⟩
    exact ⟨s, List.mem_append_left _ hs, hsystem, ha⟩
  buffers := h.buffers

/-- Memory is freed that no record owns or borrows. -/
theorem free (h : L.Sound p records) (freed : List ℕ)
    (hfreed : ∀ a ∈ freed, (∀ r ∈ records, a ∉ r.owns) ∧
      ∀ s ∈ L.systems, L.InUse records s.addr → a ∉ s.arrays) :
    Ledger.Sound { L with heap := L.heap.freeAll freed } p records where
  built := h.built
  imported := by simpa using h.imported
  handles := h.handles
  owned := h.owned
  owned_live r hr a ha := (h.owned_live r hr a ha).freeAll fun hmem => (hfreed a hmem).1 r hr ha
  systems s hs a ha := by
    obtain ⟨hlt, hlive⟩ := h.systems s hs a ha
    rw [Heap.next_freeAll]
    exact ⟨hlt, fun huse => (hlive huse).freeAll fun hmem => (hfreed a hmem).2 s hs huse ha⟩
  borrowed := h.borrowed
  buffers := h.buffers

/-- The arrays of a system matrix that is not in use. -/
theorem unused_free (h : L.Sound p records) {addr a : ℕ} (ha : a ∈ L.unused records addr) :
    (∀ r ∈ records, a ∉ r.owns) ∧ ∀ s ∈ L.systems, L.InUse records s.addr → a ∉ s.arrays := by
  obtain ⟨hunused, s, hs, rfl, hmem'⟩ := mem_unused ha
  obtain ⟨-, hsystems, hdisjoint⟩ := List.nodup_append'.mp h.owned
  refine ⟨fun r hr hmem => ?_, fun s' hs' huse hmem => ?_⟩
  · exact hdisjoint (List.mem_flatMap.mpr ⟨r, hr, hmem⟩) (List.mem_flatMap.mpr ⟨s, hs, hmem'⟩)
  · obtain ⟨i, hi⟩ := List.mem_iff_getElem?.mp hs
    obtain ⟨j, hj⟩ := List.mem_iff_getElem?.mp hs'
    cases eq_of_nodup_flatMap hsystems hi hj hmem' hmem
    cases hi.symm.trans hj
    exact hunused huse

theorem drop (h : L.Sound p records) (addr : ℕ) : (L.drop records addr).Sound p records := by
  have h' : Ledger.Sound { L with referenced := L.referenced.filter (· ≠ addr) } p records :=
    { h with
      systems := fun s hs a ha => (h.systems s hs a ha).imp_right fun hlive huse =>
        hlive (huse.imp_left fun hmem => (List.mem_filter.mp hmem).1) }
  exact h'.free _ fun a ha => h'.unused_free ha

theorem build (h : L.Sound p records) {imported : ImportedParCsr} {heap : Heap (Buffer V)}
    {system : SystemInMemory} (hsystem : system ∈ L.systems) (huse : system.addr ∈ L.referenced)
    (hbuilt : imported.record.BuiltOver imported.distributed system.addr system.arrays L.heap
      heap) : (L.build imported heap).Sound p (imported.record :: records) := by
  obtain ⟨a, hhandle⟩ : ∃ a, imported.record.handle = some a := by
    obtain ⟨matrix, hmatrix⟩ := Option.isSome_iff_exists.mp hbuilt.matrix
    exact ⟨matrix.handle, by rw [ParCsr.handle, hmatrix]; rfl⟩
  have hnew := hbuilt.allocates
  have hle := hnew.keeps.next_le
  have hmem : a ∈ imported.record.owns := ParCsr.mem_owns_handle hhandle
  exact {
    built := by
      obtain ⟨gone, hperm, hgone⟩ := h.built
      refine ⟨gone, ?_, hgone⟩
      simp only [Ledger.build, List.map_append, List.filter_cons, hbuilt.matrix, if_true]
      exact (List.perm_append_singleton ..).trans (hperm.cons _)
    imported := by
      refine List.forall_mem_append.mpr ⟨fun b hb => ?_, List.forall_mem_singleton.mpr ?_⟩
      · obtain ⟨hdist, a, ha, hhandle⟩ := h.imported b hb
        exact ⟨hdist, a, ha.trans_le hle, hhandle⟩
      · exact ⟨hbuilt.distributed, a, (hnew.live a hmem).lt_next, hhandle⟩
    handles := by
      simp only [Ledger.build, List.map_append, List.map_singleton, hhandle]
      refine List.nodup_append'.mpr ⟨h.handles, List.nodup_singleton _, fun x hx hx' => ?_⟩
      rw [List.mem_singleton.mp hx'] at hx
      obtain ⟨b, hb, hb'⟩ := List.mem_map.mp hx
      obtain ⟨-, a', ha', hhandle'⟩ := h.imported b hb
      cases hhandle'.symm.trans hb'
      exact Nat.lt_irrefl a (ha'.trans_le (hnew.fresh a hmem))
    owned := by
      rw [List.flatMap_cons, List.append_assoc]
      exact List.nodup_append'.mpr ⟨hnew.nodup, h.owned, fun a ha hmem =>
        h.not_mem_of_fresh (hnew.fresh a ha) hmem⟩
    owned_live := List.forall_mem_cons.mpr
      ⟨hnew.live, fun r hr a ha => hnew.keeps.live (h.owned_live r hr a ha)⟩
    systems := fun s hs a ha => by
      obtain ⟨hlt, hlive⟩ := h.systems s hs a ha
      refine ⟨hlt.trans_le hle, fun hinUse => hnew.keeps.live (hlive ?_)⟩
      rcases hinUse with hinUse | hinUse
      · exact .inl hinUse
      · rcases List.mem_cons.mp hinUse with hinUse | hinUse
        · exact .inl (Option.some.inj (hinUse.trans hbuilt.systemMatrix) ▸ huse)
        · exact .inr hinUse
    borrowed := by
      refine List.forall_mem_cons.mpr ⟨fun a ha => ?_, h.borrowed⟩
      exact (hbuilt.borrowed a ha).imp_right fun hmem =>
        ⟨system, hsystem, hbuilt.systemMatrix, hmem⟩
    buffers := List.forall_mem_cons.mpr ⟨hbuilt.buffers, h.buffers⟩ }

/-- The matrix of the first record is destroyed. -/
theorem callDestroy (hp : p.library = .initialized) (h : L.Sound p (result :: records)) :
    Ledger.Sound { L with destroyed := L.destroyed ++ (result.destroy p).toList } p records where
  built := by
    obtain ⟨gone, hperm, hgone⟩ := h.built
    rw [ParCsr.destroy_eq hp]
    cases hmatrix : result.matrix with
    | none =>
      rw [List.filter_cons_of_neg (by simp [hmatrix])] at hperm
      exact ⟨gone, hperm, by simpa using hgone⟩
    | some matrix =>
      rw [List.filter_cons_of_pos (by simp [hmatrix])] at hperm
      refine ⟨gone ++ [result], hperm.trans ?_, ?_⟩
      · rw [← List.append_assoc]
        exact (List.perm_append_singleton ..).symm
      · rw [List.filterMap_append, ← hgone, List.filterMap_cons, List.filterMap_nil,
          ParCsr.destroy_eq hp, hmatrix]
        rfl
  imported := h.imported
  handles := h.handles
  owned := by
    have howned := h.owned
    rw [List.flatMap_cons, List.append_assoc] at howned
    exact (List.nodup_append'.mp howned).2.1
  owned_live r hr := h.owned_live r (List.mem_cons_of_mem _ hr)
  systems s hs a ha := (h.systems s hs a ha).imp_right fun hlive huse => hlive huse.cons
  borrowed r hr := h.borrowed r (List.mem_cons_of_mem _ hr)
  buffers r hr := h.buffers r (List.mem_cons_of_mem _ hr)

/-- What the first record owns is not of the other records or the system matrices. -/
theorem owns_free (h : L.Sound p (result :: records)) {a : ℕ} (ha : a ∈ result.owns) :
    (∀ r ∈ records, a ∉ r.owns) ∧ ∀ s ∈ L.systems, L.InUse records s.addr → a ∉ s.arrays := by
  have howned := h.owned
  rw [List.flatMap_cons, List.append_assoc] at howned
  have hnot := (List.nodup_append'.mp howned).2.2 ha
  refine ⟨fun r hr hmem => hnot ?_, fun s hs _ hmem => hnot ?_⟩
  · exact List.mem_append_left _ (List.mem_flatMap.mpr ⟨r, hr, hmem⟩)
  · exact List.mem_append_right _ (List.mem_flatMap.mpr ⟨s, hs, hmem⟩)

theorem destroy (hp : p.library = .initialized) (h : L.Sound p (result :: records)) :
    (L.destroy p records result).Sound p records := by
  have hhypre := (h.callDestroy hp).free (result.handle.toList ++ result.ownArrays) fun a ha =>
    h.owns_free (List.mem_append_left _ ha)
  have hsystem := hhypre.free (result.systemMatrix.elim [] (L.unused records)) fun a ha => by
    cases hsystem : result.systemMatrix with
    | none =>
      rw [hsystem] at ha
      cases ha
    | some addr =>
      rw [hsystem] at ha
      exact hhypre.unused_free ha
  have hbuffers := hsystem.free result.buffers fun a ha =>
    h.owns_free (List.mem_append_right _ ha)
  rw [Ledger.destroy, ParCsr.destroy_frees hp]
  exact hbuffers

end Sound

/-- The destroyed matrices are those of the records in `gone`. -/
structure Gone (L : Ledger V) (p : Process) (records gone : List ParCsr) : Prop where
  mem_built : ∀ b ∈ L.built, b.record ∈ records ∨ b.record ∈ gone
  records_built : ∀ r ∈ records, r.matrix.isSome → ∃ b ∈ L.built, b.record = r
  gone_built : ∀ r ∈ gone, ∃ b ∈ L.built, b.record = r
  handles : (gone.map ParCsr.handle).Nodup
  apart : ∀ r ∈ records, r.matrix.isSome → r.handle ∉ gone.map ParCsr.handle
  destroyed : L.destroyed = gone.filterMap (·.destroy p)

theorem Sound.exists_gone (h : L.Sound p records) : ∃ gone, L.Gone p records gone := by
  obtain ⟨gone, hperm, hgone⟩ := h.built
  have hmem (r : ParCsr) : (∃ b ∈ L.built, b.record = r) ↔
      r ∈ records ∧ r.matrix.isSome ∨ r ∈ gone := by
    have hr := hperm.mem_iff (a := r)
    rwa [List.mem_map, List.mem_append, List.mem_filter] at hr
  have hhandles : ((records.filter (·.matrix.isSome) ++ gone).map ParCsr.handle).Nodup := by
    refine (hperm.map _).nodup_iff.mp ?_
    rw [List.map_map]
    exact h.handles
  rw [List.map_append] at hhandles
  obtain ⟨-, hnodup, hdisjoint⟩ := List.nodup_append'.mp hhandles
  exact ⟨gone, {
    mem_built := fun b hb => ((hmem _).mp ⟨b, hb, rfl⟩).imp_left And.left
    records_built := fun r hr hmatrix => (hmem r).mpr (.inl ⟨hr, hmatrix⟩)
    gone_built := fun r hr => (hmem r).mpr (.inr hr)
    handles := hnodup
    apart := fun r hr hmatrix =>
      hdisjoint (List.mem_map_of_mem (List.mem_filter.mpr ⟨hr, hmatrix⟩))
    destroyed := hgone }⟩

namespace Gone

variable {gone : List ParCsr}

/-- The destroyed matrices in the order of their destruction. -/
theorem destroyed_handles (hp : p.library = .initialized) (h : L.Gone p records gone) :
    L.destroyed.map ParCsrMatrix.handle = (gone.map ParCsr.handle).reduceOption := by
  rw [h.destroyed, List.map_filterMap, List.reduceOption, List.filterMap_map]
  congr 1
  funext r
  rw [ParCsr.destroy_eq hp]
  cases hmatrix : r.matrix <;> simp [ParCsr.handle, hmatrix]

theorem mem_destroyed_handles (hp : p.library = .initialized) (h : L.Gone p records gone) {a : ℕ} :
    a ∈ L.destroyed.map ParCsrMatrix.handle ↔ some a ∈ gone.map ParCsr.handle := by
  rw [h.destroyed_handles hp, List.reduceOption_mem_iff]

end Gone

end Ledger

end GinkgoTpl.Hypre
