import Mathlib.Data.List.Nodup

/-!
# Heaps of buffers

Memory as a growing list of buffers. An address is the position of its buffer, freeing a buffer
leaves a hole, and addresses are never reused. `Keeps h h'` is the frame condition of code that
only allocates and writes to what it has allocated since `h`.
-/

namespace GinkgoTpl.Memory

structure Heap (B : Type) where
  cells : List (Option B)

namespace Heap

variable {B : Type} {h h' h'' : Heap B} {a a' : ℕ} {b : B}

/-- The address of the next allocation. -/
def next (h : Heap B) : ℕ := h.cells.length

def alloc (h : Heap B) (b : B) : Heap B := ⟨h.cells ++ [some b]⟩

def read (h : Heap B) (a : ℕ) : Option B := h.cells[a]?.join

def write (h : Heap B) (a : ℕ) (b : B) : Heap B := ⟨h.cells.set a (some b)⟩

def free (h : Heap B) (a : ℕ) : Heap B := ⟨h.cells.set a none⟩

/-- There is a buffer at the address. -/
def Live (h : Heap B) (a : ℕ) : Prop := ∃ b, h.read a = some b

def freeAll (h : Heap B) (l : List ℕ) : Heap B := l.foldl free h

/-- Every buffer of `h` is there in `h'`, with the same contents. -/
def Keeps (h h' : Heap B) : Prop := h.cells <+: h'.cells

@[simp] theorem next_alloc : (h.alloc b).next = h.next + 1 := by simp [next, alloc]

@[simp] theorem next_write : (h.write a b).next = h.next := by simp [next, write]

@[simp] theorem read_alloc_next : (h.alloc b).read h.next = some b := by simp [read, alloc, next]

theorem read_alloc_of_lt (ha : a < h.next) : (h.alloc b).read a = h.read a := by
  simp only [read, alloc]
  rw [List.getElem?_append_left ha]

theorem read_write_self (ha : a < h.next) : (h.write a b).read a = some b := by
  simp only [read, write]
  rw [List.getElem?_set_self ha]
  rfl

theorem read_write_of_ne (ha : a' ≠ a) : (h.write a b).read a' = h.read a' := by
  simp only [read, write]
  rw [List.getElem?_set_ne ha.symm]

theorem lt_next_of_read (ha : h.read a = some b) : a < h.next := by
  by_contra hlt
  have : h.cells[a]? = none := List.getElem?_eq_none (Nat.not_lt.mp hlt)
  simp [read, this] at ha

@[simp] theorem next_free : (h.free a).next = h.next := by simp [next, free]

@[simp] theorem next_freeAll (l : List ℕ) : (h.freeAll l).next = h.next := by
  induction l generalizing h with
  | nil => rfl
  | cons a l ih => exact ih.trans next_free

theorem read_free_self : (h.free a).read a = none := by
  simp only [read, free]
  rcases Nat.lt_or_ge a h.cells.length with ha | ha
  · rw [List.getElem?_set_self ha]
    rfl
  · rw [List.set_eq_of_length_le ha, List.getElem?_eq_none ha]
    rfl

theorem read_free_of_ne (ha : a' ≠ a) : (h.free a).read a' = h.read a' := by
  simp only [read, free]
  rw [List.getElem?_set_ne ha.symm]

namespace Live

theorem lt_next (ha : h.Live a) : a < h.next := ha.elim fun _ => lt_next_of_read

theorem alloc_next : (h.alloc b).Live h.next := ⟨b, read_alloc_next⟩

theorem write (ha : h.Live a) : (h.write a' b).Live a := by
  rcases eq_or_ne a a' with rfl | hne
  · exact ⟨b, read_write_self ha.lt_next⟩
  · exact ha.elim fun b' hb' => ⟨b', (read_write_of_ne hne).trans hb'⟩

theorem free (ha : h.Live a) (hne : a ≠ a') : (h.free a').Live a :=
  ha.elim fun b' hb' => ⟨b', (read_free_of_ne hne).trans hb'⟩

theorem freeAll {l : List ℕ} (ha : h.Live a) (hl : a ∉ l) : (h.freeAll l).Live a := by
  induction l generalizing h with
  | nil => exact ha
  | cons a' l ih =>
    rw [List.mem_cons, not_or] at hl
    exact ih (ha.free hl.1) hl.2

end Live

namespace Keeps

theorem refl (h : Heap B) : Keeps h h := List.prefix_rfl

theorem trans (h₁ : Keeps h h') (h₂ : Keeps h' h'') : Keeps h h'' := List.IsPrefix.trans h₁ h₂

theorem next_le (hk : Keeps h h') : h.next ≤ h'.next := hk.length_le

theorem read (hk : Keeps h h') (ha : h.read a = some b) : h'.read a = some b := by
  obtain ⟨t, ht⟩ := hk
  have hlt := lt_next_of_read ha
  rw [← ha]
  simp only [Heap.read, ← ht]
  rw [List.getElem?_append_left hlt]

theorem live (hk : Keeps h h') (ha : h.Live a) : h'.Live a := ha.elim fun b hb => ⟨b, hk.read hb⟩

theorem alloc (hk : Keeps h h') : Keeps h (h'.alloc b) := hk.trans (List.prefix_append ..)

/-- Writing to what has been allocated since `h` does not touch the buffers of `h`. -/
theorem write (hk : Keeps h h') (ha : h.next ≤ a) : Keeps h (h'.write a b) := by
  obtain ⟨t, ht⟩ := hk
  simp only [Keeps, Heap.write, ← ht]
  rw [List.set_append_right _ _ ha]
  exact List.prefix_append ..

/-- The same write to both memories. -/
theorem write_both (hk : Keeps h h') (ha : a < h.next) : Keeps (h.write a b) (h'.write a b) := by
  obtain ⟨t, ht⟩ := hk
  simp only [Keeps, Heap.write, ← ht]
  rw [List.set_append_left _ _ ha]
  exact List.prefix_append ..

end Keeps

theorem not_live_free_self : ¬ (h.free a).Live a := by
  rintro ⟨b, hread⟩
  rw [read_free_self] at hread
  cases hread

/-- What is not in memory in `h` does not come back. -/
structure Forgets (h h' : Heap B) : Prop where
  next_le : h.next ≤ h'.next
  live : ∀ a < h.next, h'.Live a → h.Live a

namespace Forgets

theorem refl (h : Heap B) : Forgets h h := ⟨Nat.le_refl _, fun _ _ ha => ha⟩

theorem trans (h₁ : Forgets h h') (h₂ : Forgets h' h'') : Forgets h h'' :=
  ⟨Nat.le_trans h₁.next_le h₂.next_le,
    fun a ha hlive => h₁.live a ha (h₂.live a (Nat.lt_of_lt_of_le ha h₁.next_le) hlive)⟩

theorem alloc : Forgets h (h.alloc b) where
  next_le := by simp
  live a ha hlive := hlive.imp fun _ hread => (read_alloc_of_lt ha).symm.trans hread

theorem free : Forgets h (h.free a) where
  next_le := by simp
  live a' _ hlive := by
    rcases eq_or_ne a' a with rfl | hne
    · exact (not_live_free_self hlive).elim
    · exact hlive.imp fun _ hread => (read_free_of_ne hne).symm.trans hread

end Forgets

/-- From `h` to `h'` the addresses in `l` have been allocated, and the buffers of `h` are kept. -/
structure Allocates (h h' : Heap B) (l : List ℕ) : Prop where
  keeps : h.Keeps h'
  nodup : l.Nodup
  fresh : ∀ a ∈ l, h.next ≤ a
  live : ∀ a ∈ l, h'.Live a

namespace Allocates

variable {l l' : List ℕ}

theorem refl (h : Heap B) : Allocates h h [] := ⟨.refl h, .nil, by simp, by simp⟩

theorem alloc : Allocates h (h.alloc b) [h.next] :=
  ⟨(Keeps.refl h).alloc, List.nodup_singleton _, by simp, by simp [Live.alloc_next]⟩

theorem trans (h₁ : Allocates h h' l) (h₂ : Allocates h' h'' l') :
    Allocates h h'' (l ++ l') where
  keeps := h₁.keeps.trans h₂.keeps
  nodup := List.nodup_append'.mpr ⟨h₁.nodup, h₂.nodup, fun a ha ha' =>
    Nat.lt_irrefl a (Nat.lt_of_lt_of_le (h₁.live a ha).lt_next (h₂.fresh a ha'))⟩
  fresh a ha := (List.mem_append.mp ha).elim (h₁.fresh a)
    fun ha => Nat.le_trans h₁.keeps.next_le (h₂.fresh a ha)
  live a ha := (List.mem_append.mp ha).elim (fun ha => h₂.keeps.live (h₁.live a ha)) (h₂.live a)

theorem perm (hl : Allocates h h' l) (hperm : l.Perm l') : Allocates h h' l' :=
  ⟨hl.keeps, hperm.nodup_iff.mp hl.nodup, fun a ha => hl.fresh a (hperm.mem_iff.mpr ha),
    fun a ha => hl.live a (hperm.mem_iff.mpr ha)⟩

end Allocates

/-- From `h` to `h'` only buffers at the addresses in `l` have changed. -/
def Frame (h h' : Heap B) (l : List ℕ) : Prop := ∀ a ∉ l, h'.read a = h.read a

namespace Frame

variable {l l' : List ℕ}

theorem refl (h : Heap B) (l : List ℕ) : Frame h h l := fun _ _ => rfl

theorem trans (h₁ : Frame h h' l) (h₂ : Frame h' h'' l) : Frame h h'' l := fun a ha =>
  (h₂ a ha).trans (h₁ a ha)

theorem mono (h₁ : Frame h h' l) (hl : l ⊆ l') : Frame h h' l' := fun a ha =>
  h₁ a fun hmem => ha (hl hmem)

theorem write : Frame h (h.write a b) [a] := fun _ ha =>
  read_write_of_ne (List.ne_of_not_mem_cons ha)

end Frame

end Heap

end GinkgoTpl.Memory
