import GinkgoTpl.Memory.Heap

/-!
# Moving Ginkgo's arrays

A `gko::array` keeps its executor once it has one. A move takes over the buffer of the source if
the target has no executor yet or the same one, and otherwise copies it to the target's executor
and frees it, so that a swap of two arrays is not always a swap of their buffers.
-/

namespace GinkgoTpl.Ginkgo

open Memory

variable {B : Type}

/-- What an array stores, by its address and its number of elements. Where there are no elements,
the array has no buffer, and the address stands for a null pointer. -/
structure ArrayData where
  addr : ℕ
  size : ℕ
  deriving DecidableEq

/-- A `gko::array`: default constructed, or on an executor and possibly moved from. -/
inductive GkoArray where
  | unset
  | on (exec : ℕ) (data : Option ArrayData)
  deriving DecidableEq

namespace GkoArray

def data : GkoArray → Option ArrayData
  | unset => none
  | on _ data => data

def buffer (x : GkoArray) : Option ℕ := x.data.map ArrayData.addr

/-- What a move leaves of an array. -/
def movedFrom : GkoArray → GkoArray
  | unset => unset
  | on exec _ => on exec none

/-- There are no elements. -/
def NoElements (data : Option ArrayData) : Prop := ∀ d ∈ data, d.size = 0

instance (data : Option ArrayData) : Decidable (NoElements data) :=
  inferInstanceAs (Decidable (∀ d ∈ data, d.size = 0))

/-- Frees a buffer if there is one. -/
def release (data : Option ArrayData) (h : Heap B) : Heap B :=
  if NoElements data then h else data.elim h fun d => h.free d.addr

/-- A copy of the elements if there are any. -/
def copy (data : Option ArrayData) (h : Heap B) : Option ArrayData × Heap B :=
  if NoElements data then (data, h)
  else
    match data.bind fun d => (h.read d.addr).map fun b => (d.size, b) with
    | some (size, b) => (some ⟨h.next, size⟩, h.alloc b)
    | none => (none, h)

/-- The move assignment: the target and the source after it. -/
def moveAssign (target source : GkoArray) (h : Heap B) : GkoArray × GkoArray × Heap B :=
  match target, source with
  | unset, source => (source, source.movedFrom, h)
  | on exec old, unset => (on exec none, unset, release old h)
  | on exec old, on exec' data =>
    if exec = exec' then (on exec data, on exec' none, release old h)
    else
      let (new, h) := copy data h
      (on exec new, on exec' none, release data (release old h))

/-- `std::swap`: three moves over a temporary. -/
def swap (x y : GkoArray) (h : Heap B) : GkoArray × GkoArray × Heap B :=
  let tmp := x
  let x := x.movedFrom
  let (x, y, h) := moveAssign x y h
  let (y, tmp, h) := moveAssign y tmp h
  (x, y, release tmp.data h)

/-- The arrays have the same executor, or one of them has none, or there is nothing to copy. -/
def Compatible : GkoArray → GkoArray → Prop
  | unset, _ | _, unset => True
  | on exec data, on exec' data' => exec = exec' ∨ NoElements data ∧ NoElements data'

instance : DecidableRel Compatible
  | unset, _ => isTrue trivial
  | on .., unset => isTrue trivial
  | on exec data, on exec' data' =>
    inferInstanceAs (Decidable (exec = exec' ∨ NoElements data ∧ NoElements data'))

theorem noElements_none : NoElements none := by simp [NoElements]

theorem release_none (h : Heap B) : release none h = h := if_pos noElements_none

theorem release_of_noElements {data : Option ArrayData} (hdata : NoElements data) (h : Heap B) :
    release data h = h := if_pos hdata

theorem copy_of_noElements {data : Option ArrayData} (hdata : NoElements data) (h : Heap B) :
    copy data h = (data, h) := if_pos hdata

theorem Compatible.refl (x : GkoArray) : Compatible x x := by
  cases x with
  | unset => trivial
  | on => exact .inl rfl

section
variable {h : Heap B}

theorem release_forgets (data : Option ArrayData) : h.Forgets (release data h) := by
  unfold release
  split
  · exact .refl h
  · cases data with
    | none => exact .refl h
    | some d => exact .free

/-- Elements are freed with their buffer. -/
theorem not_live_release {d : ArrayData} (hd : d.size ≠ 0) :
    ¬ (release (some d) h).Live d.addr := by
  rw [release, if_neg (by simp [NoElements, hd])]
  exact Heap.not_live_free_self

theorem copy_forgets (data : Option ArrayData) : h.Forgets (copy data h).2 := by
  unfold copy
  split
  · exact .refl h
  · split
    · exact .alloc
    · exact .refl h

theorem moveAssign_forgets (x y : GkoArray) : h.Forgets (moveAssign x y h).2.2 := by
  cases x with
  | unset => exact .refl h
  | on exec data =>
    cases y with
    | unset => exact release_forgets _
    | on exec' data' =>
      simp only [moveAssign]
      split
      · exact release_forgets _
      · exact ((copy_forgets _).trans (release_forgets _)).trans (release_forgets _)

theorem swap_forgets (x y : GkoArray) : h.Forgets (swap x y h).2.2 :=
  ((moveAssign_forgets _ _).trans (moveAssign_forgets _ _)).trans (release_forgets _)

/-- If both buffers are still in memory after a swap, the arrays are compatible. -/
theorem compatible_of_swap {x y : GkoArray} (hx : ∀ a ∈ x.buffer, (swap x y h).2.2.Live a)
    (hy : ∀ a ∈ y.buffer, a < h.next ∧ (swap x y h).2.2.Live a) : Compatible x y := by
  cases x with
  | unset => trivial
  | on exec data =>
    cases y with
    | unset => trivial
    | on exec' data' =>
      by_contra hincompatible
      obtain ⟨hexec, hdata⟩ := not_or.mp hincompatible
      simp only [swap, moveAssign, movedFrom, hexec, Ne.symm hexec, if_false, GkoArray.data,
        release_none] at hx hy
      by_cases hempty : NoElements data'
      · obtain ⟨d, rfl, hd⟩ : ∃ d, data = some d ∧ d.size ≠ 0 := by
          have hdata : ¬ NoElements data := fun h => hdata ⟨h, hempty⟩
          simpa [NoElements] using hdata
        exact not_live_release hd (hx d.addr rfl)
      · -- the second buffer is freed by the first of the two assignments
        obtain ⟨d, rfl, hd⟩ : ∃ d, data' = some d ∧ d.size ≠ 0 := by
          simpa [NoElements] using hempty
        obtain ⟨hlt, hlive⟩ := hy d.addr rfl
        have hforgets : (release (some d) (copy (some d) h).2).Forgets _ :=
          (copy_forgets data).trans (release_forgets data)
        have hlt' : d.addr < (release (some d) (copy (some d) h).2).next := Nat.lt_of_lt_of_le hlt
          ((copy_forgets (some d)).trans (release_forgets (some d))).next_le
        exact not_live_release hd (hforgets.live d.addr hlt' hlive)

/-- The same for a swap that happens between two states of the memory. -/
theorem compatible_of_live {x y : GkoArray} {before after : Heap B} (hbefore : before.Forgets h)
    (hafter : (swap x y h).2.2.Forgets after)
    (hlive : ∀ a, a ∈ x.buffer ∨ a ∈ y.buffer → a < before.next ∧ after.Live a) :
    Compatible x y := by
  have hswap (a : ℕ) (ha : a ∈ x.buffer ∨ a ∈ y.buffer) :
      a < h.next ∧ (swap x y h).2.2.Live a := by
    obtain ⟨hlt, hlive⟩ := hlive a ha
    have hlt : a < h.next := Nat.lt_of_lt_of_le hlt hbefore.next_le
    exact ⟨hlt, hafter.live a (Nat.lt_of_lt_of_le hlt (swap_forgets x y).next_le) hlive⟩
  exact compatible_of_swap (fun a ha => (hswap a (.inl ha)).2) fun a ha => hswap a (.inr ha)

end

/-- Compatible arrays swap their buffers, and nothing else happens in memory. -/
theorem swap_of_compatible {x y : GkoArray} (h : Compatible x y) (heap : Heap B) :
    ∃ x' y', swap x y heap = (x', y', heap) ∧ x'.buffer = y.buffer ∧ y'.buffer = x.buffer := by
  cases x with
  | unset =>
    cases y with
    | unset => exact ⟨unset, unset,
        by simp [swap, moveAssign, movedFrom, GkoArray.data, release_none], rfl, rfl⟩
    | on exec' data' => exact ⟨on exec' data', on exec' none,
        by simp [swap, moveAssign, movedFrom, GkoArray.data, release_none], rfl, rfl⟩
  | on exec data =>
    cases y with
    | unset => exact ⟨on exec none, on exec data,
        by simp [swap, moveAssign, movedFrom, GkoArray.data, release_none], rfl, rfl⟩
    | on exec' data' =>
      by_cases hexec : exec = exec'
      · exact ⟨on exec data', on exec' data,
          by simp [swap, moveAssign, movedFrom, GkoArray.data, release_none, hexec], rfl, rfl⟩
      · obtain ⟨hdata, hdata'⟩ := h.resolve_left hexec
        refine ⟨on exec data', on exec' data, ?_, rfl, rfl⟩
        simp [swap, moveAssign, movedFrom, GkoArray.data, release_none, hexec, Ne.symm hexec,
          release_of_noElements hdata, release_of_noElements hdata', copy_of_noElements hdata,
          copy_of_noElements hdata']

end GkoArray

end GinkgoTpl.Ginkgo
