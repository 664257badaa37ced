import Mathlib.Data.List.Nodup
import GinkgoTpl.Transition.Throwing

/-!
# Who frees the arrays of a product

`AcCsr::apply_impl` and `SpeckCsr::apply_impl` of `spgemm/`: Ginkgo's arrays are lent to the
library in `dCSR` objects, whose destructors free every pointer they still hold, and the library's
arrays for the product become those of `x`. The main result is `keepsMemory_iff`: the exits at
which no array is freed by the wrong owner, or twice.
-/

namespace GinkgoTpl.Spgemm

open Transition

/-- The arrays of a `Csr`; `none` is a null pointer. -/
structure CsrArrays where
  rowPtrs : Option ℕ
  colIdxs : Option ℕ
  values : Option ℕ

/-- A `dCSR` of the libraries, as far as it owns memory. -/
structure DCsr where
  rowOffsets : Option ℕ
  colIds : Option ℕ
  data : Option ℕ

/-- The two arrays of a result that are replaced. -/
inductive Slot where
  | colIdxs
  | values
  deriving DecidableEq

namespace CsrArrays

def array (m : CsrArrays) : Slot → Option ℕ
  | .colIdxs => m.colIdxs
  | .values => m.values

def set (m : CsrArrays) (array : Option ℕ) : Slot → CsrArrays
  | .colIdxs => { m with colIdxs := array }
  | .values => { m with values := array }

def pointers (m : CsrArrays) : List ℕ := m.rowPtrs.toList ++ m.colIdxs.toList ++ m.values.toList

/-- How many of the replaceable arrays are at an address. -/
def owned (m : CsrArrays) (p : ℕ) : ℕ := [m.colIdxs, m.values].count (some p)

end CsrArrays

namespace DCsr

def null : DCsr := ⟨none, none, none⟩

/-- The arrays of a `Csr`, lent. -/
def of (m : CsrArrays) : DCsr := ⟨m.rowPtrs, m.colIdxs, m.values⟩

def array (w : DCsr) : Slot → Option ℕ
  | .colIdxs => w.colIds
  | .values => w.data

/-- What the destructor frees. -/
def pointers (w : DCsr) : List ℕ := w.rowOffsets.toList ++ w.colIds.toList ++ w.data.toList

end DCsr

/-- What an array is copied into: the memory of the target, if that has the same size, or else new
memory, for which the target frees its own. -/
inductive Target where
  | own
  | new (array : Option ℕ)

/-- How Ginkgo assigns a temporary array: on the same executor the target takes over its memory and
frees its own; between two executors the values are copied, which may throw in the end. The
temporary frees what it still has. -/
inductive Assigned (ε : Type) where
  | moved
  | copied (target : Target)
  | threw (target : Target) (e : ε)

/-- The array that is allocated for the copy. -/
def Target.allocated : Target → List ℕ
  | own => []
  | new array => array.toList

def Assigned.allocated {ε : Type} : Assigned ε → List ℕ
  | moved => []
  | copied target | threw target _ => target.allocated

/-- The arrays of a call, and what Ginkgo and the library do in it. -/
structure Call (ε : Type) where
  this : CsrArrays
  b : CsrArrays
  x : CsrArrays
  /-- The executor is a device, `b` and `x` are of the type `Csr`. -/
  casts : Except ε Unit
  rowOffsets : Except ε ℕ
  /-- The arrays that the library allocates for the product, also when it throws in the end. -/
  product : Slot → Option ℕ
  multiply : Except ε Unit
  construct : Slot → Except ε Unit
  assign : Slot → Assigned ε
  copy : Except ε Unit
  nodup : (rowOffsets.toOption.toList ++
    ((product .colIdxs).toList ++ (product .values).toList)).Nodup
  fresh : ∀ p ∈ rowOffsets.toOption.toList ++
    ((product .colIdxs).toList ++ (product .values).toList),
    p ∉ this.pointers ++ b.pointers ++ x.pointers
  /-- The copies are not made over the library's arrays, which are still there. -/
  apart : ∀ p ∈ rowOffsets.toOption.toList ++
    ((product .colIdxs).toList ++ (product .values).toList),
    ∀ slot, p ∉ (assign slot).allocated

/-- The objects of a call. -/
structure Frame where
  thisWrap : DCsr
  bWrap : DCsr
  xWrap : DCsr
  x : CsrArrays
  /-- The addresses that have been freed, in this order. -/
  freed : List ℕ
  /-- The temporary row offsets and the arrays of the product that have been allocated. -/
  rowOffsets : List ℕ
  products : List ℕ

def Call.start {ε : Type} (c : Call ε) : Frame := ⟨.null, .null, .null, c.x, [], [], []⟩

/-! ## The calls -/

section
variable {ε : Type}

def lend (c : Call ε) (f : Frame) : Frame := { f with thisWrap := .of c.this, bWrap := .of c.b }

def allocRowOffsets (c : Call ε) : EStateM ε Frame Unit := do
  let p ← MonadExcept.ofExcept c.rowOffsets
  modify fun f => { f with xWrap := { f.xWrap with rowOffsets := some p }, rowOffsets := [p] }

/-- The multiplication, which puts its arrays into `x_wrap` as far as it gets. -/
def multiply (c : Call ε) : EStateM ε Frame Unit := do
  modify fun f => { f with
    xWrap := { f.xWrap with colIds := c.product .colIdxs, data := c.product .values }
    products := (c.product .colIdxs).toList ++ (c.product .values).toList }
  MonadExcept.ofExcept c.multiply

/-- Gives `x` an array for the one that it has, which is freed. -/
def Frame.replace (array : Option ℕ) (slot : Slot) (f : Frame) : Frame :=
  { f with x := f.x.set array slot, freed := f.freed ++ (f.x.array slot).toList }

/-- Copies an array of `x_wrap`, which the temporary array frees after that. -/
def Frame.copyInto (target : Target) (slot : Slot) (f : Frame) : Frame :=
  let g := match target with
    | .own => f
    | .new array => f.replace array slot
  { g with freed := g.freed ++ (f.xWrap.array slot).toList }

/-- Makes an array of `x_wrap` an array of `x`: a temporary array takes it and is assigned. -/
def handOver (c : Call ε) (slot : Slot) : EStateM ε Frame Unit := do
  MonadExcept.ofExcept (c.construct slot)
  match c.assign slot with
  | .moved => modify fun f => f.replace (f.xWrap.array slot) slot
  | .copied target => modify (·.copyInto target slot)
  | .threw target e => do
    modify (·.copyInto target slot)
    throw e

/-- The block that prevents data from being deleted. -/
def disarm (f : Frame) : Frame :=
  { f with thisWrap := .null, bWrap := .null, xWrap := ⟨f.xWrap.rowOffsets, none, none⟩ }

/-- The destructors of the three `dCSR` objects. -/
def destroyWraps (f : Frame) : Frame :=
  { f with freed := f.freed ++ (f.xWrap.pointers ++ (f.bWrap.pointers ++ f.thisWrap.pointers)) }

/-- The statements between the construction and the destruction of the `dCSR` objects. -/
def product (configuration : Except ε Unit) (c : Call ε) : EStateM ε Frame Unit := do
  modify (lend c)
  allocRowOffsets c
  MonadExcept.ofExcept configuration
  multiply c
  handOver c .colIdxs
  handOver c .values
  MonadExcept.ofExcept c.copy
  modify disarm

def applyImpl (configuration : Except ε Unit) (c : Call ε) : EStateM ε Frame Unit := do
  MonadExcept.ofExcept c.casts
  ensuring (product configuration c) destroyWraps

/-- `AcCsr::apply_impl`, whose traits and statistics are plain values. -/
def AcCsr.applyImpl (c : Call ε) : EStateM ε Frame Unit := Spgemm.applyImpl (.ok ()) c

/-- `SpeckCsr::apply_impl`, which asks the library for a configuration. -/
def SpeckCsr.applyImpl (configuration : Except ε Unit) (c : Call ε) : EStateM ε Frame Unit :=
  Spgemm.applyImpl configuration c

/-! ## Exits -/

/-- No array of this matrix or `b` has been freed, each array of the product belongs to `x` once or
has been freed once, and the temporary row offsets have been freed once. -/
structure KeepsMemory (c : Call ε) (f : Frame) : Prop where
  operands : ∀ p ∈ c.this.pointers ++ c.b.pointers, p ∉ f.freed
  products : ∀ p ∈ f.products, f.x.owned p + f.freed.count p = 1
  rowOffsets : ∀ p ∈ f.rowOffsets, f.freed.count p = 1

/-- Where a call is left. -/
inductive Exit where
  | beforeWraps
  /-- By an exception, after these arrays of the product have been given to temporary arrays. -/
  | thrown (handed : List Slot)
  | returned

def throws {α : Type} : Except ε α → Bool
  | .ok _ => false
  | .error _ => true

def Assigned.throws : Assigned ε → Bool
  | threw .. => true
  | _ => false

/-- The target gives up its own array. -/
def Assigned.Replaces (assigned : Assigned ε) : Prop :=
  assigned = moved ∨ ∃ array, assigned = copied (.new array) ∨ ∃ e, assigned = threw (.new array) e

def Call.exit (configuration : Except ε Unit) (c : Call ε) : Exit :=
  if throws c.casts then .beforeWraps
  else if throws c.rowOffsets || throws configuration || throws c.multiply ||
      throws (c.construct .colIdxs) then .thrown []
  else if (c.assign .colIdxs).throws || throws (c.construct .values) then .thrown [.colIdxs]
  else if (c.assign .values).throws || throws c.copy then .thrown [.colIdxs, .values]
  else .returned

/-- The array at `p` was one of `x` and has been replaced in the assignment of one of these. -/
def Call.Replaces (c : Call ε) (handed : List Slot) (p : ℕ) : Prop :=
  ∃ slot ∈ handed, (c.assign slot).Replaces ∧ c.x.array slot = some p

/-- The exits that leave all memory to its owners: before the arrays are lent; by an exception if
there were none to lend, and none of the product has been given away; and a return, unless an
array that `x` gives up is also one of this matrix or `b`. -/
def Harmless (configuration : Except ε Unit) (c : Call ε) : Prop :=
  match c.exit configuration with
  | .beforeWraps => True
  | .thrown handed =>
    c.this.pointers = [] ∧ c.b.pointers = [] ∧ ∀ slot ∈ handed, c.product slot = none
  | .returned => ∀ p ∈ c.this.pointers ++ c.b.pointers, ¬ c.Replaces [.colIdxs, .values] p

end

/-! ## The arrays of the product on their way -/

theorem CsrArrays.array_mem_pointers {m : CsrArrays} {slot : Slot} {p : ℕ}
    (h : m.array slot = some p) : p ∈ m.pointers := by
  cases slot <;> simp_all [array, pointers]

theorem CsrArrays.owned_set (m : CsrArrays) (array : Option ℕ) (slot : Slot) (p : ℕ) :
    (m.set array slot).owned p + (m.array slot).toList.count p =
      m.owned p + array.toList.count p := by
  have hcount : ∀ o : Option ℕ, o.toList.count p = [o].count (some p) := fun o => by
    cases o <;> simp [List.count_singleton]
  have hpair : ∀ o o' : Option ℕ, [o, o'].count (some p) = [o].count (some p) +
      [o'].count (some p) := fun o o' => by rw [← List.count_append, List.singleton_append]
  cases slot <;> simp only [set, owned, CsrArrays.array, hcount, hpair] <;> omega

/-- The state of a call while the library's objects hold their pointers: `offset` are the row
offsets, `product` the arrays of the product, and those in `handed` have been given away. -/
structure Armed {ε : Type} (c : Call ε) (offset : Option ℕ) (product : Slot → Option ℕ)
    (handed : List Slot) (f : Frame) : Prop where
  thisWrap : f.thisWrap = .of c.this
  bWrap : f.bWrap = .of c.b
  xWrap : f.xWrap = ⟨offset, product .colIdxs, product .values⟩
  rowOffsets : f.rowOffsets = offset.toList
  products : f.products = (product .colIdxs).toList ++ (product .values).toList
  nodup : (f.rowOffsets ++ f.products).Nodup
  fresh : ∀ p ∈ f.rowOffsets ++ f.products,
    p ∉ c.this.pointers ++ c.b.pointers ++ c.x.pointers
  apart : ∀ p ∈ f.rowOffsets ++ f.products, ∀ slot, p ∉ (c.assign slot).allocated
  x_old : ∀ slot ∉ handed, f.x.array slot = c.x.array slot
  given : ∀ p ∈ f.products,
    f.x.owned p + f.freed.count p = (handed.map product).count (some p)
  kept : ∀ p ∈ f.rowOffsets, p ∉ f.freed
  operands : ∀ p ∈ c.this.pointers ++ c.b.pointers, p ∈ f.freed ↔ c.Replaces handed p

/-- The state after the arrays of this matrix and `b` have been lent, with these new arrays. -/
def lent {ε : Type} (c : Call ε) (offset : Option ℕ) (product : Slot → Option ℕ) : Frame where
  thisWrap := .of c.this
  bWrap := .of c.b
  xWrap := ⟨offset, product .colIdxs, product .values⟩
  x := c.x
  freed := []
  rowOffsets := offset.toList
  products := (product .colIdxs).toList ++ (product .values).toList

namespace Armed

variable {ε : Type} {c : Call ε} {offset : Option ℕ} {product : Slot → Option ℕ}
  {handed : List Slot} {f : Frame} {slot : Slot} {p : ℕ}

theorem xWrap_array (h : Armed c offset product handed f) :
    f.xWrap.array slot = product slot := by
  rw [h.xWrap]
  cases slot <;> rfl

theorem product_mem (h : Armed c offset product handed f) (hp : product slot = some p) :
    p ∈ f.products := by
  rw [h.products]
  cases slot <;> simp [hp]

theorem not_mem_operands (h : Armed c offset product handed f)
    (hp : p ∈ c.this.pointers ++ c.b.pointers) : p ∉ f.rowOffsets ++ f.products := fun hmem =>
  h.fresh p hmem (List.mem_append_left _ hp)

theorem x_array_ne (h : Armed c offset product handed f) (hslot : slot ∉ handed)
    (hp : p ∈ f.rowOffsets ++ f.products) : f.x.array slot ≠ some p := fun heq =>
  h.fresh p hp (List.mem_append_right _
    (CsrArrays.array_mem_pointers ((h.x_old slot hslot).symm.trans heq)))

theorem replaces_append :
    c.Replaces (handed ++ [slot]) p ↔
      c.Replaces handed p ∨ (c.assign slot).Replaces ∧ c.x.array slot = some p := by
  simp only [Call.Replaces, List.mem_append, List.mem_singleton, or_and_right, exists_or,
    exists_eq_left]

theorem count_append (product : Slot → Option ℕ) (handed : List Slot) (slot : Slot) (p : ℕ) :
    ((handed ++ [slot]).map product).count (some p) =
      (handed.map product).count (some p) + (product slot).toList.count p := by
  rw [List.map_append, List.count_append]
  cases h : product slot <;> simp [h, List.count_singleton]

theorem set_array_of_ne (m : CsrArrays) (array : Option ℕ) {slot slot' : Slot} (h : slot' ≠ slot) :
    (m.set array slot).array slot' = m.array slot' := by
  cases slot <;> cases slot' <;> first | rfl | exact absurd rfl h

/-- The row offsets are not freed with the array that `x` gives up. -/
theorem kept_replace (h : Armed c offset product handed f) (hslot : slot ∉ handed)
    (hp : p ∈ f.rowOffsets) (array : Option ℕ) : p ∉ (f.replace array slot).freed := by
  rw [Frame.replace, List.mem_append, not_or, Option.mem_toList]
  exact ⟨h.kept p hp, h.x_array_ne hslot (List.mem_append_left _ hp)⟩

theorem not_product (h : Armed c offset product handed f) (hp : p ∈ f.rowOffsets) :
    product slot ≠ some p := fun heq =>
  (List.nodup_append.mp h.nodup).2.2 p hp p (h.product_mem heq) rfl

/-- An array of the product becomes one of `x`. -/
theorem moved (h : Armed c offset product handed f) (hslot : slot ∉ handed)
    (hmoved : c.assign slot = .moved) :
    Armed c offset product (handed ++ [slot]) (f.replace (f.xWrap.array slot) slot) where
  thisWrap := h.thisWrap
  bWrap := h.bWrap
  xWrap := h.xWrap
  rowOffsets := h.rowOffsets
  products := h.products
  nodup := h.nodup
  fresh := h.fresh
  apart := h.apart
  x_old slot' hslot' := by
    rw [List.mem_append, not_or, List.mem_singleton] at hslot'
    rw [← h.x_old slot' hslot'.1]
    exact set_array_of_ne _ _ hslot'.2
  given p hp := by
    have hset := f.x.owned_set (f.xWrap.array slot) slot p
    have hgiven := h.given p hp
    simp only [Frame.replace]
    rw [count_append, List.count_append, ← hgiven]
    rw [h.xWrap_array] at hset ⊢
    omega
  kept p hp := h.kept_replace hslot hp _
  operands p hp := by
    have hreplaces : (c.assign slot).Replaces := .inl hmoved
    simp only [Frame.replace]
    rw [replaces_append, List.mem_append, h.operands p hp, Option.mem_toList, h.x_old slot hslot]
    simp [hreplaces]

/-- An array of the product is copied over the array of `x`, and freed. -/
theorem copiedOver (h : Armed c offset product handed f) (hassign : ¬ (c.assign slot).Replaces) :
    Armed c offset product (handed ++ [slot]) (f.copyInto .own slot) where
  thisWrap := h.thisWrap
  bWrap := h.bWrap
  xWrap := h.xWrap
  rowOffsets := h.rowOffsets
  products := h.products
  nodup := h.nodup
  fresh := h.fresh
  apart := h.apart
  x_old slot' hslot' := h.x_old slot' fun hmem => hslot' (List.mem_append_left _ hmem)
  given p hp := by
    have hgiven := h.given p hp
    simp only [Frame.copyInto]
    rw [count_append, List.count_append, ← hgiven, h.xWrap_array]
    omega
  kept p hp := by
    simp only [Frame.copyInto]
    rw [List.mem_append, not_or, Option.mem_toList, h.xWrap_array]
    exact ⟨h.kept p hp, h.not_product hp⟩
  operands p hp := by
    simp only [Frame.copyInto]
    rw [replaces_append, List.mem_append, h.operands p hp, Option.mem_toList, h.xWrap_array]
    have hnot : product slot ≠ some p := fun heq =>
      h.not_mem_operands hp (List.mem_append_right _ (h.product_mem heq))
    simp [hassign, hnot]

/-- An array of the product is copied into a new array of `x`, and freed with the old one. -/
theorem copiedNew (h : Armed c offset product handed f) (hslot : slot ∉ handed)
    {array : Option ℕ} (hreplaces : (c.assign slot).Replaces)
    (hallocated : (c.assign slot).allocated = array.toList) :
    Armed c offset product (handed ++ [slot]) (f.copyInto (.new array) slot) where
  thisWrap := h.thisWrap
  bWrap := h.bWrap
  xWrap := h.xWrap
  rowOffsets := h.rowOffsets
  products := h.products
  nodup := h.nodup
  fresh := h.fresh
  apart := h.apart
  x_old slot' hslot' := by
    rw [List.mem_append, not_or, List.mem_singleton] at hslot'
    rw [← h.x_old slot' hslot'.1]
    exact set_array_of_ne _ _ hslot'.2
  given p hp := by
    have hset := f.x.owned_set array slot p
    have hgiven := h.given p hp
    have hnew : array.toList.count p = 0 := List.count_eq_zero.mpr fun hmem =>
      h.apart p (List.mem_append_right _ hp) slot (hallocated ▸ hmem)
    simp only [Frame.copyInto, Frame.replace]
    rw [count_append, List.count_append, List.count_append, ← hgiven, h.xWrap_array]
    omega
  kept p hp := by
    have hkept := h.kept_replace hslot hp array
    simp only [Frame.copyInto]
    rw [List.mem_append, not_or, Option.mem_toList, h.xWrap_array]
    exact ⟨hkept, h.not_product hp⟩
  operands p hp := by
    have hnot : product slot ≠ some p := fun heq =>
      h.not_mem_operands hp (List.mem_append_right _ (h.product_mem heq))
    simp only [Frame.copyInto, Frame.replace]
    rw [replaces_append, List.mem_append, List.mem_append, h.operands p hp, Option.mem_toList,
      Option.mem_toList, h.xWrap_array, h.x_old slot hslot]
    simp [hreplaces, hnot]

/-- In both cases the array of the product has been given away. -/
theorem copied (h : Armed c offset product handed f) (hslot : slot ∉ handed) {target : Target}
    (hassign : c.assign slot = .copied target ∨ ∃ e, c.assign slot = .threw target e) :
    Armed c offset product (handed ++ [slot]) (f.copyInto target slot) := by
  cases target with
  | own =>
    refine h.copiedOver ?_
    rcases hassign with heq | ⟨e, heq⟩ <;> simp [Assigned.Replaces, heq]
  | new array =>
    refine h.copiedNew hslot ?_ ?_
    · rcases hassign with heq | ⟨e, heq⟩
      · exact .inr ⟨array, .inl heq⟩
      · exact .inr ⟨array, .inr ⟨e, heq⟩⟩
    · rcases hassign with heq | ⟨e, heq⟩ <;> rw [heq] <;> rfl

/-- Nothing has been given away before the first array of the product. -/
theorem ofLent (c : Call ε) {offset : Option ℕ} {product : Slot → Option ℕ}
    (hnew : (offset.toList ++ ((product .colIdxs).toList ++ (product .values).toList)).Sublist
      (c.rowOffsets.toOption.toList ++
        ((c.product .colIdxs).toList ++ (c.product .values).toList))) :
    Armed c offset product [] (lent c offset product) where
  thisWrap := rfl
  bWrap := rfl
  xWrap := rfl
  rowOffsets := rfl
  products := rfl
  nodup := c.nodup.sublist hnew
  fresh p hp := c.fresh p (hnew.subset hp)
  apart p hp := c.apart p (hnew.subset hp)
  x_old _ _ := rfl
  given p hp := by
    have hnot := c.fresh p (hnew.subset (List.mem_append_right _ hp))
    refine List.count_eq_zero.mpr fun hmem => hnot (List.mem_append_right _ ?_)
    simp only [lent, List.mem_cons, List.not_mem_nil, or_false] at hmem
    rcases hmem with h | h
    · have harray : c.x.array .colIdxs = some p := h.symm
      exact CsrArrays.array_mem_pointers harray
    · have harray : c.x.array .values = some p := h.symm
      exact CsrArrays.array_mem_pointers harray
  kept _ _ := List.not_mem_nil
  operands p _ := by simp [lent, Call.Replaces]

/-! ### The ends of a call -/

theorem xWrap_pointers (h : Armed c offset product handed f) :
    f.xWrap.pointers = f.rowOffsets ++ f.products := by
  rw [h.xWrap, h.rowOffsets, h.products, DCsr.pointers, List.append_assoc]

theorem destroyWraps_freed (h : Armed c offset product handed f) :
    (destroyWraps f).freed =
      f.freed ++ (f.rowOffsets ++ f.products ++ (c.b.pointers ++ c.this.pointers)) := by
  rw [destroyWraps, h.xWrap_pointers, h.bWrap, h.thisWrap]
  rfl

theorem count_new (h : Armed c offset product handed f) (hp : p ∈ f.rowOffsets ++ f.products) :
    (f.rowOffsets ++ f.products).count p = 1 := List.count_eq_one_of_mem h.nodup hp

/-- An exception frees whatever the library's objects hold. -/
theorem thrown_iff (h : Armed c offset product handed f) :
    KeepsMemory c (destroyWraps f) ↔
      c.this.pointers = [] ∧ c.b.pointers = [] ∧ ∀ slot ∈ handed, product slot = none := by
  have hfreed := h.destroyWraps_freed
  constructor
  · intro hkeeps
    have hnone : ∀ p ∈ c.this.pointers ++ c.b.pointers, False := fun p hp =>
      hkeeps.operands p hp (by
        rw [hfreed]
        exact List.mem_append_right _ (List.mem_append_right _
          (List.mem_append.mpr (List.mem_append.mp hp).symm)))
    refine ⟨List.eq_nil_iff_forall_not_mem.mpr fun p hp => hnone p (List.mem_append_left _ hp),
      List.eq_nil_iff_forall_not_mem.mpr fun p hp => hnone p (List.mem_append_right _ hp),
      fun slot hslot => Option.eq_none_iff_forall_ne_some.mpr fun p hp => ?_⟩
    -- given away once and freed once more
    have hmem := h.product_mem hp
    have hgiven := h.given p hmem
    have hpos : 0 < (handed.map product).count (some p) :=
      List.count_pos_iff.mpr (hp ▸ List.mem_map_of_mem hslot)
    have hnew := h.count_new (List.mem_append_right _ hmem)
    have hone : f.x.owned p + (destroyWraps f).freed.count p = 1 := hkeeps.products p hmem
    rw [hfreed, List.count_append, List.count_append, hnew] at hone
    omega
  · rintro ⟨hthis, hb, hhanded⟩
    have hcount : ∀ p ∈ f.rowOffsets ++ f.products,
        (destroyWraps f).freed.count p = f.freed.count p + 1 := by
      intro p hp
      rw [hfreed, hthis, hb, List.append_nil, List.append_nil, List.count_append, h.count_new hp]
    refine ⟨fun p hp => by simp [hthis, hb] at hp, fun p hp => ?_, fun p hp => ?_⟩
    · have hgiven := h.given p hp
      have hzero : (handed.map product).count (some p) = 0 := by
        refine List.count_eq_zero.mpr fun hmem => ?_
        obtain ⟨slot, hslot, heq⟩ := List.mem_map.mp hmem
        rw [hhanded slot hslot] at heq
        cases heq
      show f.x.owned p + (destroyWraps f).freed.count p = 1
      rw [hcount p (List.mem_append_right _ hp)]
      omega
    · rw [hcount p (List.mem_append_left _ hp), List.count_eq_zero.mpr (h.kept p hp)]

/-- A return frees the row offsets, and what `x` has given up is already freed. -/
theorem returned_iff (h : Armed c offset product [.colIdxs, .values] f) :
    KeepsMemory c (destroyWraps (disarm f)) ↔
      ∀ p ∈ c.this.pointers ++ c.b.pointers, ¬ c.Replaces [.colIdxs, .values] p := by
  have hfreed : (destroyWraps (disarm f)).freed = f.freed ++ f.rowOffsets := by
    simp [destroyWraps, disarm, DCsr.pointers, DCsr.null, h.xWrap, h.rowOffsets]
  have hdisjoint := (List.nodup_append.mp h.nodup).2.2
  constructor
  · intro hkeeps p hp hreplaces
    refine hkeeps.operands p hp ?_
    rw [hfreed]
    exact List.mem_append_left _ ((h.operands p hp).mpr hreplaces)
  · intro hnot
    refine ⟨fun p hp => ?_, fun p hp => ?_, fun p hp => ?_⟩
    · rw [hfreed, List.mem_append, not_or, h.operands p hp]
      exact ⟨hnot p hp, fun hmem => h.not_mem_operands hp (List.mem_append_left _ hmem)⟩
    · have hgiven := h.given p hp
      have hcount : ([Slot.colIdxs, .values].map product).count (some p) = f.products.count p := by
        rw [show [Slot.colIdxs, .values] = [] ++ [.colIdxs] ++ [.values] from rfl, count_append,
          count_append, h.products, List.count_append]
        simp
      have hone : f.products.count p = 1 :=
        List.count_eq_one_of_mem (List.nodup_append.mp h.nodup).2.1 hp
      have hzero : f.rowOffsets.count p = 0 :=
        List.count_eq_zero.mpr fun hmem => hdisjoint p hmem p hp rfl
      show f.x.owned p + (destroyWraps (disarm f)).freed.count p = 1
      rw [hfreed, List.count_append]
      omega
    · have hone : f.rowOffsets.count p = 1 :=
        List.count_eq_one_of_mem (List.nodup_append.mp h.nodup).1 hp
      rw [hfreed, List.count_append, List.count_eq_zero.mpr (h.kept p hp), hone]

end Armed

/-! ## Runs -/

section
variable {ε : Type} {c : Call ε} {offset : Option ℕ} {handed : List Slot} {f : Frame}
  {product' : Slot → Option ℕ}

theorem ofExcept_ends (y : Except ε Unit) (f : Frame) :
    Ends (MonadExcept.ofExcept y : EStateM ε Frame Unit) f
      (fun _ f' => throws y = false ∧ f' = f) (fun f' => throws y ∧ f' = f) := by
  cases y <;> exact ⟨rfl, rfl⟩

theorem allocRowOffsets_ends (c : Call ε) :
    Ends (allocRowOffsets c) (lent c none fun _ => none)
      (fun _ f => throws c.rowOffsets = false ∧
        f = lent c c.rowOffsets.toOption fun _ => none)
      (fun f => throws c.rowOffsets ∧ f = lent c none fun _ => none) := by
  cases h : c.rowOffsets with
  | ok p => rw [allocRowOffsets, h]; exact ⟨rfl, rfl⟩
  | error e => rw [allocRowOffsets, h]; exact ⟨rfl, rfl⟩

theorem multiply_ends (c : Call ε) (offset : Option ℕ) :
    Ends (multiply c) (lent c offset fun _ => none)
      (fun _ f => throws c.multiply = false ∧ f = lent c offset c.product)
      (fun f => throws c.multiply ∧ f = lent c offset c.product) := by
  cases h : c.multiply with
  | ok p => rw [multiply, h]; exact ⟨rfl, rfl⟩
  | error e => rw [multiply, h]; exact ⟨rfl, rfl⟩

theorem handOver_ends {slot : Slot} (h : Armed c offset product' handed f)
    (hslot : slot ∉ handed) :
    Ends (handOver c slot) f
      (fun _ f => throws (c.construct slot) = false ∧ (c.assign slot).throws = false ∧
        Armed c offset product' (handed ++ [slot]) f)
      (fun f => throws (c.construct slot) ∧ Armed c offset product' handed f ∨
        throws (c.construct slot) = false ∧ (c.assign slot).throws ∧
          Armed c offset product' (handed ++ [slot]) f) := by
  cases hnew : c.construct slot with
  | error e =>
    rw [handOver, hnew]
    exact .inl ⟨rfl, h⟩
  | ok _ =>
    cases hassign : c.assign slot with
    | moved =>
      rw [handOver, hnew, hassign]
      exact ⟨rfl, rfl, h.moved hslot hassign⟩
    | copied target =>
      rw [handOver, hnew, hassign]
      exact ⟨rfl, rfl, h.copied hslot (.inl hassign)⟩
    | threw target e =>
      rw [handOver, hnew, hassign]
      exact .inr ⟨rfl, rfl, h.copied hslot (.inr ⟨e, hassign⟩)⟩

/-- The statements of a call end with all that is left of the product given away, or throw with
the arrays given away that the exit names. -/
theorem product_ends {configuration : Except ε Unit} (hcasts : throws c.casts = false) :
    Ends (product configuration c) c.start
      (fun _ f => c.exit configuration = .returned ∧ ∃ f', f = disarm f' ∧
        Armed c c.rowOffsets.toOption c.product [.colIdxs, .values] f')
      (fun f => ∃ handed offset product', c.exit configuration = .thrown handed ∧
        (∀ slot ∈ handed, product' slot = c.product slot) ∧
        Armed c offset product' handed f) := by
  have hlent : ∀ offset product', (offset = none ∨ offset = c.rowOffsets.toOption) →
      (product' = (fun _ => none) ∨ product' = c.product) →
        Armed c offset product' [] (lent c offset product') := by
    rintro offset product' (rfl | rfl) (rfl | rfl) <;> exact .ofLent c (by simp)
  rw [product, ends_bind, ends_modify]
  show Ends _ (lent c none fun _ => none) _ _
  refine (allocRowOffsets_ends c).andThen ?_ ?_
  · rintro f ⟨h, rfl⟩
    exact ⟨[], _, _, by simp [Call.exit, hcasts, h], by simp, hlent _ _ (.inl rfl) (.inl rfl)⟩
  rintro - f ⟨hoffsets, rfl⟩
  refine (ofExcept_ends configuration _).andThen ?_ ?_
  · rintro f ⟨h, rfl⟩
    exact ⟨[], _, _, by simp [Call.exit, hcasts, h], by simp, hlent _ _ (.inr rfl) (.inl rfl)⟩
  rintro - f ⟨hconfiguration, rfl⟩
  refine (multiply_ends c _).andThen ?_ ?_
  · rintro f ⟨h, rfl⟩
    exact ⟨[], _, _, by simp [Call.exit, hcasts, h], by simp, hlent _ _ (.inr rfl) (.inr rfl)⟩
  rintro - f ⟨hmultiply, rfl⟩
  -- from here on the arrays of the product are given away
  refine (handOver_ends (hlent _ _ (.inr rfl) (.inr rfl)) (by simp)).andThen ?_ ?_
  · rintro f (⟨h, harmed⟩ | ⟨hnew, h, harmed⟩)
    · exact ⟨[], _, _, by simp [Call.exit, hcasts, h], by simp, harmed⟩
    · exact ⟨_, _, _, by simp [Call.exit, *], fun _ _ => rfl, harmed⟩
  rintro - f ⟨hnewCols, hassignCols, harmed⟩
  refine (handOver_ends harmed (by simp)).andThen ?_ ?_
  · rintro f (⟨h, harmed⟩ | ⟨hnew, h, harmed⟩)
    · exact ⟨_, _, _, by simp [Call.exit, *], fun _ _ => rfl, harmed⟩
    · exact ⟨_, _, _, by simp [Call.exit, *], fun _ _ => rfl, harmed⟩
  rintro - f ⟨hnewValues, hassignValues, harmed⟩
  refine (ofExcept_ends c.copy _).andThen ?_ ?_
  · rintro f ⟨h, rfl⟩
    exact ⟨_, _, _, by simp [Call.exit, *], fun _ _ => rfl, harmed⟩
  rintro - f ⟨hcopy, rfl⟩
  rw [ends_modify]
  exact ⟨by simp [Call.exit, *], f, rfl, harmed⟩

/-- For any configuration, exactly the harmless exits leave all memory to its owners. -/
theorem applyImpl_keepsMemory_iff (configuration : Except ε Unit) (c : Call ε) :
    KeepsMemory c (stateAfter (applyImpl configuration c) c.start) ↔
      Harmless configuration c := by
  cases hcasts : c.casts with
  | error e =>
    have hstate : stateAfter (applyImpl configuration c) c.start = c.start := by
      rw [applyImpl, hcasts]; rfl
    have hexit : c.exit configuration = .beforeWraps := by simp [Call.exit, throws, hcasts]
    rw [hstate, Harmless, hexit]
    exact iff_true_intro ⟨fun _ _ => List.not_mem_nil, fun _ hp => (List.not_mem_nil hp).elim,
      fun _ hp => (List.not_mem_nil hp).elim⟩
  | ok _ =>
    have hends : Ends (applyImpl configuration c) c.start
        (fun _ f => KeepsMemory c f ↔ Harmless configuration c)
        (fun f => KeepsMemory c f ↔ Harmless configuration c) := by
      rw [applyImpl, hcasts]
      refine ends_ensuring.mpr ((product_ends (by rw [hcasts]; rfl)).mono ?_ ?_)
      · rintro - f ⟨hexit, f', rfl, harmed⟩
        rw [Harmless, hexit]
        exact harmed.returned_iff
      · rintro f ⟨handed, offset, product', hexit, hproduct, harmed⟩
        rw [Harmless, hexit, harmed.thrown_iff]
        exact and_congr_right fun _ => and_congr_right fun _ =>
          forall₂_congr fun slot hslot => by rw [hproduct slot hslot]
    exact Ends.stateAfter hends

/-- Exactly the harmless exits of both wrappers leave all memory to its owners. -/
theorem keepsMemory_iff :
    (∀ c : Call ε, KeepsMemory c (stateAfter (AcCsr.applyImpl c) c.start) ↔
      Harmless (.ok ()) c) ∧
    ∀ (configuration : Except ε Unit) (c : Call ε),
      KeepsMemory c (stateAfter (SpeckCsr.applyImpl configuration c) c.start) ↔
        Harmless configuration c :=
  ⟨applyImpl_keepsMemory_iff _, applyImpl_keepsMemory_iff⟩

end

/-! ## A multiplication that throws -/

/-- Three matrices with arrays of their own, and a library that throws before it has allocated
anything. -/
def multiplyThrows : Call String where
  this := ⟨some 0, some 1, some 2⟩
  b := ⟨some 3, some 4, some 5⟩
  x := ⟨some 6, some 7, some 8⟩
  casts := .ok ()
  rowOffsets := .ok 9
  product _ := none
  multiply := .error "out of memory"
  construct _ := .ok ()
  assign _ := .moved
  copy := .ok ()
  nodup := by decide
  fresh := by decide
  apart _ _ _ := List.not_mem_nil

/-- All arrays of this matrix and `b` are freed. -/
theorem operands_freed :
    (stateAfter (AcCsr.applyImpl multiplyThrows) multiplyThrows.start).freed =
      [9, 3, 4, 5, 0, 1, 2] ∧
    ¬ KeepsMemory multiplyThrows
      (stateAfter (AcCsr.applyImpl multiplyThrows) multiplyThrows.start) ∧
    ¬ KeepsMemory multiplyThrows
      (stateAfter (SpeckCsr.applyImpl (.ok ()) multiplyThrows) multiplyThrows.start) := by
  refine ⟨rfl, fun h => ?_, fun h => ?_⟩
  · exact h.operands 0 (by decide) (by decide)
  · exact h.operands 0 (by decide) (by decide)

end GinkgoTpl.Spgemm
