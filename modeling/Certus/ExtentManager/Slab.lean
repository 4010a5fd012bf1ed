import Certus.ExtentManager.Bitmap
import Certus.Lib.Tiling

/-! # Slabs

`slab.rs`: a slab is a block of the data disk cut into slots of one size. A bitmap says which slots
are allocated and a key vector says which key occupies each slot; a slot can be allocated without a
key while its data is being written, and after it was removed. -/

namespace Certus.ExtentManager

open List AllocationBitmap

/-- The key of a slot that no extent occupies (`FREE_KEY = u64::MAX`). -/
def freeKey : UInt64 := 0xFFFFFFFFFFFFFFFF

/-- A slab: `numSlots` slots of `elementSize` bytes from `startOffset` on. -/
structure Slab where
  startOffset : ℕ
  slabSize : ℕ
  elementSize : ℕ
  bitmap : AllocationBitmap
  keys : List UInt64
  rover : ℕ
  deriving DecidableEq, Repr

namespace Slab

/-- A slab with all slots free. The slot count is truncated to 32 bits. -/
def new (startOffset slabSize elementSize : ℕ) : Slab :=
  let numSlots := slabSize / elementSize % 2 ^ 32
  { startOffset, slabSize, elementSize
    bitmap := AllocationBitmap.new numSlots
    keys := List.replicate numSlots freeKey
    rover := 0 }

/-- The number of slots. -/
def numSlots (s : Slab) : ℕ := s.bitmap.numSlots

section

variable (s : Slab) (idx : ℕ)

/-- The byte offset of a slot on the data disk. -/
def slotOffset : ℕ := s.startOffset + idx * s.elementSize

/-- Allocate the first free slot at or after the rover; returns the slab, the slot and its offset. -/
def allocSlot : Option (Slab × ℕ × ℕ) :=
  (s.bitmap.findFreeFrom s.rover).map fun idx =>
    ({ s with bitmap := s.bitmap.set idx, rover := (idx + 1) % s.numSlots }, idx, s.slotOffset idx)

/-- Free a slot and forget its key. -/
def freeSlot : Slab :=
  { s with bitmap := s.bitmap.clear idx, keys := s.keys.set idx freeKey }

/-- Record the key of a slot. -/
def setKey (key : UInt64) : Slab := { s with keys := s.keys.set idx key }

/-- The recorded key of a slot. -/
def getKey : UInt64 := s.keys.getD idx freeKey

/-- No slot is allocated. -/
def isEmpty : Bool := s.bitmap.isAllFree

/-- Every slot is allocated. -/
def isFull : Bool := s.bitmap.allocatedCount == s.numSlots

/-- The slot that starts at a byte offset. -/
def slotForOffset (byteOffset : ℕ) : Option ℕ :=
  if byteOffset < s.startOffset then none
  else
    let relative := byteOffset - s.startOffset
    if relative % s.elementSize ≠ 0 then none
    else
      let idx := relative / s.elementSize
      if idx < s.numSlots then some idx else none

/-- Mark a slot allocated without choosing it (recovery). -/
def markSlotAllocated : Slab := { s with bitmap := s.bitmap.set idx }

/-- Whether a byte offset lies in the slab. -/
def containsOffset (byteOffset : ℕ) : Bool :=
  decide (s.startOffset ≤ byteOffset) && decide (byteOffset < s.startOffset + s.slabSize)

/-! ## What a slot holds -/

/-- The contents of a slot: `none` when it is free, otherwise its recorded key (`freeKey` when it is
reserved or waits to be freed). -/
def slot : Option UInt64 :=
  if idx < s.numSlots ∧ s.bitmap.isSet idx then some (s.getKey idx) else none

/-- The bytes of a slot. -/
def slotSeg : Seg := (s.slotOffset idx, s.elementSize)

end

/-- Bitmap, key vector and slot size fit together, and free slots have no key. -/
structure WellFormed (s : Slab) : Prop where
  bitmap : s.bitmap.WellFormed
  length_keys : s.keys.length = s.numSlots
  numSlots_eq : s.numSlots = s.slabSize / s.elementSize % 2 ^ 32
  element_pos : 0 < s.elementSize
  free_keys : ∀ i < s.numSlots, s.bitmap.isSet i = false → s.getKey i = freeKey

/-- Two slabs with the same place and slot size. -/
structure SameShape (s t : Slab) : Prop where
  start : t.startOffset = s.startOffset
  size : t.slabSize = s.slabSize
  element : t.elementSize = s.elementSize
  slots : t.numSlots = s.numSlots

@[simp] theorem numSlots_new (a z e : ℕ) : (new a z e).numSlots = z / e % 2 ^ 32 := rfl

variable {i off : ℕ} {k : UInt64} {s : Slab}

theorem slot_eq_some :
    s.slot i = some k ↔ (i < s.numSlots ∧ s.bitmap.isSet i) ∧ s.getKey i = k := by
  unfold slot
  split_ifs with h <;> simp [h]

theorem slot_eq_none : s.slot i = none ↔ (i < s.numSlots → s.bitmap.isSet i = false) := by
  unfold slot
  split_ifs with h
  · simp [h]
  · simp only [true_iff]
    intro hi
    simpa [hi] using h

theorem getKey_set (s : Slab) (i j : ℕ) (k : UInt64) (hi : i < s.keys.length) :
    (s.keys.set i k).getD j freeKey = if j = i then k else s.getKey j := by
  rw [getKey, getD_eq_getElem?_getD, getD_eq_getElem?_getD, getElem?_set]
  by_cases h : j = i
  · subst h
    simp [hi]
  · simp [h, Ne.symm h]

namespace WellFormed

variable {s : Slab}

theorem numSlots_mul_le (h : s.WellFormed) : s.numSlots * s.elementSize ≤ s.slabSize := by
  rw [h.numSlots_eq]
  calc s.slabSize / s.elementSize % 2 ^ 32 * s.elementSize
      ≤ s.slabSize / s.elementSize * s.elementSize := Nat.mul_le_mul_right _ (Nat.mod_le _ _)
    _ ≤ s.slabSize := Nat.div_mul_le_self _ _

variable {i : ℕ}

theorem slotSeg_within (h : s.WellFormed) (hi : i < s.numSlots) :
    (s.slotSeg i).Within (s.startOffset, s.slabSize) := by
  have hle := h.numSlots_mul_le
  have hstep : (i + 1) * s.elementSize ≤ s.numSlots * s.elementSize :=
    Nat.mul_le_mul_right _ hi
  simp only [Seg.Within, slotSeg, slotOffset]
  rw [Nat.succ_mul] at hstep
  omega

theorem slotSeg_disjoint (s : Slab) {i j : ℕ} (hij : i ≠ j) :
    (s.slotSeg i).Disjoint (s.slotSeg j) := by
  simp only [Seg.Disjoint, slotSeg, slotOffset]
  rcases Nat.lt_or_gt_of_ne hij with h | h
  · have := Nat.mul_le_mul_right s.elementSize (Nat.succ_le_of_lt h)
    rw [Nat.succ_mul] at this
    omega
  · have := Nat.mul_le_mul_right s.elementSize (Nat.succ_le_of_lt h)
    rw [Nat.succ_mul] at this
    omega

/-- A key other than `freeKey` is only recorded for an allocated slot. -/
theorem isSet_of_getKey (h : s.WellFormed) (hi : i < s.numSlots) (hk : s.getKey i ≠ freeKey) :
    s.bitmap.isSet i := by
  by_contra hset
  exact hk (h.free_keys i hi (by simpa using hset))

theorem new {a z e : ℕ} (he : 0 < e) : (new a z e).WellFormed where
  bitmap := AllocationBitmap.WellFormed.new _
  length_keys := length_replicate
  numSlots_eq := rfl
  element_pos := he
  free_keys i hi _ := by
    rw [getKey, Slab.new, getD_eq_getElem?_getD, getElem?_replicate]
    split_ifs <;> rfl

end WellFormed

@[simp] theorem slot_new (a z e i : ℕ) : (new a z e).slot i = none := by
  rw [slot_eq_none]
  intro _
  exact isSet_new _ _

/-! ## The operations on slots -/

/-- Allocation takes a free slot and leaves it allocated without a key. -/
theorem allocSlot_spec {s t : Slab} (hs : s.WellFormed) (h : s.allocSlot = some (t, i, off)) :
    t.WellFormed ∧ s.SameShape t ∧ s.slot i = none ∧ off = s.slotOffset i ∧
      ∀ j, t.slot j = if j = i then some freeKey else s.slot j := by
  obtain ⟨idx, hfind, heq⟩ := Option.map_eq_some_iff.mp h
  simp only [Prod.mk.injEq] at heq
  obtain ⟨rfl, rfl, rfl⟩ := heq
  obtain ⟨hlt, hfree⟩ := findFreeFrom_eq_some hfind
  have hset : ∀ j, (s.bitmap.set idx).isSet j = (s.bitmap.isSet j || j == idx) :=
    isSet_set (hs.bitmap.word_lt hlt)
  refine ⟨⟨hs.bitmap.set hlt hfree, hs.length_keys, hs.numSlots_eq, hs.element_pos, ?_⟩,
    ⟨rfl, rfl, rfl, rfl⟩, slot_eq_none.mpr fun _ => hfree, rfl, ?_⟩
  · intro j hj hjfree
    rw [hset, Bool.or_eq_false_iff] at hjfree
    exact hs.free_keys j hj hjfree.1
  · intro j
    by_cases hj : j = idx
    · subst hj
      rw [if_pos rfl, slot_eq_some, hset]
      exact ⟨⟨hlt, by simp⟩, hs.free_keys j hlt hfree⟩
    · rw [if_neg hj]
      unfold slot
      rw [hset, beq_false_of_ne hj, Bool.or_false]
      rfl

section

variable (hs : s.WellFormed)
include hs

/-- Freeing an allocated slot empties it. -/
theorem freeSlot_spec (h : s.slot i = some k) :
    (s.freeSlot i).WellFormed ∧ s.SameShape (s.freeSlot i) ∧
      ∀ j, (s.freeSlot i).slot j = if j = i then none else s.slot j := by
  obtain ⟨⟨hlt, hbit⟩, -⟩ := slot_eq_some.mp h
  have hclear : ∀ j, (s.bitmap.clear i).isSet j = (s.bitmap.isSet j && !(j == i)) :=
    isSet_clear (hs.bitmap.word_lt hlt)
  have hkey : ∀ j, (s.freeSlot i).getKey j = if j = i then freeKey else s.getKey j := fun j =>
    getKey_set s i j freeKey (hs.length_keys ▸ hlt)
  refine ⟨⟨hs.bitmap.clear hlt hbit, ?_, hs.numSlots_eq, hs.element_pos, ?_⟩,
    ⟨rfl, rfl, rfl, rfl⟩, ?_⟩
  · rw [freeSlot, length_set]
    exact hs.length_keys
  · intro j hj hjfree
    rw [hkey]
    split_ifs with hji
    · rfl
    · rw [freeSlot, hclear, beq_false_of_ne hji, Bool.not_false, Bool.and_true] at hjfree
      exact hs.free_keys j hj hjfree
  · intro j
    by_cases hj : j = i
    · subst hj
      rw [if_pos rfl, slot_eq_none]
      intro _
      rw [freeSlot, hclear]
      simp
    · rw [if_neg hj]
      unfold slot
      rw [hkey, if_neg hj, freeSlot, hclear, beq_false_of_ne hj, Bool.not_false, Bool.and_true]
      rfl

/-- Recording a key in an allocated slot changes that slot only. -/
theorem setKey_spec (h : s.slot i = some k) (key : UInt64) :
    (s.setKey i key).WellFormed ∧ s.SameShape (s.setKey i key) ∧
      ∀ j, (s.setKey i key).slot j = if j = i then some key else s.slot j := by
  obtain ⟨⟨hlt, hbit⟩, -⟩ := slot_eq_some.mp h
  have hkey : ∀ j, (s.setKey i key).getKey j = if j = i then key else s.getKey j := fun j =>
    getKey_set s i j key (hs.length_keys ▸ hlt)
  refine ⟨⟨hs.bitmap, ?_, hs.numSlots_eq, hs.element_pos, ?_⟩, ⟨rfl, rfl, rfl, rfl⟩, ?_⟩
  · rw [setKey, length_set]
    exact hs.length_keys
  · intro j hj hjfree
    have hji : j ≠ i := by
      rintro rfl
      rw [setKey, hbit] at hjfree
      exact Bool.noConfusion hjfree
    rw [hkey, if_neg hji]
    exact hs.free_keys j hj hjfree
  · intro j
    by_cases hj : j = i
    · subst hj
      rw [if_pos rfl, slot_eq_some, hkey, if_pos rfl]
      exact ⟨⟨hlt, hbit⟩, rfl⟩
    · rw [if_neg hj]
      unfold slot
      rw [hkey, if_neg hj]
      rfl

/-- Recovery marks a free slot and records its key. -/
theorem markSlotAllocated_setKey_spec (hi : i < s.numSlots) (h : s.slot i = none) (key : UInt64) :
    ((s.markSlotAllocated i).setKey i key).WellFormed ∧
      s.SameShape ((s.markSlotAllocated i).setKey i key) ∧
      ∀ j, ((s.markSlotAllocated i).setKey i key).slot j
        = if j = i then some key else s.slot j := by
  have hfree := slot_eq_none.mp h hi
  have hset : ∀ j, (s.bitmap.set i).isSet j = (s.bitmap.isSet j || j == i) :=
    isSet_set (hs.bitmap.word_lt hi)
  have hmark : (s.markSlotAllocated i).WellFormed := by
    refine ⟨hs.bitmap.set hi hfree, hs.length_keys, hs.numSlots_eq, hs.element_pos, ?_⟩
    intro j hj hjfree
    rw [markSlotAllocated, hset, Bool.or_eq_false_iff] at hjfree
    exact hs.free_keys j hj hjfree.1
  have hslot : (s.markSlotAllocated i).slot i = some (s.getKey i) := by
    rw [slot_eq_some, markSlotAllocated, hset]
    exact ⟨⟨hi, by simp⟩, rfl⟩
  obtain ⟨hwf, hshape, hview⟩ := setKey_spec hmark hslot key
  refine ⟨hwf, ⟨hshape.start, hshape.size, hshape.element, hshape.slots⟩, fun j => ?_⟩
  rw [hview]
  by_cases hj : j = i
  · rw [if_pos hj, if_pos hj]
  · rw [if_neg hj, if_neg hj]
    unfold slot
    rw [markSlotAllocated, hset, beq_false_of_ne hj, Bool.or_false]
    rfl

theorem isEmpty_iff : s.isEmpty ↔ ∀ i, s.slot i = none := by
  rw [isEmpty, hs.bitmap.isAllFree_iff]
  exact forall_congr' fun i => slot_eq_none.symm

end

/-- The slot found for an offset starts there. -/
theorem slotForOffset_eq_some (h : s.slotForOffset off = some i) :
    i < s.numSlots ∧ off = s.slotOffset i := by
  unfold slotForOffset at h
  split_ifs at h with h₁
  dsimp only at h
  split_ifs at h with h₂ h₃
  cases h
  refine ⟨h₃, ?_⟩
  have hdvd : s.elementSize ∣ off - s.startOffset := Nat.dvd_of_mod_eq_zero (by simpa using h₂)
  rw [slotOffset, Nat.div_mul_cancel hdvd]
  omega

/-- The start of a slot leads back to the slot. -/
theorem slotForOffset_slotOffset (hpos : 0 < s.elementSize) (hi : i < s.numSlots) :
    s.slotForOffset (s.slotOffset i) = some i := by
  have hrel : s.startOffset + i * s.elementSize - s.startOffset = i * s.elementSize := by omega
  rw [slotForOffset, slotOffset, if_neg (by omega)]
  dsimp only
  rw [hrel, if_neg (by simp), Nat.mul_div_cancel _ hpos, if_pos hi]

end Slab

/-! ## Size classes -/

/-- The slabs of each element size that still have a free slot. An absent class of the source's map
is an empty list. -/
structure SizeClassManager where
  map : ℕ → List ℕ

namespace SizeClassManager

/-- No slabs in any class. -/
def new : SizeClassManager := ⟨fun _ => []⟩

/-- Append a slab to its class. -/
def addSlab (m : SizeClassManager) (elementSize startOffset : ℕ) : SizeClassManager :=
  ⟨fun e => if e = elementSize then m.map e ++ [startOffset] else m.map e⟩

/-- Remove every entry of a slab from its class. -/
def removeSlab (m : SizeClassManager) (elementSize startOffset : ℕ) : SizeClassManager :=
  ⟨fun e => if e = elementSize then (m.map e).filter (fun o => o ≠ startOffset) else m.map e⟩

/-- The slabs of a class. -/
def getSlabs (m : SizeClassManager) (elementSize : ℕ) : List ℕ := m.map elementSize

variable {e e' o o' : ℕ} {m : SizeClassManager}

theorem mem_addSlab : o' ∈ (m.addSlab e o).getSlabs e' ↔ o' ∈ m.getSlabs e' ∨ e' = e ∧ o' = o := by
  simp only [getSlabs, addSlab]
  split_ifs with h <;> simp [h]

theorem mem_removeSlab :
    o' ∈ (m.removeSlab e o).getSlabs e' ↔ o' ∈ m.getSlabs e' ∧ ¬ (e' = e ∧ o' = o) := by
  simp only [getSlabs, removeSlab]
  split_ifs with h <;> simp [h]

end SizeClassManager

end Certus.ExtentManager
