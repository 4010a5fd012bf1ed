import Mathlib.Data.List.Basic
import Mathlib.Tactic.Linarith

/-! # The slot bitmap of a slab

`bitmap.rs`: one bit per slot in 64-bit words, with a running count of the set bits.

* **`AllocationBitmap.set`, `clear`, `isSet`, `findFreeFrom`** — the operations on words and bits. -/

namespace Certus.ExtentManager

open List

/-- The allocation state of the slots of one slab. -/
structure AllocationBitmap where
  /-- Slot `i` is bit `i % 64` of word `i / 64`. -/
  words : List (BitVec 64)
  /-- The number of slots. -/
  numSlots : ℕ
  /-- The number of allocated slots, kept beside the bits. -/
  allocatedCount : ℕ
  deriving DecidableEq, Repr

namespace AllocationBitmap

/-- A bitmap of `numSlots` free slots. -/
def new (numSlots : ℕ) : AllocationBitmap where
  words := List.replicate ((numSlots + 63) / 64) 0
  numSlots := numSlots
  allocatedCount := 0

section

variable (b : AllocationBitmap)

/-- Mark slot `idx` allocated. -/
def set (idx : ℕ) : AllocationBitmap :=
  { b with
    words := b.words.modify (idx / 64) (fun w => w ||| (1#64 <<< (idx % 64)))
    allocatedCount := b.allocatedCount + 1 }

/-- Mark slot `idx` free. -/
def clear (idx : ℕ) : AllocationBitmap :=
  { b with
    words := b.words.modify (idx / 64) (fun w => w &&& ~~~(1#64 <<< (idx % 64)))
    allocatedCount := b.allocatedCount - 1 }

/-- Whether slot `idx` is allocated. -/
def isSet (idx : ℕ) : Bool :=
  (b.words.getD (idx / 64) 0 >>> (idx % 64)) &&& 1#64 == 1#64

/-- The first free slot at or after `start`, wrapping around. -/
def findFreeFrom (start : ℕ) : Option ℕ :=
  (List.range b.numSlots).findSome? fun i =>
    let idx := (start + i) % b.numSlots
    if b.isSet idx then none else some idx

/-- No slot is allocated. -/
def isAllFree : Bool := b.allocatedCount == 0

@[simp] theorem numSlots_set (b : AllocationBitmap) (i : ℕ) : (b.set i).numSlots = b.numSlots := rfl

@[simp] theorem numSlots_new (n : ℕ) : (new n).numSlots = n := rfl

/-! ## Bits under the operations -/

/-- Testing a bit by shifting it down is reading it. -/
theorem shiftRight_and_one_beq (w : BitVec 64) (k : ℕ) :
    ((w >>> k) &&& 1#64 == 1#64) = w.getLsbD k := by
  have hone : (1#64).toNat = 1 := rfl
  rw [Bool.eq_iff_iff, beq_iff_eq, ← BitVec.toNat_inj, BitVec.toNat_and, BitVec.toNat_ushiftRight,
    hone, Nat.and_one_is_mod, BitVec.getLsbD, Nat.testBit_eq_decide_div_mod_eq, decide_eq_true_eq,
    Nat.shiftRight_eq_div_pow]

/-- The bit of slot `idx`, as a bit of its word. -/
theorem isSet_eq (b : AllocationBitmap) (idx : ℕ) :
    b.isSet idx = (b.words.getD (idx / 64) 0).getLsbD (idx % 64) :=
  shiftRight_and_one_beq _ _

@[simp] theorem isSet_new (n idx : ℕ) : (new n).isSet idx = false := by
  have hword : (new n).words.getD (idx / 64) 0 = 0#64 := by
    rw [new, getD_eq_getElem?_getD, getElem?_replicate]
    split_ifs <;> rfl
  rw [isSet_eq, hword, BitVec.getLsbD_zero]

/-- A bit of one word, after the operation `f` on the word of slot `idx`. -/
theorem getD_modify (ws : List (BitVec 64)) (i j : ℕ) (f : BitVec 64 → BitVec 64)
    (hi : i < ws.length) :
    (ws.modify i f).getD j 0 = if j = i then f (ws.getD j 0) else ws.getD j 0 := by
  rw [getD_eq_getElem?_getD, getD_eq_getElem?_getD, getElem?_modify]
  by_cases hji : j = i
  · subst hji
    simp [getElem?_eq_getElem hi]
  · simp [hji, Ne.symm hji]

/-- Two slots are the same when word and bit agree. -/
theorem beq_slot (i j : ℕ) : (j == i) = (decide (j / 64 = i / 64) && decide (j % 64 = i % 64)) := by
  rw [Bool.eq_iff_iff, beq_iff_eq, Bool.and_eq_true, decide_eq_true_eq, decide_eq_true_eq]
  omega

/-- The mask of a slot has exactly the slot's bit. -/
theorem getLsbD_mask (i j : ℕ) :
    (1#64 <<< (i % 64)).getLsbD (j % 64) = decide (j % 64 = i % 64) := by
  have hj : j % 64 < 64 := Nat.mod_lt _ (by decide)
  rw [BitVec.getLsbD_shiftLeft, BitVec.getLsbD_one]
  by_cases h : j % 64 = i % 64
  · rw [h] at hj ⊢
    simp [hj]
  · simp [h, hj]
    omega

section

variable {b : AllocationBitmap} {idx : ℕ} (h : idx / 64 < b.words.length) (j : ℕ)
include h

/-- Setting a slot sets its bit and no other. -/
theorem isSet_set : (b.set idx).isSet j = (b.isSet j || j == idx) := by
  rw [isSet_eq, isSet_eq, set, getD_modify _ _ _ _ h, beq_slot]
  split_ifs with hw
  · rw [BitVec.getLsbD_or, getLsbD_mask, decide_eq_true hw, Bool.true_and]
  · rw [decide_eq_false hw, Bool.false_and, Bool.or_false]

theorem isSet_clear : (b.clear idx).isSet j = (b.isSet j && !(j == idx)) := by
  have hj : j % 64 < 64 := Nat.mod_lt _ (by decide)
  rw [isSet_eq, isSet_eq, clear, getD_modify _ _ _ _ h, beq_slot]
  split_ifs with hw
  · rw [BitVec.getLsbD_and, BitVec.getLsbD_not, getLsbD_mask, decide_eq_true hw, Bool.true_and,
      decide_eq_true hj, Bool.true_and]
  · rw [decide_eq_false hw, Bool.false_and, Bool.not_false, Bool.and_true]

end

/-! ## The running count -/

/-- The number of set bits among the slots. -/
def setBits : ℕ := (List.range b.numSlots).countP b.isSet

end

/-- Words for every slot, and a count that agrees with the bits. -/
structure WellFormed (b : AllocationBitmap) : Prop where
  length_words : b.words.length = (b.numSlots + 63) / 64
  count_eq : b.allocatedCount = b.setBits

/-- Turning one more index on raises the count by one. -/
theorem countP_range_or {p : ℕ → Bool} {n i : ℕ} (hi : i < n) (hp : p i = false) :
    (List.range n).countP (fun j => p j || j == i) = (List.range n).countP p + 1 := by
  induction n with
  | zero => omega
  | succ n ih =>
    rw [range_succ, countP_append, countP_append]
    rcases Nat.lt_succ_iff_lt_or_eq.mp hi with hlt | rfl
    · have hne : (n == i) = false := by simp; omega
      rw [ih hlt]
      simp only [countP_singleton, hne, Bool.or_false]
      omega
    · have hsame : (List.range i).countP (fun j => p j || j == i) = (List.range i).countP p := by
        refine countP_congr fun j hj => ?_
        have : (j == i) = false := by have := mem_range.mp hj; simp; omega
        rw [this, Bool.or_false]
      rw [hsame]
      simp [hp]

namespace WellFormed

variable {b : AllocationBitmap} {idx : ℕ}

theorem new (n : ℕ) : (new n).WellFormed where
  length_words := length_replicate
  count_eq := by
    refine (countP_eq_zero.mpr fun j _ => ?_).symm
    simp

section

variable (h : b.WellFormed) (hidx : idx < b.numSlots)
include h hidx

theorem word_lt : idx / 64 < b.words.length := by
  rw [h.length_words]
  omega

theorem set (hfree : b.isSet idx = false) : (b.set idx).WellFormed where
  length_words := by rw [AllocationBitmap.set, length_modify]; exact h.length_words
  count_eq := by
    have hbits : (b.set idx).isSet = fun j => b.isSet j || j == idx :=
      funext fun j => isSet_set (h.word_lt hidx) j
    rw [setBits, hbits, numSlots_set, countP_range_or hidx hfree]
    exact congrArg (· + 1) h.count_eq

theorem clear (hset : b.isSet idx) : (b.clear idx).WellFormed where
  length_words := by rw [AllocationBitmap.clear, length_modify]; exact h.length_words
  count_eq := by
    -- the old bits are the new ones with `idx` turned on again
    have hbits : b.isSet = fun j => (b.clear idx).isSet j || j == idx := by
      funext j
      rw [isSet_clear (h.word_lt hidx)]
      by_cases hj : j = idx
      · subst hj; simp [hset]
      · rw [beq_false_of_ne hj, Bool.not_false, Bool.and_true, Bool.or_false]
    have hoff : (b.clear idx).isSet idx = false := by
      rw [isSet_clear (h.word_lt hidx)]; simp
    have hcount := h.count_eq
    rw [setBits, hbits, countP_range_or hidx hoff] at hcount
    rw [AllocationBitmap.clear]
    exact Nat.sub_eq_of_eq_add hcount

end

/-- The count says whether any slot is allocated. -/
theorem isAllFree_iff (h : b.WellFormed) : b.isAllFree ↔ ∀ i < b.numSlots, b.isSet i = false := by
  rw [isAllFree, beq_iff_eq, h.count_eq, setBits, countP_eq_zero]
  simp only [mem_range, Bool.not_eq_true]

end WellFormed

/-- The slot found is in range and free. -/
theorem findFreeFrom_eq_some {b : AllocationBitmap} {start idx : ℕ}
    (h : b.findFreeFrom start = some idx) : idx < b.numSlots ∧ b.isSet idx = false := by
  obtain ⟨i, hi, hfound⟩ := exists_of_findSome?_eq_some h
  have hpos : 0 < b.numSlots := by have := mem_range.mp hi; omega
  dsimp only at hfound
  split_ifs at hfound with hset
  cases hfound
  exact ⟨Nat.mod_lt _ hpos, by simpa using hset⟩

end AllocationBitmap

end Certus.ExtentManager
