import Certus.Lib.Dyadic

/-! # The buddy allocator of a region

`buddy.rs`: power-of-two blocks of sectors over the bytes of one region. Free blocks are kept in
one list per order, as byte offsets local to the region; blocks are split on the way to a request
and joined with their buddy (found by exclusive or) when they come back.

* **`BuddyAllocator.new`, `alloc`, `free`, `markAllocated`, `totalFree`** — the source's functions. -/

namespace Certus.ExtentManager

open List

/-- A buddy allocator for `totalUsableSize` bytes from `baseOffset` on. -/
structure BuddyAllocator where
  baseOffset : ℕ
  totalUsableSize : ℕ
  sectorSize : ℕ
  maxOrder : ℕ
  /-- For each order, the local byte offsets of the free blocks of that order. -/
  freeLists : List (List ℕ)
  deriving DecidableEq, Repr

/-- The order of the smallest block of at least `blocks` sectors: `0` or
`64 - (blocks - 1).leading_zeros()`. -/
def orderFor (blocks : ℕ) : ℕ := if blocks ≤ 1 then 0 else Nat.log2 (blocks - 1) + 1

/-- `Vec::swap_remove`: the last element takes the place of the removed one. -/
def swapRemove (l : List ℕ) (pos : ℕ) : List ℕ := (l.set pos (l.getLastD 0)).dropLast

/-- `Vec::push` on the free list of an order. -/
def pushFree (fl : List (List ℕ)) (order offset : ℕ) : List (List ℕ) :=
  fl.modify order (fun l => l ++ [offset])

/-- The position of an offset in the free list of an order. -/
def positionFree (fl : List (List ℕ)) (order offset : ℕ) : Option ℕ :=
  (fl.getD order []).findIdx? (fun o => o == offset)

namespace BuddyAllocator

/-- The loop of `new`: the largest power-of-two block first. `fuel` bounds the iterations by the
number of bits of `remaining`. -/
def fill (sectorSize : ℕ) : ℕ → List (List ℕ) → ℕ → ℕ → List (List ℕ)
  | 0, fl, _, _ => fl
  | fuel + 1, fl, offset, remaining =>
    if remaining = 0 then fl
    else
      let order := Nat.log2 remaining
      let blocks := 2 ^ order
      fill sectorSize fuel (pushFree fl order (offset * sectorSize)) (offset + blocks)
        (remaining - blocks)

/-- A fresh allocator: the whole sectors of the region, as power-of-two blocks. -/
def new (baseOffset totalUsableSize sectorSize : ℕ) : BuddyAllocator :=
  let usableBlocks := totalUsableSize / sectorSize
  let maxOrder := Nat.log2 usableBlocks
  { baseOffset, totalUsableSize, sectorSize, maxOrder
    freeLists :=
      fill sectorSize (maxOrder + 1) (List.replicate (maxOrder + 1) []) 0 usableBlocks }

/-- The splitting loop of `alloc`: from order `needed + n` down to `needed`, the upper half of the
block at `localOffset` goes back to the free lists. -/
def splitDown (sectorSize localOffset needed : ℕ) : ℕ → List (List ℕ) → List (List ℕ)
  | 0, fl => fl
  | n + 1, fl =>
    splitDown sectorSize localOffset needed n
      (pushFree fl (needed + n) (localOffset + 2 ^ (needed + n) * sectorSize))

section

variable (b : BuddyAllocator)

/-- Allocate a block of at least `size` bytes: its absolute offset and the allocator after. -/
def alloc (size : ℕ) : Option (ℕ × BuddyAllocator) := do
  let needed := orderFor ((size + b.sectorSize - 1) / b.sectorSize)
  let found ← (List.range' needed (b.maxOrder + 1 - needed)).find? fun order =>
    !(b.freeLists.getD order []).isEmpty
  let localOffset ← (b.freeLists.getD found []).getLast?
  let fl := b.freeLists.modify found List.dropLast
  some (b.baseOffset + localOffset,
    { b with freeLists := splitDown b.sectorSize localOffset needed (found - needed) fl })

/-- The merging loop of `free`: while the buddy is free, join with it. `fuel` is the number of
orders left below `maxOrder`. -/
def mergeUp (total sectorSize : ℕ) : ℕ → List (List ℕ) → ℕ → ℕ → List (List ℕ) × ℕ × ℕ
  | 0, fl, order, current => (fl, order, current)
  | fuel + 1, fl, order, current =>
    let blockSpan := 2 ^ order * sectorSize
    let buddyOffset := current ^^^ blockSpan
    if buddyOffset + blockSpan > total then (fl, order, current)
    else
      match positionFree fl order buddyOffset with
      | some pos =>
        mergeUp total sectorSize fuel (fl.modify order (fun l => swapRemove l pos)) (order + 1)
          (min current buddyOffset)
      | none => (fl, order, current)

/-- Return a block of `size` bytes at the absolute offset. -/
def free (absOffset size : ℕ) : BuddyAllocator :=
  let order := orderFor (size / b.sectorSize)
  let (fl, order, current) := mergeUp b.totalUsableSize b.sectorSize (b.maxOrder - order)
    b.freeLists order (absOffset - b.baseOffset)
  { b with freeLists := pushFree fl order current }

/-- The splitting loop of `mark_allocated`: from order `target + n` down to `target`, the half of
the block at `splitOffset` that does not contain `offset` goes back to the free lists. -/
def markSplit (sectorSize offset target : ℕ) : ℕ → List (List ℕ) → ℕ → List (List ℕ)
  | 0, fl, _ => fl
  | n + 1, fl, splitOffset =>
    let halfSpan := 2 ^ (target + n) * sectorSize
    if offset ≥ splitOffset + halfSpan then
      markSplit sectorSize offset target n (pushFree fl (target + n) splitOffset)
        (splitOffset + halfSpan)
    else
      markSplit sectorSize offset target n
        (pushFree fl (target + n) (splitOffset + halfSpan)) splitOffset

/-- `offset & !(block_span - 1)` on 64-bit words. -/
def alignDown (offset blockSpan : ℕ) : ℕ := offset &&& (2 ^ 64 - 1 - (blockSpan - 1))

/-- The search of `mark_allocated` over the orders above `target` for a free block around `offset`:
its order, start and position in its free list. -/
def findContaining (offset target : ℕ) : Option (ℕ × ℕ × ℕ) :=
  (List.range' (target + 1) (b.maxOrder - target)).findSome? fun order =>
    (positionFree b.freeLists order (alignDown offset (2 ^ order * b.sectorSize))).map fun pos =>
      (order, alignDown offset (2 ^ order * b.sectorSize), pos)

/-- Take the block of order `target` at the local offset out of the free lists, splitting the free
block that contains it. If no free block is found nothing happens. -/
def markBlock (offset target : ℕ) : BuddyAllocator :=
  match positionFree b.freeLists target offset with
  | some pos => { b with freeLists := b.freeLists.modify target (fun l => swapRemove l pos) }
  | none =>
    match b.findContaining offset target with
    | some (order, alignedStart, pos) =>
      { b with
        freeLists := markSplit b.sectorSize offset target (order - target)
          (b.freeLists.modify order (fun l => swapRemove l pos)) alignedStart }
    | none => b

/-- Take the block of `size` bytes at the absolute offset out of the free lists. -/
def markAllocated (absOffset size : ℕ) : BuddyAllocator :=
  b.markBlock (absOffset - b.baseOffset) (orderFor (size / b.sectorSize))

/-- The bytes of all free blocks. -/
def totalFree : ℕ :=
  (b.freeLists.zipIdx.map fun (l, order) => l.length * (2 ^ order * b.sectorSize)).sum

/-! ## Free lists as a list of blocks -/

/-- The blocks of the free lists of orders `k`, `k + 1`, ... -/
def blocksFrom (k : ℕ) : List (List ℕ) → List Block
  | [] => []
  | l :: fl => l.map (fun x => (k, x)) ++ blocksFrom (k + 1) fl

/-- All free blocks. -/
def freeBlocks : List Block := blocksFrom 0 b.freeLists

end

variable {fl : List (List ℕ)} {l : List ℕ} {o pos x : ℕ}

/-- Changing one free list changes the blocks of its order only. -/
theorem blocksFrom_modify (f : List ℕ → List ℕ) (as bs : List ℕ) (h : fl[o]? = some l)
    (hl : (as ++ l).Perm (bs ++ f l)) (k : ℕ) :
    (as.map (fun x => (k + o, x)) ++ blocksFrom k fl).Perm
      (bs.map (fun x => (k + o, x)) ++ blocksFrom k (fl.modify o f)) := by
  induction fl generalizing o k with
  | nil => cases h
  | cons hd tl ih =>
    cases o with
    | zero =>
      cases h
      rw [modify_zero_cons, blocksFrom, blocksFrom, ← append_assoc,
        ← append_assoc, Nat.add_zero, ← map_append, ← map_append]
      exact (hl.map _).append_right _
    | succ o =>
      have htl := ih (o := o) h (k + 1)
      rw [show k + 1 + o = k + (o + 1) by omega] at htl
      rw [modify_succ_cons, blocksFrom, blocksFrom]
      exact perm_append_comm_assoc _ _ _ |>.trans
        ((htl.append_left _).trans (perm_append_comm_assoc _ _ _))

theorem blocksFrom_pushFree (ho : o < fl.length) (x : ℕ) :
    (blocksFrom 0 (pushFree fl o x)).Perm ((o, x) :: blocksFrom 0 fl) := by
  have h := blocksFrom_modify (fun l => l ++ [x]) [x] [] (getElem?_eq_getElem ho) perm_append_comm 0
  rw [Nat.zero_add] at h
  exact h.symm

theorem perm_swapRemove (h : pos < l.length) : l.Perm (l[pos] :: swapRemove l pos) := by
  rcases eq_nil_or_concat l with rfl | ⟨init, last, rfl⟩
  · cases h
  · simp only [concat_eq_append] at h ⊢
    have hlast : (init ++ [last]).getLastD 0 = last := by simp
    rw [swapRemove, hlast]
    by_cases hpos : pos < init.length
    · rw [set_append_left _ _ hpos, dropLast_concat, getElem_append_left hpos]
      refine (perm_append_singleton last init).trans ?_
      have h₁ := getElem_cons_eraseIdx_perm hpos
      have h₂ := set_perm_cons_eraseIdx hpos last
      exact (h₁.symm.cons last).trans ((List.Perm.swap _ _ _).trans ((h₂.symm).cons _))
    · have hpos' : pos = init.length := by
        rw [length_append, length_singleton] at h
        omega
      subst hpos'
      rw [getElem_concat_length rfl, set_append_right _ _ (le_refl _)]
      simp

/-- What `positionFree` finds can be taken out of the blocks. -/
theorem blocksFrom_swapRemove (h : positionFree fl o x = some pos) :
    (blocksFrom 0 fl).Perm ((o, x) :: blocksFrom 0 (fl.modify o (fun l => swapRemove l pos))) := by
  obtain ⟨hpos, hx, -⟩ := findIdx?_eq_some_iff_getElem.mp h
  have ho : o < fl.length := by
    by_contra hno
    rw [getD_eq_default _ _ (Nat.le_of_not_lt hno)] at hpos
    cases hpos
  have hget : fl[o]? = some (fl.getD o []) := by
    rw [getElem?_eq_getElem ho, getD_eq_getElem _ _ ho]
  have hperm := perm_swapRemove hpos
  rw [beq_iff_eq.mp hx] at hperm
  have h := blocksFrom_modify (fun l => swapRemove l pos) [] [x] hget hperm 0
  rw [Nat.zero_add] at h
  exact h

/-- Blocks listed from order `k` on have order at least `k`. -/
theorem not_mem_blocksFrom {k o x : ℕ} (h : o < k) : (o, x) ∉ blocksFrom k fl := by
  induction fl generalizing k with
  | nil => simp [blocksFrom]
  | cons l fl ih =>
    rw [blocksFrom, mem_append]
    rintro (hm | hm)
    · obtain ⟨y, -, hy⟩ := mem_map.mp hm
      cases hy
      omega
    · exact ih (by omega) hm

theorem mem_blocksFrom {k o x : ℕ} {fl : List (List ℕ)} :
    (k + o, x) ∈ blocksFrom k fl ↔ x ∈ fl.getD o [] := by
  induction fl generalizing o k with
  | nil => simp [blocksFrom]
  | cons l fl ih =>
    rw [blocksFrom, mem_append]
    cases o with
    | zero =>
      have hno : (k, x) ∉ blocksFrom (k + 1) fl := not_mem_blocksFrom (Nat.lt_succ_self k)
      simp [hno]
    | succ o =>
      rw [show k + (o + 1) = k + 1 + o by omega, ih]
      simp
      omega

/-- A free block is found by `positionFree`. -/
theorem positionFree_isSome : (positionFree fl o x).isSome = true ↔ (o, x) ∈ blocksFrom 0 fl := by
  have hmem := @mem_blocksFrom 0 o x fl
  rw [Nat.zero_add] at hmem
  rw [hmem, positionFree, findIdx?_isSome, any_eq_true]
  simp

end BuddyAllocator

end Certus.ExtentManager
