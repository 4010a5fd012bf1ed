import Certus.Interfaces
import Certus.Lib.Tiling

/-! # The memory tier

The memory tier is a pool of DRAM with one slot per key. Slots are cut out of the pool by a
first-fit free list; a freed slot is merged with the free regions next to it. -/

namespace Certus.MemoryTier

open List OrdMap Tiles

/-- Slots start and end on pages. -/
def alignment : ℕ := 4096

/-! ## The allocator -/

/-- A first-fit allocator over a contiguous pool: the free regions, start to size. -/
structure FreeList where
  freeRegions : OrdMap ℕ ℕ
  capacity : ℕ
  used : ℕ

namespace FreeList

/-- The whole pool is free. -/
def new (capacity : ℕ) : FreeList where
  freeRegions := if 0 < capacity then empty.insert 0 capacity else empty
  capacity := capacity
  used := 0

/-- Whether an allocation of this size would succeed. -/
def canAllocate (fl : FreeList) (size : ℕ) : Bool :=
  decide (size ≠ 0) && fl.freeRegions.values.any fun s => decide (nextMultipleOf size alignment ≤ s)

/-- The first free region that is large enough gives its front. -/
def allocate (fl : FreeList) (size : ℕ) : Option (ℕ × FreeList) :=
  if size = 0 then none
  else
    let alignedSize := nextMultipleOf size alignment
    match fl.freeRegions.entries.find? fun e => decide (alignedSize ≤ e.2) with
    | none => none
    | some (offset, regionSize) =>
      let regions := fl.freeRegions.erase offset
      let remaining := regionSize - alignedSize
      some (offset,
        { fl with
          freeRegions :=
            if 0 < remaining then regions.insert (offset + alignedSize) remaining else regions
          used := fl.used + alignedSize })

/-- The last region that starts before `offset` (`range(..offset).next_back()`). -/
def regionBefore (regions : OrdMap ℕ ℕ) (offset : ℕ) : Option (ℕ × ℕ) :=
  if offset = 0 then none else regions.floor? (offset - 1)

/-- The region `[offset, offset + size)` joined with a free region that ends at its start. -/
def coalescePrev (regions : OrdMap ℕ ℕ) (offset size : ℕ) : ℕ × ℕ × OrdMap ℕ ℕ :=
  match regionBefore regions offset with
  | some (prevOffset, prevSize) =>
    if prevOffset + prevSize = offset then
      (prevOffset, size + prevSize, regions.erase prevOffset)
    else (offset, size, regions)
  | none => (offset, size, regions)

/-- The region `[offset, offset + size)` joined with a free region that starts at its end. -/
def coalesceNext (regions : OrdMap ℕ ℕ) (offset size : ℕ) : ℕ × OrdMap ℕ ℕ :=
  match regions.get? (offset + size) with
  | some nextSize => (size + nextSize, regions.erase (offset + size))
  | none => (size, regions)

/-- An allocation is given back. -/
def deallocate (fl : FreeList) (offset size : ℕ) : FreeList :=
  let alignedSize := nextMultipleOf size alignment
  let (newOffset, newSize, regions) := coalescePrev fl.freeRegions offset alignedSize
  let (newSize, regions) := coalesceNext regions newOffset newSize
  { fl with
    freeRegions := regions.insert newOffset newSize
    used := fl.used - alignedSize }

end FreeList

/-! ## Free regions and allocations tile the pool -/

/-- A nonempty interval of a tiling starts where no other one starts. -/
theorem start_ne {n s a : ℕ} {bs : List Seg} (h : Tiles n ((s, a) :: bs)) (ha : 0 < a) {q : Seg}
    (hq : q ∈ bs) (hpos : 0 < q.2) : q.1 ≠ s := by
  have hperm : ((s, a) :: q :: bs.erase q).Perm ((s, a) :: bs) :=
    (perm_cons_erase hq).symm.cons _
  have hdisj := h.disjoint_of_perm hperm ha hpos
  unfold Seg.Disjoint at hdisj
  omega

namespace FreeList

/-- The free regions and the allocations `live` tile the pool, and none of them is empty. -/
structure Serves (fl : FreeList) (live : List Seg) : Prop where
  tiles : Tiles fl.capacity (fl.freeRegions.entries ++ live)
  pos : ∀ b ∈ fl.freeRegions.entries ++ live, 0 < b.2

/-- The part of `Serves` about one list of regions, for the steps in between. -/
def Free (n : ℕ) (regions : OrdMap ℕ ℕ) (live : List Seg) : Prop :=
  Tiles n (regions.entries ++ live) ∧ ∀ b ∈ regions.entries ++ live, 0 < b.2

variable {n offset size : ℕ} {regions : OrdMap ℕ ℕ} {live : List Seg} {fl : FreeList}

theorem Free.erase (h : Free n regions live) (hget : regions.get? offset = some size) :
    Free n (regions.erase offset) ((offset, size) :: live) := by
  have hperm : ((regions.erase offset).entries ++ (offset, size) :: live).Perm
      (regions.entries ++ live) :=
    perm_middle.trans ((entries_erase hget).append_right live).symm
  exact ⟨(perm hperm).mpr h.1, fun b hb => h.2 b (hperm.mem_iff.mp hb)⟩

/-- Putting a region among the free ones: no free region starts there yet. -/
theorem Free.insert (h : Free n regions ((offset, size) :: live)) :
    Free n (regions.insert offset size) live := by
  have hpos : 0 < size := h.2 (offset, size) (by simp)
  have hnone : regions.get? offset = none := by
    rw [Option.eq_none_iff_forall_ne_some]
    intro a ha
    have hmem : (offset, a) ∈ regions.entries ++ live :=
      mem_append_left _ (mem_entries.mpr ha)
    refine start_ne ((perm perm_middle).mp h.1) hpos hmem (h.2 _ ?_) rfl
    exact perm_middle.mem_iff.mpr (mem_cons_of_mem _ hmem)
  have hperm : ((regions.insert offset size).entries ++ live).Perm
      (regions.entries ++ (offset, size) :: live) :=
    ((entries_insert_of_none hnone).append_right live).trans perm_middle.symm
  exact ⟨(perm hperm).mpr h.1, fun b hb => h.2 b (hperm.mem_iff.mp hb)⟩

variable {a b : ℕ}

theorem Free.cut (h : Free n regions ((offset, a + b) :: live)) (ha : 0 < a) (hb : 0 < b) :
    Free n regions ((offset + a, b) :: (offset, a) :: live) := by
  refine ⟨?_, fun c hc => ?_⟩
  · have hcut := split.mp ((perm perm_middle).mp h.1)
    refine (perm ?_).mp hcut
    exact (List.Perm.swap _ _ _).trans ((perm_middle.symm.cons _).trans perm_middle.symm)
  · have hold := h.2 c
    simp only [mem_append, mem_cons] at hc hold
    rcases hc with hc | rfl | rfl | hc
    · exact hold (.inl hc)
    · exact hb
    · exact ha
    · exact hold (.inr (.inr hc))

theorem Free.join (h : Free n regions ((offset + a, b) :: (offset, a) :: live)) :
    Free n regions ((offset, a + b) :: live) := by
  refine ⟨?_, fun c hc => ?_⟩
  · refine (perm perm_middle).mpr (split.mpr ((perm ?_).mp h.1))
    exact perm_middle.trans ((perm_middle.cons _).trans (List.Perm.swap _ _ _))
  · have hold := h.2 c
    have ha := h.2 (offset, a) (by simp)
    simp only [mem_append, mem_cons] at hc hold
    rcases hc with hc | rfl | hc
    · exact hold (.inl hc)
    · exact Nat.lt_of_lt_of_le ha (Nat.le_add_right _ _)
    · exact hold (.inr (.inr (.inr hc)))

theorem new_serves (capacity : ℕ) : (new capacity).Serves [] := by
  by_cases hcap : 0 < capacity
  · have hentries : (new capacity).freeRegions.entries = [(0, capacity)] := by
      simp [new, hcap, OrdMap.insert, OrdMap.empty, insertEntry]
    refine ⟨fun x => ?_, ?_⟩
    · rw [hentries, show (new capacity).capacity = capacity from rfl]
      simp [Seg.has]
    · simpa [hentries] using hcap
  · have hentries : (new capacity).freeRegions.entries = [] := by
      simp [new, hcap, OrdMap.empty]
    have hzero : (new capacity).capacity = 0 := by
      simpa [new] using hcap
    exact ⟨fun x => by simp [hentries, hzero], by simp [hentries]⟩

/-- **An allocation is served**: what is handed out is cut off a free region. -/
theorem allocate_serves {fl' : FreeList} (h : fl.Serves live)
    (hall : fl.allocate size = some (offset, fl')) :
    fl'.Serves ((offset, nextMultipleOf size alignment) :: live) ∧ fl'.capacity = fl.capacity := by
  unfold allocate at hall
  split_ifs at hall with hsize
  have haligned : 0 < nextMultipleOf size alignment :=
    Nat.lt_of_lt_of_le (Nat.pos_of_ne_zero hsize) (nextMultipleOf_spec (by decide)).2.1
  dsimp only at hall
  split at hall
  · cases hall
  next start regionSize hfind =>
    obtain ⟨rfl, rfl⟩ := Prod.mk.inj (Option.some.inj hall)
    have hget : fl.freeRegions.get? start = some regionSize :=
      mem_entries.mp (mem_of_find?_eq_some hfind)
    have hle : nextMultipleOf size alignment ≤ regionSize := by
      simpa using find?_some hfind
    have hfree := Free.erase ⟨h.tiles, h.pos⟩ hget
    dsimp only
    by_cases hrem : 0 < regionSize - nextMultipleOf size alignment
    · rw [show regionSize = nextMultipleOf size alignment
        + (regionSize - nextMultipleOf size alignment) by omega] at hfree
      obtain ⟨htiles, hpos⟩ := (hfree.cut haligned hrem).insert
      rw [if_pos hrem]
      exact ⟨⟨htiles, hpos⟩, rfl⟩
    · rw [show regionSize = nextMultipleOf size alignment by omega] at hfree
      rw [if_neg hrem]
      exact ⟨⟨hfree.1, hfree.2⟩, rfl⟩

theorem get?_of_regionBefore {o s : ℕ} (h : regionBefore regions offset = some (o, s)) :
    regions.get? o = some s := by
  unfold regionBefore at h
  split_ifs at h
  exact (floor?_eq_some h).1

theorem coalescePrev_free (h : Free n regions ((offset, size) :: live)) :
    Free n (coalescePrev regions offset size).2.2
      (((coalescePrev regions offset size).1, (coalescePrev regions offset size).2.1) :: live) := by
  unfold coalescePrev
  split
  next prevOffset prevSize hprev =>
    split_ifs with hadj
    · obtain ⟨htiles, hpos⟩ := h.erase (get?_of_regionBefore hprev)
      have hswap : ((regions.erase prevOffset).entries ++
          (prevOffset, prevSize) :: (offset, size) :: live).Perm
          ((regions.erase prevOffset).entries ++
            (prevOffset + prevSize, size) :: (prevOffset, prevSize) :: live) := by
        rw [hadj]
        exact (List.Perm.swap _ _ _).append_left _
      have hjoin := Free.join
        ⟨(perm hswap).mp htiles, fun b hb => hpos b (hswap.mem_iff.mpr hb)⟩
      rwa [Nat.add_comm] at hjoin
    · exact h
  next => exact h

theorem coalesceNext_free (h : Free n regions ((offset, size) :: live)) :
    Free n (coalesceNext regions offset size).2
      ((offset, (coalesceNext regions offset size).1) :: live) := by
  unfold coalesceNext
  split
  next nextSize hget => exact (h.erase hget).join
  next => exact h

/-- **A slot is given back**: it becomes free again, joined with its free neighbours. -/
theorem deallocate_serves (h : fl.Serves ((offset, nextMultipleOf size alignment) :: live)) :
    (fl.deallocate offset size).Serves live ∧
      (fl.deallocate offset size).capacity = fl.capacity := by
  obtain ⟨htiles, hpos⟩ := (coalesceNext_free (coalescePrev_free ⟨h.tiles, h.pos⟩)).insert
  exact ⟨⟨htiles, hpos⟩, rfl⟩

end FreeList

/-! ## The slots -/

/-- The slot of a key: where it starts and the size that was asked for. -/
structure Slot where
  offset : Pointer
  size : UInt32
  deriving DecidableEq, Repr

/-- The bytes a slot takes: its size, rounded up to whole pages. -/
def Slot.seg (slot : Slot) : Seg := (slot.offset, nextMultipleOf slot.size.toNat alignment)

/-- The ranges of the slots. -/
def slotSegs (slots : OrdMap CacheKey Slot) : List Seg := slots.entries.map fun e => e.2.seg

variable {key : CacheKey} {slot : Slot} {slots : OrdMap CacheKey Slot}

theorem slotSegs_insert (h : slots.get? key = none) :
    (slotSegs (slots.insert key slot)).Perm (slot.seg :: slotSegs slots) :=
  (entries_insert_of_none h).map _

theorem slotSegs_erase (h : slots.get? key = some slot) :
    (slotSegs slots).Perm (slot.seg :: slotSegs (slots.erase key)) :=
  (entries_erase h).map _

theorem FreeList.Serves.perm {fl : FreeList} {live live' : List Seg} (h : fl.Serves live)
    (hperm : live'.Perm live) : fl.Serves live' :=
  ⟨(Tiles.perm (hperm.append_left _)).mpr h.tiles,
    fun b hb => h.pos b ((hperm.append_left _).mem_iff.mp hb)⟩

/-- The pool: a slot per key, and the allocator they were cut from. -/
structure Tier where
  slots : OrdMap CacheKey Slot
  allocator : FreeList
  /-- The allocations outstanding are the slots. -/
  serves : allocator.Serves (slotSegs slots)

namespace Tier

/-- A pool without slots. -/
def new (capacity : ℕ) : Tier := ⟨OrdMap.empty, FreeList.new capacity, FreeList.new_serves capacity⟩

/-- Reserve a slot. Which keys are oldest is the business of the eviction policy, which is not
part of the state here. -/
def insert (tier : Tier) (key : CacheKey) (size : UInt32) : Except MemoryTierError Pointer × Tier :=
  if size = 0 then (.error .invalidSize, tier)
  else
    match hget : tier.slots.get? key with
    | some _ => (.error (.alreadyExists key), tier)
    | none =>
      match hall : tier.allocator.allocate size.toNat with
      | none => (.error .poolFull, tier)
      | some (offset, allocator) =>
        (.ok offset,
          { slots := tier.slots.insert key ⟨offset, size⟩
            allocator
            serves := (FreeList.allocate_serves tier.serves hall).1.perm
              (slotSegs_insert hget) })

/-- The slot of a key, without touching its place in the eviction order. -/
def peek (tier : Tier) (key : CacheKey) : Option (Pointer × UInt32) :=
  (tier.slots.get? key).map fun slot => (slot.offset, slot.size)

/-- Free the slot of a key. -/
def remove (tier : Tier) (key : CacheKey) : Except MemoryTierError Unit × Tier :=
  match hget : tier.slots.get? key with
  | none => (.error (.keyNotFound key), tier)
  | some slot =>
    (.ok (),
      { slots := tier.slots.erase key
        allocator := tier.allocator.deallocate slot.offset slot.size.toNat
        serves := (FreeList.deallocate_serves
          (tier.serves.perm (slotSegs_erase hget).symm)).1 })

/-- Whether a key has a slot. -/
def contains (tier : Tier) (key : CacheKey) : Bool := (tier.slots.get? key).isSome

/-- The bytes in use. -/
def used (tier : Tier) : ℕ := tier.allocator.used

/-- The bytes of the pool. -/
def capacity (tier : Tier) : ℕ := tier.allocator.capacity

variable {tier : Tier} {key other : CacheKey} {size : UInt32}

/-! ### What the operations do to the slots -/

/-- What an insertion does: it fails and changes nothing, or adds a slot under a key that had
none. -/
theorem insert_cases : (∃ e, tier.insert key size = (.error e, tier)) ∨
      ∃ p tier', tier.insert key size = (.ok p, tier') ∧ size ≠ 0 ∧
        tier.slots.get? key = none ∧ tier'.slots = tier.slots.insert key ⟨p, size⟩ := by
  unfold insert
  split_ifs with hsize
  · exact .inl ⟨_, rfl⟩
  · split
    · exact .inl ⟨_, rfl⟩
    next hget =>
      split
      · exact .inl ⟨_, rfl⟩
      · exact .inr ⟨_, _, rfl, hsize, hget, rfl⟩

variable {tier' : Tier}

/-- An insertion that succeeds adds one slot, under a key that had none. -/
theorem insert_ok {p : Pointer} (h : tier.insert key size = (.ok p, tier')) :
    size ≠ 0 ∧ tier.slots.get? key = none ∧ tier'.slots = tier.slots.insert key ⟨p, size⟩ := by
  rcases @insert_cases tier key size with ⟨e, he⟩ | ⟨q, u, hu, hrest⟩
  · rw [he] at h
    cases h
  · rw [hu] at h
    cases h
    exact hrest

/-- An insertion that fails changes nothing. -/
theorem insert_error {e : MemoryTierError} (h : tier.insert key size = (.error e, tier')) :
    tier' = tier := by
  rcases @insert_cases tier key size with ⟨e', he⟩ | ⟨q, u, hu, -⟩
  · rw [he] at h
    cases h
    rfl
  · rw [hu] at h
    cases h

theorem remove_of_none (h : tier.slots.get? key = none) :
    tier.remove key = (.error (.keyNotFound key), tier) := by
  unfold remove
  split
  · rfl
  next hsome => rw [h] at hsome; cases hsome

@[simp] theorem get?_remove : (tier.remove key).2.slots.get? other
      = if other = key then none else tier.slots.get? other := by
  unfold remove
  split
  next hget => split_ifs with hk <;> simp [hk, hget]
  · simp

/-- **Slots of different keys do not overlap.** -/
theorem disjoint {slot slot' : Slot} (hne : key ≠ other) (h : tier.slots.get? key = some slot)
    (h' : tier.slots.get? other = some slot') : slot.seg.Disjoint slot'.seg := by
  have herase : (tier.slots.erase key).get? other = some slot' := by
    simpa [hne.symm] using h'
  have hperm : (slot.seg :: slot'.seg :: slotSegs ((tier.slots.erase key).erase other)).Perm
      (slotSegs tier.slots) :=
    (((slotSegs_erase herase).cons _).symm).trans (slotSegs_erase h).symm
  have hmem := fun b (hb : b ∈ [slot.seg, slot'.seg]) => hperm.mem_iff.mp
    (show b ∈ slot.seg :: slot'.seg :: _ by
      simp only [mem_cons, not_mem_nil, or_false] at hb ⊢
      exact hb.imp_right .inl)
  have hpos := fun b hb => tier.serves.pos b (mem_append_right _ (hmem b hb))
  have hall : (slot.seg :: slot'.seg :: (tier.allocator.freeRegions.entries ++
      slotSegs ((tier.slots.erase key).erase other))).Perm
      (tier.allocator.freeRegions.entries ++ slotSegs tier.slots) :=
    ((perm_middle.symm.cons _).trans perm_middle.symm).trans (hperm.append_left _)
  exact tier.serves.tiles.disjoint_of_perm hall (hpos _ (by simp)) (hpos _ (by simp))

end Tier

end Certus.MemoryTier
