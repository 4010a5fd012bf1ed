import Certus.EvictionPolicy.Lru
import Certus.Lib.Run
import Certus.MemoryTier.Pool

/-! # The memory tier component

The component splits its pool into a cache and, at the top, a bounce reserve from which buffers are
leased to serve block-tier entries to peers. Each part has a free list of its own; which slot of the
cache goes next is decided by an eviction policy.

* **`Pool.tier`** — the cache without the policy's handles: the memory tier as the dispatcher uses
  it.
* **`ranges_disjoint`** — in every run, slots and leases are disjoint ranges of the pool. -/

namespace Certus.MemoryTier

open List Option OrdMap FreeList

/-! ## The bytes in use -/

namespace FreeList

/-- The allocator serves `live` and counts its bytes. -/
structure Accounts (fl : FreeList) (live : List Seg) : Prop where
  serves : fl.Serves live
  used_eq : fl.used = (live.map Prod.snd).sum

variable {fl fl' : FreeList} {live live' : List Seg} {offset size : ℕ}

theorem new_accounts (capacity : ℕ) : (new capacity).Accounts [] :=
  ⟨new_serves capacity, rfl⟩

theorem Accounts.perm (h : fl.Accounts live) (hperm : live'.Perm live) : fl.Accounts live' :=
  ⟨h.serves.perm hperm, h.used_eq.trans (hperm.map Prod.snd).sum_eq.symm⟩

theorem allocate_used (h : fl.allocate size = some (offset, fl')) :
    fl'.used = fl.used + nextMultipleOf size alignment := by
  unfold allocate at h
  split_ifs at h
  dsimp only at h
  split at h
  · cases h
  · cases h
    rfl

theorem allocate_accounts (h : fl.Accounts live) (hall : fl.allocate size = some (offset, fl')) :
    fl'.Accounts ((offset, nextMultipleOf size alignment) :: live) := by
  refine ⟨(allocate_serves h.serves hall).1, ?_⟩
  rw [allocate_used hall, h.used_eq, map_cons, sum_cons, Nat.add_comm]

theorem deallocate_accounts (h : fl.Accounts ((offset, nextMultipleOf size alignment) :: live)) :
    (fl.deallocate offset size).Accounts live := by
  refine ⟨(deallocate_serves h.serves).1, ?_⟩
  show fl.used - nextMultipleOf size alignment = _
  rw [h.used_eq, map_cons, sum_cons, Nat.add_sub_cancel_left]

/-- The check before an allocation is exact. -/
theorem canAllocate_eq_isSome : fl.canAllocate size = (fl.allocate size).isSome := by
  unfold canAllocate allocate
  by_cases hsize : size = 0
  · simp [hsize]
  · rw [if_neg hsize]
    dsimp only
    rw [decide_eq_true hsize, Bool.true_and, values, List.any_map]
    cases hfind : fl.freeRegions.entries.find?
        fun e => decide (nextMultipleOf size alignment ≤ e.2) with
    | none =>
      simpa using hfind
    | some e =>
      have hmem := mem_of_find?_eq_some hfind
      have hle := find?_some hfind
      exact List.any_eq_true.mpr ⟨e, hmem, hle⟩

end FreeList

/-! ## The cache and the bounce reserve -/

/-- A slot of the cache, with the policy's handle. -/
structure TrackedSlot extends Slot where
  evictionHandle : EvictionHandle
  deriving DecidableEq, Repr

/-- The ranges of the slots. -/
def trackedSegs (slots : OrdMap CacheKey TrackedSlot) : List Seg :=
  slots.values.map fun slot => slot.seg

/-- The cache. -/
structure Pool where
  allocator : FreeList
  slots : OrdMap CacheKey TrackedSlot
  /-- The allocations outstanding are the slots. -/
  accounts : allocator.Accounts (trackedSegs slots)

namespace Pool

/-- A cache without slots. -/
def new (cacheSize : ℕ) : Pool := ⟨FreeList.new cacheSize, empty, new_accounts _⟩

variable {slot : TrackedSlot} {slots : OrdMap CacheKey TrackedSlot}

theorem trackedSegs_insert {key : CacheKey} (h : slots.get? key = none) :
    (trackedSegs (slots.insert key slot)).Perm (slot.seg :: trackedSegs slots) :=
  ((entries_insert_of_none h).map Prod.snd).map _

theorem trackedSegs_erase {key : CacheKey} (h : slots.get? key = some slot) :
    (trackedSegs slots).Perm (slot.seg :: trackedSegs (slots.erase key)) :=
  ((entries_erase h).map Prod.snd).map _

/-- Enter a slot that was just allocated. -/
def addSlot (pool : Pool) (key : CacheKey) (slot : TrackedSlot) (allocator : FreeList)
    (hget : pool.slots.get? key = none)
    (hall : pool.allocator.allocate slot.size.toNat = some (slot.offset, allocator)) : Pool where
  allocator
  slots := pool.slots.insert key slot
  accounts := (allocate_accounts pool.accounts hall).perm (trackedSegs_insert hget)

/-- Take the slot of a key out and free its range. -/
def dropSlot (pool : Pool) (key : CacheKey) (slot : TrackedSlot)
    (hget : pool.slots.get? key = some slot) : Pool where
  allocator := pool.allocator.deallocate slot.offset slot.size.toNat
  slots := pool.slots.erase key
  accounts := deallocate_accounts (pool.accounts.perm (trackedSegs_erase hget).symm)

/-- The cache without the handles. -/
def tier (pool : Pool) : Tier where
  slots := pool.slots.map TrackedSlot.toSlot
  allocator := pool.allocator
  serves := by
    have hsegs : slotSegs (pool.slots.map TrackedSlot.toSlot) = trackedSegs pool.slots := by
      simp only [slotSegs, trackedSegs, OrdMap.map, values, List.map_map]
      rfl
    rw [hsegs]
    exact pool.accounts.serves

variable {pool : Pool} {key : CacheKey} {size : UInt32}

theorem tier_insert_of_some (hsize : size ≠ 0) (hget : pool.slots.get? key = some slot) :
    pool.tier.insert key size = (.error (.alreadyExists key), pool.tier) := by
  have htier : pool.tier.slots.get? key = some slot.toSlot := by simp [tier, hget]
  rw [Tier.insert, if_neg hsize]
  split
  · rfl
  next hnone => rw [htier] at hnone; cases hnone

theorem tier_insert_of_full (hsize : size ≠ 0) (hget : pool.slots.get? key = none)
    (hfull : pool.allocator.allocate size.toNat = none) :
    pool.tier.insert key size = (.error .poolFull, pool.tier) := by
  have htier : pool.tier.slots.get? key = none := by simp [tier, hget]
  rw [Tier.insert, if_neg hsize]
  split
  next hsome => rw [htier] at hsome; cases hsome
  · split
    · rfl
    next hall => rw [show pool.tier.allocator = pool.allocator from rfl, hfull] at hall; cases hall

theorem tier_dropSlot (hget : pool.slots.get? key = some slot) :
    pool.tier.remove key = (.ok (), (pool.dropSlot key slot hget).tier) := by
  have htier : pool.tier.slots.get? key = some slot.toSlot := by simp [tier, hget]
  unfold Tier.remove
  split
  next hnone => rw [htier] at hnone; cases hnone
  next slot' hsome =>
    rw [htier] at hsome
    cases hsome
    simp only [tier, dropSlot, OrdMap.map_erase]

end Pool

/-- The range of a lease, from the start of the reserve. -/
def leaseSeg (lease : ℕ × UInt32) : Seg := (lease.1, nextMultipleOf lease.2.toNat alignment)

/-- The bounce reserve: its allocator and the live buffers, offset to length. -/
structure Bounce where
  allocator : FreeList
  live : OrdMap ℕ UInt32
  /-- The allocations outstanding are the live buffers. -/
  accounts : allocator.Accounts (live.entries.map leaseSeg)

namespace Bounce

/-- A reserve without leases. -/
def new (reserve : ℕ) : Bounce := ⟨FreeList.new reserve, empty, new_accounts _⟩

/-- A live buffer starts where no other one does. -/
theorem live_get?_of_allocate {bounce : Bounce} {len off : ℕ} {allocator : FreeList}
    (hall : bounce.allocator.allocate len = some (off, allocator)) :
    bounce.live.get? off = none := by
  rw [eq_none_iff_forall_ne_some]
  intro len' hget
  have hserves := (allocate_accounts bounce.accounts hall).serves
  have hmem : leaseSeg (off, len') ∈
      allocator.freeRegions.entries ++ bounce.live.entries.map leaseSeg :=
    mem_append_right _ (List.mem_map.mpr ⟨_, mem_entries.mpr hget, rfl⟩)
  have hpos := fun b hb => hserves.pos b (perm_middle.mem_iff.mpr hb)
  exact start_ne ((Tiles.perm perm_middle).mp hserves.tiles) (hpos _ (mem_cons_self ..))
    hmem (hpos _ (mem_cons_of_mem _ hmem)) rfl

/-- Lease a buffer. -/
def lease (bounce : Bounce) (len : UInt32) : Option (ℕ × Bounce) :=
  match hall : bounce.allocator.allocate len.toNat with
  | none => none
  | some (off, allocator) =>
    some (off,
      { allocator
        live := bounce.live.insert off len
        accounts := (allocate_accounts bounce.accounts hall).perm
          ((entries_insert_of_none (live_get?_of_allocate hall)).map leaseSeg) })

/-- Give a live buffer back. -/
def release (bounce : Bounce) (off : ℕ) (len : UInt32)
    (hget : bounce.live.get? off = some len) : Bounce where
  allocator := bounce.allocator.deallocate off len.toNat
  live := bounce.live.erase off
  accounts := deallocate_accounts
    (bounce.accounts.perm ((entries_erase hget).map leaseSeg).symm)

end Bounce

/-! ## The component -/

/-- The component. Pointers are distances from the start of the pool; the policy is the one its
receptacle is connected to. -/
structure MemoryTierState (P : Type) where
  poolSize : ℕ
  cacheSize : ℕ
  bounceRequest : ℕ
  bounce : Bounce
  poolId : PoolId
  pool : Pool
  initialized : Bool
  spdkAllocated : Bool
  policy : P

open MemoryTierState

/-- The reserve taken from a pool: at most an eighth of it, in whole pages. -/
def bounceReserveBytes (requested poolSize : ℕ) : ℕ := min requested (poolSize / 8) / 4096 * 4096

namespace MemoryTierState

variable {P : Type} (ep : EvictionPolicy P)

/-- The component before `initialize`. -/
def new (policy : P) : MemoryTierState P where
  poolSize := 0
  cacheSize := 0
  bounceRequest := defaultBounceReserve
  bounce := Bounce.new 0
  poolId := 0
  pool := Pool.new 0
  initialized := false
  spdkAllocated := false
  policy := policy

section

variable (st : MemoryTierState P)

/-- Ask for another reserve. -/
def setBounceReserve (bytes : ℕ) : Except MemoryTierError Unit × MemoryTierState P :=
  if st.initialized then
    (.error (.allocationFailed "the bounce reserve is taken at initialize; set it before"), st)
  else (.ok (), { st with bounceRequest := bytes })

/-- Take the pool. `mapped` is the answer of the system to the request for memory: why it failed, or
whether the memory is SPDK's. -/
def initializePool (poolSize : ℕ) (mapped : Except String Bool) :
    Except MemoryTierError Unit × MemoryTierState P :=
  if poolSize = 0 then (.error .invalidSize, st)
  else if st.initialized then (.error (.allocationFailed "already initialized"), st)
  else
    match mapped with
    | .error msg => (.error (.allocationFailed msg), st)
    | .ok spdkAllocated =>
      let (poolId, policy) := ep.createPool st.policy
      let reserve := bounceReserveBytes st.bounceRequest poolSize
      let cacheSize := if reserve = 0 then poolSize else (poolSize - reserve) / 4096 * 4096
      (.ok (),
        { st with
          poolSize, cacheSize, poolId, spdkAllocated, policy
          bounce := Bounce.new reserve
          pool := Pool.new cacheSize
          initialized := true })

/-- Reserve a slot. Room is checked before the policy is asked, so that a refusal has changed
nothing. -/
def insert (key : CacheKey) (size : UInt32) :
    Option (Except MemoryTierError Pointer × MemoryTierState P) :=
  if size = 0 then some (.error .invalidSize, st)
  else if !st.initialized then some (.error (.notInitialized "pool not initialized"), st)
  else
    match hget : st.pool.slots.get? key with
    | some _ => some (.error (.alreadyExists key), st)
    | none =>
      if !st.pool.allocator.canAllocate size.toNat then some (.error .poolFull, st)
      else do
        let (tracked, policy) ← ep.track st.policy st.poolId key {}
        match tracked with
        | .error e =>
          some (.error (.notInitialized ("eviction policy refused to track key "
            ++ toString key ++ ": " ++ e.toString)), { st with policy })
        | .ok evictionHandle =>
          match hall : st.pool.allocator.allocate size.toNat with
          | none => do
              let (_, policy) ← ep.remove policy evictionHandle
              some (.error .poolFull, { st with policy })
          | some (offset, allocator) =>
            some (.ok offset,
              { st with
                policy
                pool := st.pool.addSlot key ⟨⟨offset, size⟩, evictionHandle⟩ allocator hget
                  hall })

/-- The slot of a key, if it still has one, is freed. -/
def dropSlot (st : MemoryTierState P) (key : CacheKey) : MemoryTierState P :=
  match hget : st.pool.slots.get? key with
  | none => st
  | some slot => { st with pool := st.pool.dropSlot key slot hget }

/-- Free the slot the policy chooses. -/
def evictNext : Option (Option CacheKey × MemoryTierState P) :=
  if !st.initialized then some (none, st)
  else do
    let (next, policy) ← ep.identifyNextToEvict st.policy st.poolId
    match next with
    | none => some (none, { st with policy })
    | some key => some (some key, ({ st with policy }).dropSlot key)

/-- Free the slot of a key. -/
def remove (st : MemoryTierState P) (key : CacheKey) :
    Option (Except MemoryTierError Unit × MemoryTierState P) :=
  if !st.initialized then some (.error (.notInitialized "pool not initialized"), st)
  else
    match hget : st.pool.slots.get? key with
    | none => some (.error (.keyNotFound key), st)
    | some slot => do
        let (_, policy) ← ep.remove st.policy slot.evictionHandle
        some (.ok (), { st with policy, pool := st.pool.dropSlot key slot hget })

/-- Free all slots. -/
def clear : Except MemoryTierError ℕ × MemoryTierState P :=
  if !st.initialized then (.error (.notInitialized "pool not initialized"), st)
  else
    (.ok st.pool.slots.entries.length,
      { st with
        pool := Pool.new st.cacheSize
        policy := ep.clearPool st.policy st.poolId })

/-- The bytes in use in the cache. -/
def used (st : MemoryTierState P) : ℕ := if st.initialized then st.pool.allocator.used else 0

/-- Lease a buffer of the reserve. -/
def bounceAlloc (len : UInt32) : Except BounceError BounceBuffer × MemoryTierState P :=
  if !st.initialized then (.error (.notInitialized "pool not initialized"), st)
  else
    let reserve := st.bounce.allocator.capacity
    if !st.spdkAllocated then
      (.error (.neverFits "the pool is not DMA-capable (no SPDK environment)"), st)
    else
      let need := nextMultipleOf len.toNat 4096
      if len = 0 ∨ reserve < need then
        (.error (.neverFits (toString len ++ " bytes against a bounce reserve of "
          ++ toString reserve)), st)
      else
        match st.bounce.lease len with
        | none => (.error .noSpace, st)
        | some (off, bounce) => (.ok ⟨st.cacheSize + off, len⟩, { st with bounce })

/-- Give a buffer back. Anything but a live buffer with its own length panics. -/
def bounceFree (buf : BounceBuffer) : Option (MemoryTierState P) :=
  if st.cacheSize ≤ buf.ptr then
    match hget : st.bounce.live.get? (buf.ptr - st.cacheSize) with
    | some len =>
      if len = buf.len then
        some { st with bounce := st.bounce.release (buf.ptr - st.cacheSize) len hget }
      else none
    | none => none
  else none

end

/-! ### What the operations do -/

variable {ep} {st st' : MemoryTierState P} {key : CacheKey} {size : UInt32}

/-- What the operations on the cache leave alone, and what they may do to the cache. -/
structure CacheStep (st st' : MemoryTierState P) : Prop where
  poolSize : st'.poolSize = st.poolSize
  cacheSize : st'.cacheSize = st.cacheSize
  initialized : st'.initialized = st.initialized
  bounce : st'.bounce = st.bounce
  pool : st'.pool = st.pool ∨ st.initialized ∧
    (st'.pool.allocator.capacity = st.pool.allocator.capacity ∨
      st'.pool.allocator.capacity = st.cacheSize)

open CacheStep

theorem CacheStep.refl (st : MemoryTierState P) : CacheStep st st :=
  ⟨rfl, rfl, rfl, rfl, .inl rfl⟩

/-- **What an insertion does**: it fails and nothing has changed, as the tier's insertion does or with
`NotInitialized`, or the cache has one slot more. -/
theorem insert_cases {r : Except MemoryTierError Pointer}
    (h : st.insert ep key size = some (r, st')) :
    (∃ e, r = .error e ∧ st' = st ∧
      (st.pool.tier.insert key size = (.error e, st.pool.tier) ∨ ∃ msg, e = .notInitialized msg)) ∨
      ∃ slot policy allocator, ∃ hget : st.pool.slots.get? key = none,
        ∃ hall : st.pool.allocator.allocate slot.size.toNat = some (slot.offset, allocator),
          slot.size = size ∧ size ≠ 0 ∧ r = .ok slot.offset ∧ st.initialized ∧
            st' = { st with policy, pool := st.pool.addSlot key slot allocator hget hall } := by
  unfold insert at h
  split_ifs at h with hsize hinit hroom
  · cases h
    exact .inl ⟨_, rfl, rfl, .inl (by rw [Tier.insert, if_pos hsize])⟩
  · cases h
    exact .inl ⟨_, rfl, rfl, .inr ⟨_, rfl⟩⟩
  · left
    rw [canAllocate_eq_isSome, Bool.not_eq_eq_eq_not, Bool.not_true,
      isSome_eq_false_iff, isNone_iff_eq_none] at hroom
    split at h <;> cases h
    next slot hget => exact ⟨_, rfl, rfl, .inl (Pool.tier_insert_of_some hsize hget)⟩
    next hget => exact ⟨_, rfl, rfl, .inl (Pool.tier_insert_of_full hsize hget hroom)⟩
  · split at h
    next slot hget =>
      cases h
      exact .inl ⟨_, rfl, rfl, .inl (Pool.tier_insert_of_some hsize hget)⟩
    next hget =>
      obtain ⟨⟨tracked, policy⟩, htrack, h⟩ := bind_eq_some_iff.mp h
      dsimp only at h
      split at h
      · cases h
        rw [ep.track_error htrack]
        exact .inl ⟨_, rfl, rfl, .inr ⟨_, rfl⟩⟩
      next evictionHandle =>
        split at h
        next hnone =>
          -- the check for room was exact, so this branch is not taken
          rw [canAllocate_eq_isSome, hnone] at hroom
          exact absurd rfl hroom
        next offset allocator hall =>
          cases h
          exact .inr ⟨⟨⟨offset, size⟩, evictionHandle⟩, policy, allocator, hget, hall, rfl, hsize,
            rfl, by simpa using hinit, rfl⟩

theorem insert_error {e : MemoryTierError} (h : st.insert ep key size = some (.error e, st')) :
    st' = st := by
  rcases insert_cases h with ⟨-, -, hst, -⟩ | ⟨_, _, _, _, _, -, -, hr, -⟩
  · exact hst
  · cases hr

variable {r : Except MemoryTierError Pointer}

theorem insert_step (h : st.insert ep key size = some (r, st')) : CacheStep st st' := by
  rcases insert_cases h with
    ⟨-, -, rfl, -⟩ | ⟨slot, policy, allocator, hget, hall, -, -, -, hinit, rfl⟩
  · exact refl _
  · exact ⟨rfl, rfl, rfl, rfl,
      .inr ⟨hinit, .inl (allocate_serves st.pool.accounts.serves hall).2⟩⟩

theorem dropSlot_step (k : CacheKey) (hinit : st.initialized) : CacheStep st (st.dropSlot k) := by
  unfold dropSlot
  split
  · exact refl _
  · exact ⟨rfl, rfl, rfl, rfl, .inr ⟨hinit, .inl rfl⟩⟩

theorem evictNext_step {r : Option CacheKey} (h : st.evictNext ep = some (r, st')) :
    CacheStep st st' := by
  unfold evictNext at h
  split_ifs at h with hinit
  · cases h
    exact refl _
  · obtain ⟨⟨next, policy⟩, -, h⟩ := bind_eq_some_iff.mp h
    have hinit' : ({ st with policy } : MemoryTierState P).initialized := by
      simpa using hinit
    dsimp only at h
    split at h
    · cases h
      exact ⟨rfl, rfl, rfl, rfl, .inl rfl⟩
    next k =>
      cases h
      obtain ⟨hps, hcs, hin, hb, hpool⟩ := dropSlot_step k hinit'
      exact ⟨hps, hcs, hin, hb, hpool⟩

theorem remove_step {r : Except MemoryTierError Unit}
    (h : st.remove ep key = some (r, st')) : CacheStep st st' := by
  unfold remove at h
  split_ifs at h with hinit
  · cases h
    exact refl _
  · split at h
    · cases h
      exact refl _
    · obtain ⟨⟨removed, policy⟩, -, h⟩ := bind_eq_some_iff.mp h
      cases h
      exact ⟨rfl, rfl, rfl, rfl, .inr ⟨by simpa using hinit, .inl rfl⟩⟩

theorem clear_step : CacheStep st (st.clear ep).2 := by
  unfold clear
  split_ifs with hinit
  · exact refl _
  · exact ⟨rfl, rfl, rfl, rfl, .inr ⟨by simpa using hinit, .inr rfl⟩⟩

/-! ### The memory tier of the dispatcher -/

/-- **A removal is the tier's**, once the component is initialized. -/
theorem remove_refines {r : Except MemoryTierError Unit} (hinit : st.initialized)
    (h : st.remove ep key = some (r, st')) : (r, st'.pool.tier) = st.pool.tier.remove key := by
  unfold remove at h
  rw [if_neg (by simp [hinit])] at h
  split at h
  next hget =>
    cases h
    exact (Tier.remove_of_none (by simp [Pool.tier, hget])).symm
  next slot hget =>
    obtain ⟨⟨removed, policy⟩, -, h⟩ := bind_eq_some_iff.mp h
    cases h
    exact (Pool.tier_dropSlot hget).symm

/-! ### The split of the pool -/

/-- The cache ends where the reserve starts, the reserve ends inside the pool, and nothing is handed
out before `initialize`. -/
structure Laid (st : MemoryTierState P) : Prop where
  capacity : st.pool.allocator.capacity = st.cacheSize
  fits : st.cacheSize + st.bounce.allocator.capacity ≤ st.poolSize
  idle : st.initialized = false → trackedSegs st.pool.slots = [] ∧ st.bounce.live.entries = []

theorem laid_new (policy : P) : (new policy).Laid := ⟨rfl, Nat.le_refl 0, fun _ => ⟨rfl, rfl⟩⟩

/-- The reserve leaves room for the cache. -/
theorem bounceReserveBytes_le (requested poolSize : ℕ) :
    bounceReserveBytes requested poolSize ≤ poolSize := by
  unfold bounceReserveBytes
  have := Nat.min_le_right requested (poolSize / 8)
  omega

section

variable (h : st.Laid)
include h

theorem Laid.setBounceReserve (bytes : ℕ) : (st.setBounceReserve bytes).2.Laid := by
  unfold MemoryTierState.setBounceReserve
  split_ifs
  · exact h
  · exact ⟨h.capacity, h.fits, h.idle⟩

theorem Laid.initializePool (poolSize : ℕ) (mapped : Except String Bool) :
    (st.initializePool ep poolSize mapped).2.Laid := by
  unfold MemoryTierState.initializePool
  split_ifs
  · exact h
  · exact h
  · split
    · exact h
    · refine ⟨rfl, ?_, fun hinit => by cases hinit⟩
      have hle := bounceReserveBytes_le st.bounceRequest poolSize
      dsimp only [Bounce.new, FreeList.new]
      generalize bounceReserveBytes st.bounceRequest poolSize = reserve at hle ⊢
      split_ifs <;> omega

theorem Laid.cacheStep (hstep : CacheStep st st') : st'.Laid := by
  obtain ⟨hps, hcs, hin, hb, hpool⟩ := hstep
  refine ⟨?_, by rw [hcs, hb, hps]; exact h.fits, fun hidle => ?_⟩
  · rcases hpool with hpool | ⟨-, hcap | hcap⟩
    · rw [hpool, hcs, h.capacity]
    · rw [hcap, hcs, h.capacity]
    · rw [hcap, hcs]
  · rw [hin] at hidle
    rcases hpool with hpool | ⟨hinit, -⟩
    · rw [hpool, hb]
      exact h.idle hidle
    · rw [hidle] at hinit
      cases hinit

/-- The bytes in use are the rounded sizes of the slots. -/
theorem Laid.used_eq : st.used = ((trackedSegs st.pool.slots).map Prod.snd).sum := by
  unfold used
  cases hinit : st.initialized with
  | true => exact st.pool.accounts.used_eq
  | false => simp [(h.idle hinit).1]

end

/-! ### The bounce reserve -/

/-- The buffers that are out, as their holders see them. -/
def liveBuffers (st : MemoryTierState P) : List BounceBuffer :=
  st.bounce.live.entries.map fun lease => ⟨st.cacheSize + lease.1, lease.2⟩

theorem CacheStep.liveBuffers (h : CacheStep st st') : st'.liveBuffers = st.liveBuffers := by
  simp only [MemoryTierState.liveBuffers, h.bounce, h.cacheSize]

/-- **What a lease does**: it fails and nothing has changed, or the reserve has one live buffer
more. -/
theorem bounceAlloc_cases (st : MemoryTierState P) (len : UInt32) :
    (∃ e, st.bounceAlloc len = (.error e, st)) ∨
      ∃ buf bounce, st.bounceAlloc len = (.ok buf, { st with bounce }) ∧
        st.initialized ∧ bounce.allocator.capacity = st.bounce.allocator.capacity ∧
          ({ st with bounce }).liveBuffers.Perm (buf :: st.liveBuffers) := by
  unfold bounceAlloc
  dsimp only
  split_ifs with hinit hdma hfits
  · exact .inl ⟨_, rfl⟩
  · exact .inl ⟨_, rfl⟩
  · exact .inl ⟨_, rfl⟩
  · split
    · exact .inl ⟨_, rfl⟩
    next off bounce hlease =>
      refine .inr ⟨_, _, rfl, by simpa using hinit, ?_⟩
      unfold Bounce.lease at hlease
      split at hlease
      · cases hlease
      next off' allocator hall =>
        cases hlease
        refine ⟨(allocate_serves st.bounce.accounts.serves hall).2, ?_⟩
        exact (entries_insert_of_none (Bounce.live_get?_of_allocate hall)).map _

/-- A buffer that is out can be given back, and then it is the only one that is no longer out. -/
theorem bounceFree_of_mem {buf : BounceBuffer} (h : buf ∈ st.liveBuffers) :
    ∃ bounce, st.bounceFree buf = some { st with bounce } ∧
      bounce.allocator.capacity = st.bounce.allocator.capacity ∧
        st.liveBuffers.Perm (buf :: ({ st with bounce }).liveBuffers) ∧
          st.bounce.live.entries ≠ [] := by
  obtain ⟨⟨off, len⟩, hmem, rfl⟩ := List.mem_map.mp h
  have hget := mem_entries.mp hmem
  have hoff : st.cacheSize + off - st.cacheSize = off := Nat.add_sub_cancel_left ..
  refine ⟨st.bounce.release off len hget, ?_, rfl, ?_, ne_nil_of_mem hmem⟩
  · unfold bounceFree
    rw [if_pos (Nat.le_add_right _ _)]
    split
    next len' hlen =>
      simp only [hoff, hget, Option.some.injEq] at hlen
      subst hlen
      simp [hoff]
    next hnone =>
      simp [hoff, hget] at hnone
  · exact (entries_erase hget).map fun lease : ℕ × UInt32 =>
      (⟨st.cacheSize + lease.1, lease.2⟩ : BounceBuffer)

end MemoryTierState

/-! ## Runs -/

/-- The operations. -/
inductive Op
  | setBounceReserve (bytes : ℕ)
  | initializePool (poolSize : ℕ) (mapped : Except String Bool)
  | insert (key : CacheKey) (size : UInt32)
  | remove (key : CacheKey)
  | evictNext
  | clear
  | bounceAlloc (len : UInt32)
  | bounceFree (buf : BounceBuffer)

/-- The component and the leases its callers hold. -/
structure Session (P : Type) where
  tier : MemoryTierState P
  leases : List BounceBuffer

namespace Session

variable {P : Type}

/-- Nothing is initialized and nothing is held. -/
def new (policy : P) : Session P := ⟨MemoryTierState.new policy, []⟩

/-- One operation. A buffer handed out is held until it is given back. -/
def step (ep : EvictionPolicy P) (s : Session P) : Op → Option (Session P)
  | .setBounceReserve bytes => some { s with tier := (s.tier.setBounceReserve bytes).2 }
  | .initializePool poolSize mapped =>
    some { s with tier := (s.tier.initializePool ep poolSize mapped).2 }
  | .insert key size => (s.tier.insert ep key size).map fun r => { s with tier := r.2 }
  | .remove key => (s.tier.remove ep key).map fun r => { s with tier := r.2 }
  | .evictNext => (s.tier.evictNext ep).map fun r => { s with tier := r.2 }
  | .clear => some { s with tier := (s.tier.clear ep).2 }
  | .bounceAlloc len =>
    match s.tier.bounceAlloc len with
    | (.ok buf, tier) => some ⟨tier, buf :: s.leases⟩
    | (.error _, tier) => some { s with tier }
  | .bounceFree buf =>
    (s.tier.bounceFree buf).map fun tier => ⟨tier, s.leases.erase buf⟩

/-- Only held leases are given back. -/
def Lawful (s : Session P) : Op → Prop
  | .bounceFree buf => buf ∈ s.leases
  | _ => True

instance (s : Session P) (op : Op) : Decidable (s.Lawful op) := by
  cases op <;> unfold Lawful <;> infer_instance

/-- The range of a lease in the pool. -/
def leaseRange (buf : BounceBuffer) : Seg := (buf.ptr, nextMultipleOf buf.len.toNat alignment)

/-- The ranges of the live slots and of the leases held. -/
def ranges (s : Session P) : List Seg :=
  trackedSegs s.tier.pool.slots ++ s.leases.map leaseRange

/-- The leases held are the buffers the component has out. -/
structure Inv (s : Session P) : Prop where
  laid : s.tier.Laid
  leases : s.leases.Perm s.tier.liveBuffers

theorem inv_new (policy : P) : (new policy).Inv :=
  ⟨MemoryTierState.laid_new policy, List.Perm.refl _⟩

variable {s t : Session P} {ep : EvictionPolicy P}

theorem Inv.cacheStep {tier : MemoryTierState P} (h : s.Inv)
    (hstep : MemoryTierState.CacheStep s.tier tier) : ({ s with tier } : Session P).Inv := by
  refine ⟨h.laid.cacheStep hstep, ?_⟩
  rw [hstep.liveBuffers]
  exact h.leases

theorem Inv.setBounceReserve (h : s.Inv) (bytes : ℕ) :
    ({ s with tier := (s.tier.setBounceReserve bytes).2 } : Session P).Inv := by
  refine ⟨h.laid.setBounceReserve bytes, h.leases.trans (List.Perm.of_eq ?_)⟩
  dsimp only [MemoryTierState.setBounceReserve]
  split_ifs <;> rfl

theorem Inv.initializePool (h : s.Inv) (ep : EvictionPolicy P) (poolSize : ℕ)
    (mapped : Except String Bool) :
    ({ s with tier := (s.tier.initializePool ep poolSize mapped).2 } : Session P).Inv := by
  refine ⟨h.laid.initializePool poolSize mapped, ?_⟩
  have hleases := h.leases
  unfold MemoryTierState.initializePool
  split_ifs with hsize hinit
  · exact hleases
  · exact hleases
  · split
    · exact hleases
    · have hidle := (h.laid.idle (by simpa using hinit)).2
      rw [liveBuffers, hidle, map_nil] at hleases
      exact hleases

theorem Inv.bounceAlloc {len : UInt32} (h : s.Inv) (hstep : s.step ep (.bounceAlloc len) = some t) :
    t.Inv := by
  rcases s.tier.bounceAlloc_cases len with ⟨e, he⟩ | ⟨buf, bounce, hbuf, hinit, hcap, hperm⟩
  · simp only [step, he, Option.some.injEq] at hstep
    exact hstep ▸ h
  · simp only [step, hbuf, Option.some.injEq] at hstep
    subst hstep
    refine ⟨⟨h.laid.capacity, ?_, fun hidle => ?_⟩, (h.leases.cons buf).trans hperm.symm⟩
    · show s.tier.cacheSize + bounce.allocator.capacity ≤ s.tier.poolSize
      rw [hcap]
      exact h.laid.fits
    · rw [show s.tier.initialized = false from hidle] at hinit
      cases hinit

theorem Inv.bounceFree {buf : BounceBuffer} (h : s.Inv) (hbuf : buf ∈ s.leases)
    (hstep : s.step ep (.bounceFree buf) = some t) : t.Inv := by
  obtain ⟨bounce, hfree, hcap, hperm, hlive⟩ :=
    bounceFree_of_mem (h.leases.mem_iff.mp hbuf)
  simp only [step, hfree, map_some, Option.some.injEq] at hstep
  subst hstep
  refine ⟨⟨h.laid.capacity, ?_, fun hidle => ?_⟩, ?_⟩
  · show s.tier.cacheSize + bounce.allocator.capacity ≤ s.tier.poolSize
    rw [hcap]
    exact h.laid.fits
  · exact absurd (h.laid.idle hidle).2 hlive
  · have hheld := (perm_cons_erase hbuf).symm.trans (h.leases.trans hperm)
    exact (perm_cons buf).mp hheld

/-- One step keeps the split of the pool and the books of the leases. -/
theorem inv_step (ep : EvictionPolicy P) (s : Session P) (op : Op) (t : Session P) (h : s.Inv)
    (hlawful : s.Lawful op) (hstep : s.step ep op = some t) : t.Inv := by
  cases op with
  | setBounceReserve bytes =>
    cases hstep
    exact h.setBounceReserve bytes
  | initializePool poolSize mapped =>
    cases hstep
    exact h.initializePool ep poolSize mapped
  | insert key size =>
    obtain ⟨⟨r, tier⟩, hinsert, rfl⟩ := map_eq_some_iff.mp hstep
    exact h.cacheStep (insert_step hinsert)
  | remove key =>
    obtain ⟨⟨r, tier⟩, hremove, rfl⟩ := map_eq_some_iff.mp hstep
    exact h.cacheStep (remove_step hremove)
  | evictNext =>
    obtain ⟨⟨r, tier⟩, hevict, rfl⟩ := map_eq_some_iff.mp hstep
    exact h.cacheStep (evictNext_step hevict)
  | clear =>
    cases hstep
    exact h.cacheStep clear_step
  | bounceAlloc len => exact h.bounceAlloc hstep
  | bounceFree buf => exact h.bounceFree hlawful hstep

/-! ### The ranges -/

/-- What an allocator serves lies inside its pool, without overlaps. -/
theorem serves_ranges {fl : FreeList} {live : List Seg} (h : fl.Serves live) :
    live.Pairwise Seg.Disjoint ∧ ∀ r ∈ live, r.1 + r.2 ≤ fl.capacity := by
  refine ⟨(pairwise_append.mp (h.tiles.pairwise h.pos)).2.1, fun r hr => ?_⟩
  exact h.tiles.end_le (mem_append_right _ hr) (h.pos r (mem_append_right _ hr))

/-- The ranges of the buffers that are out: those of the reserve, moved behind the cache. -/
theorem liveBuffers_ranges (tier : MemoryTierState P) : tier.liveBuffers.map leaseRange
      = (tier.bounce.live.entries.map leaseSeg).map fun r => (tier.cacheSize + r.1, r.2) := by
  simp only [liveBuffers, List.map_map]
  rfl

theorem Inv.leases_ranges (h : s.Inv) : (s.leases.map leaseRange).Pairwise Seg.Disjoint ∧
      ∀ r ∈ s.leases.map leaseRange, s.tier.cacheSize ≤ r.1 ∧ r.1 + r.2 ≤ s.tier.poolSize := by
  obtain ⟨hdisj, hend⟩ := serves_ranges s.tier.bounce.accounts.serves
  have hperm := h.leases.map leaseRange
  rw [liveBuffers_ranges] at hperm
  refine ⟨(hperm.pairwise_iff Seg.Disjoint.symm).mpr ?_, fun r hr => ?_⟩
  · rw [pairwise_map]
    refine hdisj.imp fun {p q} hpq => ?_
    unfold Seg.Disjoint at hpq ⊢
    omega
  · obtain ⟨p, hp, rfl⟩ := List.mem_map.mp (hperm.mem_iff.mp hr)
    have hle := hend p hp
    have hfits := h.laid.fits
    exact ⟨Nat.le_add_right _ _, by dsimp only; omega⟩

theorem Inv.ranges (h : s.Inv) :
    s.ranges.Pairwise Seg.Disjoint ∧ ∀ r ∈ s.ranges, r.1 + r.2 ≤ s.tier.poolSize := by
  obtain ⟨hslots, hend⟩ := serves_ranges s.tier.pool.accounts.serves
  obtain ⟨hleases, hbounds⟩ := h.leases_ranges
  rw [h.laid.capacity] at hend
  refine ⟨pairwise_append.mpr ⟨hslots, hleases, fun p hp q hq => ?_⟩, fun r hr => ?_⟩
  · exact .inl ((hend p hp).trans (hbounds q hq).1)
  · rcases mem_append.mp hr with hr | hr
    · have hle := hend r hr
      have hfits := h.laid.fits
      omega
    · exact (hbounds r hr).2

/-- **Slots and bounce buffers never overlap.** Whatever the policy, the pool and the reserve: after
every run, the slots and the leases held are disjoint ranges of the pool, the bytes in use are the
rounded sizes of the slots, and an insertion that fails changes nothing. -/
theorem ranges_disjoint (ep : EvictionPolicy P) (policy : P) {ops : List Op} {s : Session P}
    (hrun : Run (step ep) Lawful (new policy) ops s) :
    s.ranges.Pairwise Seg.Disjoint ∧ (∀ r ∈ s.ranges, r.1 + r.2 ≤ s.tier.poolSize) ∧
      s.tier.used = ((trackedSegs s.tier.pool.slots).map Prod.snd).sum ∧
      ∀ key size e tier, s.tier.insert ep key size = some (.error e, tier) → tier = s.tier := by
  have hinv : s.Inv := Run.invariant (inv_new policy) (inv_step ep) hrun
  exact ⟨hinv.ranges.1, hinv.ranges.2, hinv.laid.used_eq,
    fun _ _ _ _ h => insert_error h⟩

/-- Two slots and two leases, after an eviction and a lease given back. -/
def evictAndLease : List Op :=
  [.setBounceReserve 20000, .initializePool 200000 (.ok true), .insert 1 5000, .insert 2 100,
    .bounceAlloc 5000, .bounceAlloc 4096, .evictNext, .bounceFree ⟨180224, 5000⟩, .insert 3 1,
    .bounceAlloc 1]

theorem ranges_disjoint_evictAndLease :
    ∃ s, Run (step EvictionPolicyLru.lruPolicy) Lawful (new EvictionPolicyLru.EvictionState.new)
        evictAndLease s ∧
      s.ranges = [(8192, 4096), (0, 4096), (180224, 4096), (188416, 4096)] ∧
      s.tier.used = 8192 ∧ s.ranges.Pairwise Seg.Disjoint ∧
      ∀ r ∈ s.ranges, r.1 + r.2 ≤ s.tier.poolSize := by
  refine exists_run_and_of_checkedExec (fun s => (s.ranges, s.tier.used)
    == ([(8192, 4096), (0, 4096), (180224, 4096), (188416, 4096)], 8192)) (by decide +kernel)
    fun hrun hs => ?_
  obtain ⟨hranges, hused⟩ := Prod.mk.inj (beq_iff_eq.mp hs)
  obtain ⟨hdisj, hinside, -⟩ := ranges_disjoint _ _ hrun
  exact ⟨hranges, hused, hdisj, hinside⟩

end Session

end Certus.MemoryTier
