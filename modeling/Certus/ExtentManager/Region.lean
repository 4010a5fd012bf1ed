import Certus.ExtentManager.BuddyTiling
import Certus.ExtentManager.Slab
import Certus.Lib.OrdMap

/-! # Regions

`region.rs`: a region owns a range of the data disk. It cuts slabs from its buddy allocator, hands
out their slots, and frees a removed slot only when the pending frees are flushed. -/

namespace Certus.ExtentManager

/-- The parameters of `format`. -/
structure FormatParams where
  dataDiskSize : UInt64
  slabSize : UInt64
  maxExtentSize : UInt32
  sectorSize : UInt32
  regionCount : UInt32
  metadataAlignment : UInt64
  instanceId : Option UInt64
  metadataDiskNsId : UInt32
  metadataRegionSize : UInt64
  deriving DecidableEq, Repr

/-- The errors of the extent manager. -/
inductive ExtentManagerError
  | corruptMetadata (msg : String)
  | ioError (msg : String)
  | notInitialized (msg : String)
  | offsetNotFound (offset : ℕ)
  | outOfSpace
  deriving DecidableEq, Repr

/-- How a call ends. A panic unwinds, but what it changed before stays changed. -/
inductive Outcome (α : Type)
  | ok (a : α)
  | err (e : ExtentManagerError)
  | panicked
  deriving DecidableEq, Repr

/-- The state of a region. -/
structure RegionState where
  /-- The slabs by start offset. -/
  slabs : OrdMap ℕ Slab
  sizeClasses : SizeClassManager
  buddy : BuddyAllocator
  dirty : Bool
  formatParams : FormatParams
  /-- Removed slots that are still allocated, as slab start and slot index. -/
  pendingFrees : List (ℕ × ℕ)

/-- The size of the slots for extents of `size` bytes, in 32-bit arithmetic. -/
def alignToSectorSize (size sectorSize : UInt32) : UInt32 :=
  (size + sectorSize - 1) / sectorSize * sectorSize

namespace RegionState

/-- A region without slabs. -/
def new (buddy : BuddyAllocator) (formatParams : FormatParams) : RegionState where
  slabs := OrdMap.empty
  sizeClasses := SizeClassManager.new
  buddy := buddy
  dirty := false
  formatParams := formatParams
  pendingFrees := []

/-- The loop of `alloc_extent` over the slabs of a size class: take a slot of the first slab, or
drop it from the class as stale. `fuel` is the length of the class, which every stale entry
shortens. -/
def allocFromClass (elementSize : ℕ) : ℕ → RegionState → Option (ℕ × ℕ × ℕ) × RegionState
  | 0, r => (none, r)
  | fuel + 1, r =>
    match (r.sizeClasses.getSlabs elementSize).head? with
    | none => (none, r)
    | some slabStart =>
      match (r.slabs.get? slabStart).bind Slab.allocSlot with
      | some (slab, slotIdx, offset) =>
        (some (slabStart, slotIdx, offset),
          { r with
            slabs := r.slabs.insert slabStart slab
            -- a slab that just became full leaves the non-full list
            sizeClasses := if slab.isFull then r.sizeClasses.removeSlab elementSize slabStart
              else r.sizeClasses })
      | none =>
        allocFromClass elementSize fuel
          { r with sizeClasses := r.sizeClasses.removeSlab elementSize slabStart }

section

variable (r : RegionState)

/-- The second half of `alloc_extent`: cut a new slab from the buddy allocator. -/
def allocNewSlab (elementSize : ℕ) : Outcome (ℕ × ℕ × ℕ) × RegionState :=
  let slabSize := r.formatParams.slabSize.toNat
  if elementSize > slabSize then (.err .outOfSpace, r)
  else
    match r.buddy.alloc slabSize with
    | none => (.err .outOfSpace, r)
    | some (diskOffset, buddy) =>
      -- `Slab::new` divides by the element size
      if elementSize = 0 then (.panicked, { r with buddy := buddy })
      else
        match (Slab.new diskOffset slabSize elementSize).allocSlot with
        | none => (.err .outOfSpace, { r with buddy := buddy.free diskOffset slabSize })
        | some (slab, slotIdx, offset) =>
          (.ok (diskOffset, slotIdx, offset),
            { r with
              buddy := buddy
              sizeClasses := if slab.isFull then r.sizeClasses
                else r.sizeClasses.addSlab elementSize diskOffset
              slabs := r.slabs.insert diskOffset slab })

/-- Reserve a slot for an extent of `size` bytes: slab start, slot index and byte offset. -/
def allocExtent (size : UInt32) : Outcome (ℕ × ℕ × ℕ) × RegionState :=
  let elementSize := (alignToSectorSize size r.formatParams.sectorSize).toNat
  match allocFromClass elementSize (r.sizeClasses.getSlabs elementSize).length r with
  | (some result, r) => (.ok result, r)
  | (none, r) => r.allocNewSlab elementSize

/-- Free a slot; a slab without allocated slots goes back to the buddy allocator. -/
def freeSlot (r : RegionState) (slabStart slotIdx : ℕ) : RegionState :=
  match r.slabs.get? slabStart with
  | none => r
  | some slab =>
    let wasFull := slab.isFull
    let slab := slab.freeSlot slotIdx
    if slab.isEmpty then
      { r with
        buddy := r.buddy.free slabStart slab.slabSize
        sizeClasses := r.sizeClasses.removeSlab slab.elementSize slabStart
        slabs := r.slabs.erase slabStart }
    else
      { r with
        slabs := r.slabs.insert slabStart slab
        sizeClasses := if wasFull then r.sizeClasses.addSlab slab.elementSize slabStart
          else r.sizeClasses }

/-- Record the key of a reserved slot. -/
def publishSlot (slabStart slotIdx : ℕ) (key : UInt64) : RegionState :=
  { r with
    slabs := match r.slabs.get? slabStart with
      | some slab => r.slabs.insert slabStart (slab.setKey slotIdx key)
      | none => r.slabs
    dirty := true }

/-- The slot of the extent at a byte offset. -/
def findExtent (offset : ℕ) : Except ExtentManagerError (ℕ × Slab × ℕ) :=
  match r.slabs.floor? offset with
  | none => .error (.offsetNotFound offset)
  | some (slabStart, slab) =>
    if !slab.containsOffset offset then .error (.offsetNotFound offset)
    else
      match slab.slotForOffset offset with
      | none => .error (.offsetNotFound offset)
      | some slot =>
        if !slab.bitmap.isSet slot || slab.getKey slot == freeKey then
          .error (.offsetNotFound offset)
        else .ok (slabStart, slab, slot)

/-- Remove the extent at a byte offset. Its slot stays allocated until the pending frees are
flushed. -/
def removeExtentByOffset (offset : ℕ) : Except ExtentManagerError RegionState :=
  (r.findExtent offset).map fun (slabStart, slab, slotIdx) =>
    { r with
      slabs := r.slabs.insert slabStart (slab.setKey slotIdx freeKey)
      pendingFrees := r.pendingFrees ++ [(slabStart, slotIdx)]
      dirty := true }

/-- Free the removed slots. -/
def flushPendingFrees : RegionState :=
  r.pendingFrees.foldl (fun r p => r.freeSlot p.1 p.2) { r with pendingFrees := [] }

/-! ## The region as a map of slots -/

/-- The contents of a slot, given by slab start and index: its size and key, if it is allocated. -/
def slotAt (p : ℕ × ℕ) : Option (ℕ × UInt64) :=
  (r.slabs.get? p.1).bind fun s => (s.slot p.2).map fun k => (s.elementSize, k)

end

/-- The bytes of a slot of `size` bytes. -/
def slotBytes (p : ℕ × ℕ) (size : ℕ) : Seg := (p.1 + p.2 * size, size)

theorem slotAt_eq_some {r : RegionState} {p : ℕ × ℕ} {e : ℕ} {k : UInt64} :
    r.slotAt p = some (e, k) ↔
      ∃ s, r.slabs.get? p.1 = some s ∧ s.slot p.2 = some k ∧ s.elementSize = e := by
  simp only [slotAt, Option.bind_eq_some_iff, Option.map_eq_some_iff, Prod.mk.injEq]
  constructor
  · rintro ⟨s, hs, k', hk', he, rfl⟩
    exact ⟨s, hs, hk', he⟩
  · rintro ⟨s, hs, hk, he⟩
    exact ⟨s, hs, k, hk, he, rfl⟩

theorem slotAt_insert (r : RegionState) (start : ℕ) (t : Slab) (q : ℕ × ℕ) :
    ({ r with slabs := r.slabs.insert start t } : RegionState).slotAt q
      = if q.1 = start then (t.slot q.2).map fun k => (t.elementSize, k) else r.slotAt q := by
  simp only [slotAt, OrdMap.get?_insert]
  split_ifs <;> rfl

theorem slotAt_insert_slot {r : RegionState} {start i : ℕ} {s t : Slab} {v : Option UInt64}
    (hs : r.slabs.get? start = some s) (he : t.elementSize = s.elementSize)
    (hslot : ∀ j, t.slot j = if j = i then v else s.slot j) (q : ℕ × ℕ) :
    ({ r with slabs := r.slabs.insert start t } : RegionState).slotAt q
      = if q = (start, i) then v.map (fun k => (s.elementSize, k)) else r.slotAt q := by
  obtain ⟨a, j⟩ := q
  rw [slotAt_insert, he, hslot]
  by_cases ha : a = start
  · subst ha
    by_cases hj : j = i
    · subst hj
      simp
    · simp [hj, slotAt, hs]
  · simp [ha]

end RegionState

end Certus.ExtentManager
