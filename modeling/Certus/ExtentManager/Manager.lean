import Certus.ExtentManager.Cell
import Certus.Lib.Run

/-! # The extent manager

`lib.rs`: the regions, the shared state and the metadata device as one system. Calls of different
threads interleave; every operation on a region is one step under its lock, and a checkpoint is the
sequence of steps that `run_checkpoint` takes, down to the single sector writes.

* **`format`, `initializeFrom`** — the two ways to bring the manager up.
* **`System`, `step`** — the running manager with its device.

At most one `run_checkpoint` is under way at a time (`Coalesce.ok_is_fresh`), so one phase is
enough. -/

namespace Certus.ExtentManager

/-- What the checkpoint and the operations share. -/
structure SharedState where
  formatParams : FormatParams
  checkpointSeq : UInt64
  superblock : Superblock

/-- The manager after `format` or `initialize`. -/
structure Manager where
  regions : List RegionState
  shared : SharedState

/-- Subtraction that stops at zero. -/
def saturatingSub (a b : UInt64) : UInt64 := if b ≤ a then a - b else 0

@[simp] theorem toNat_saturatingSub (a b : UInt64) :
    (saturatingSub a b).toNat = a.toNat - b.toNat := by
  unfold saturatingSub
  split_ifs with h
  · exact UInt64.toNat_sub_of_le a b h
  · have hlt : a.toNat < b.toNat := Nat.lt_of_not_le fun hle => h (UInt64.le_iff_toNat_le.mpr hle)
    rw [Nat.sub_eq_zero_of_le (le_of_lt hlt)]
    rfl

/-- Base and size of region `i`. The last region gets what is left. -/
def regionRange (dataStartOffset usableDataSize regionCount i : ℕ) : ℕ × ℕ :=
  let regionBytes := usableDataSize / regionCount
  (dataStartOffset + i * regionBytes,
    if i < regionCount - 1 then regionBytes else usableDataSize - (regionCount - 1) * regionBytes)

/-! ## Bringing the manager up -/

/-- Where the first checkpoint copy starts: the first multiple of the alignment that leaves room for
the superblock, in 64-bit arithmetic. -/
def checkpointRegionOffset (alignment : UInt64) : UInt64 :=
  if alignment = 0 then UInt64.ofNat superblockSize
  else (UInt64.ofNat superblockSize + alignment - 1) / alignment * alignment

/-- The size of one checkpoint copy on a device of `metadataDiskSize` bytes. -/
def checkpointRegionSize (params : FormatParams) (metadataDiskSize : UInt64) : UInt64 :=
  let effective := if params.metadataRegionSize > 0 then
      min metadataDiskSize params.metadataRegionSize else metadataDiskSize
  let remaining := saturatingSub effective (checkpointRegionOffset params.metadataAlignment)
  remaining / 2 / params.sectorSize.toUInt64 * params.sectorSize.toUInt64

/-- Where the data starts: after the metadata if both share the device. -/
def dataStartOffset (params : FormatParams) (metadataDiskSize : UInt64) : UInt64 :=
  if params.metadataRegionSize > 0 then
    checkpointRegionOffset params.metadataAlignment + 2 * checkpointRegionSize params metadataDiskSize
  else 0

/-- The regions and the superblock of a new manager, on a metadata device of `numSectors` sectors;
`randomId` is the instance identifier if the parameters give none. -/
def format (c : BlockDeviceClient) (numSectors randomId : UInt64) (params : FormatParams) :
    Except ExtentManagerError Manager :=
  if params.sectorSize = 0 then .error (.corruptMetadata "sector_size must be > 0")
  else if params.slabSize % params.sectorSize.toUInt64 ≠ 0 then
    .error (.corruptMetadata "slab_size must be a multiple of sector_size")
  else if params.maxExtentSize.toUInt64 > params.slabSize then
    .error (.corruptMetadata "max_extent_size must be <= slab_size")
  else if params.regionCount = 0 ∨ params.regionCount &&& (params.regionCount - 1) ≠ 0 then
    .error (.corruptMetadata "region_count must be a power of two")
  else
    let metadataDiskSize := numSectors * UInt64.ofNat c.sectorSize
    let copySize := checkpointRegionSize params metadataDiskSize
    if copySize = 0 then
      .error (.corruptMetadata "metadata device too small for checkpoint regions")
    else
      let start := dataStartOffset params metadataDiskSize
      let usable := saturatingSub params.dataDiskSize start
      if usable = 0 then
        .error (.corruptMetadata "no usable data space after metadata reservation")
      else
        let sb := Superblock.new params.dataDiskSize params.sectorSize params.slabSize
          params.maxExtentSize params.regionCount (checkpointRegionOffset params.metadataAlignment)
          copySize (params.instanceId.getD randomId) params.metadataDiskNsId start
        let region := fun i =>
          let range := regionRange start.toNat usable.toNat params.regionCount.toNat i
          RegionState.new (BuddyAllocator.new range.1 range.2 params.sectorSize.toNat) params
        .ok ⟨(List.range params.regionCount.toNat).map region, ⟨params, 0, sb⟩⟩

/-- The parameters that `initialize` reads off the superblock. -/
def initParams (sb : Superblock) : FormatParams where
  dataDiskSize := sb.dataDiskSize
  slabSize := sb.slabSize
  maxExtentSize := sb.maxExtentSize
  sectorSize := sb.sectorSize
  regionCount := sb.regionCount
  metadataAlignment := sb.checkpointRegionOffset
  instanceId := some sb.instanceId
  metadataDiskNsId := sb.metadataDiskNsId
  metadataRegionSize := sb.checkpointRegionOffset + 2 * sb.checkpointRegionSize

/-- Base and size of region `i` according to the superblock. -/
def Superblock.regionRange (sb : Superblock) (i : ℕ) : ℕ × ℕ :=
  ExtentManager.regionRange sb.dataStartOffset.toNat
    (saturatingSub sb.dataDiskSize sb.dataStartOffset).toNat sb.regionCount.toNat i

/-- The manager that `initialize` rebuilds from what `recover` read. -/
def initializeFrom (sb : Superblock) (perRegionData : List (List SlabDescriptor)) : Manager where
  regions := (List.range sb.regionCount.toNat).map fun i =>
    initRegion (initParams sb) (sb.regionRange i).1 (sb.regionRange i).2 sb.sectorSize.toNat
      (perRegionData.getD i [])
  shared := ⟨initParams sb, sb.checkpointSeq, sb⟩

/-! ## Choosing a region -/

/-- The region that serves a key. -/
def regionForKey (regionCount : ℕ) (key : UInt64) : ℕ := key.toNat &&& (regionCount - 1)

/-- The region that an offset belongs to. -/
def regionForOffset (shared : SharedState) (regionCount offset : ℕ) : Except ExtentManagerError ℕ :=
  let start := shared.superblock.dataStartOffset.toNat
  let usable := (shared.formatParams.dataDiskSize - shared.superblock.dataStartOffset).toNat
  let regionBytes := usable / regionCount
  if regionBytes = 0 then .error (.notInitialized "region size is zero")
  else
    let idx := (offset - start) / regionBytes
    if idx ≥ regionCount then .error (.offsetNotFound offset) else .ok idx

/-! ## The running system -/

/-- Where `run_checkpoint` is. `snaps` are the regions as they were when they were serialized; the
model keeps them to say what the payload stands for. -/
inductive CheckpointPhase
  | idle
  /-- The dirty flags of the regions before `i` were read, and were false. -/
  | scan (i : ℕ)
  /-- The first regions are serialized into `payload`. -/
  | serialize (payload : List UInt8) (snaps : List RegionState)
  /-- The sector writes that are left of copy `copy`. -/
  | writeCopy (todo : List (ℕ × List UInt8)) (copy : UInt8) (seq : UInt64)
      (snaps : List RegionState)
  /-- The sector writes that are left of the superblock. -/
  | writeSuperblock (todo : List (ℕ × List UInt8)) (snaps : List RegionState)
  /-- The regions before `i` are cleared. -/
  | clear (i : ℕ)

/-- A checkpoint whose superblock is on the device. -/
structure Durable where
  superblock : Superblock
  regions : List RegionState

/-- The extent manager and its metadata device. -/
structure System (c : BlockDeviceClient) where
  cells : List Cell
  shared : SharedState
  disk : Disk c.sectorSize
  phase : CheckpointPhase
  /-- What the last finished `run_checkpoint` returned. -/
  result : Option (Except ExtentManagerError Unit)
  durable : Durable

/-- The steps of the system. -/
inductive Action
  | reserve (key : UInt64) (size : UInt32)
  /-- The `n`-th handle of region `i` is published. -/
  | publish (i n : ℕ)
  /-- The `n`-th handle of region `i` is aborted or dropped. -/
  | abort (i n : ℕ)
  | remove (offset : ℕ)
  /-- `run_checkpoint` is entered. -/
  | checkpoint
  /-- `run_checkpoint` goes on. -/
  | next
  /-- The next device operation of `run_checkpoint` returns an error, without effect. -/
  | fail (e : ExtentManagerError)
  /-- The process ends at this point and a new one calls `initialize`. -/
  | restart

namespace System

variable {c : BlockDeviceClient}

variable (s : System c)

/-- An operation on region `i`. -/
def onCell (i : ℕ) (a : Cell.Action) : Option (System c) :=
  (s.cells[i]?.bind (Cell.step a)).map fun x => { s with cells := s.cells.set i x }

/-- `run_checkpoint` returns. -/
def finish (result : Except ExtentManagerError Unit) : System c :=
  { s with phase := .idle, result := some result }

/-- The copy that the next checkpoint goes to. -/
def inactiveCopy : UInt8 := 1 - s.shared.superblock.activeCopy

/-- The byte offset of a checkpoint copy. -/
def copyOffset (sb : Superblock) (copy : UInt8) : ℕ :=
  (sb.checkpointRegionOffset + copy.toUInt64 * sb.checkpointRegionSize).toNat

/-- The second half of `write_checkpoint`: check the size and prepare the sector writes. -/
def prepareCopy (payload : List UInt8) (snaps : List RegionState) : System c :=
  let regionSize := s.shared.superblock.checkpointRegionSize.toNat
  let newSeq := s.shared.checkpointSeq + 1
  let totalNeeded := checkpointHeaderSize + payload.length
  if totalNeeded > regionSize then
    s.finish (.error (.corruptMetadata ("checkpoint payload (" ++ toString totalNeeded ++
      " bytes) exceeds region size (" ++ toString regionSize ++ " bytes)")))
  else
    let blob := padToSector c.sectorSize (checkpointBlob newSeq.toNat payload)
    let lba := copyOffset s.shared.superblock s.inactiveCopy / c.sectorSize
    { s with phase := .writeCopy (c.sectorWrites lba blob) s.inactiveCopy newSeq snaps }

/-- The end of `write_checkpoint`: the superblock in memory points to the new copy. -/
def flipCopy (copy : UInt8) (seq : UInt64) : SharedState :=
  { s.shared with
    checkpointSeq := seq
    superblock := { s.shared.superblock with activeCopy := copy, checkpointSeq := seq } }

/-- The next step of `run_checkpoint`. -/
def checkpointStep : Option (System c) :=
  match s.phase with
  | .idle => none
  | .scan i =>
    match s.cells[i]? with
    | none => some (s.finish (.ok ()))
    | some x =>
      if x.region.dirty then some { s with phase := .serialize (leBytes 4 s.cells.length) [] }
      else some { s with phase := .scan (i + 1) }
  | .serialize payload snaps =>
    match s.cells[snaps.length]? with
    | some x =>
      some { s with
        phase := .serialize (payload ++ serializeRegion x.region) (snaps ++ [x.region]) }
    | none => some (s.prepareCopy payload snaps)
  | .writeCopy (w :: todo) copy seq snaps =>
    some { s with disk := s.disk.write w.1 w.2, phase := .writeCopy todo copy seq snaps }
  | .writeCopy [] copy seq snaps =>
    let shared := s.flipCopy copy seq
    some { s with
      shared := shared
      phase := .writeSuperblock (c.sectorWrites 0 shared.superblock.serialize) snaps }
  | .writeSuperblock (w :: todo) snaps =>
    some { s with
      disk := s.disk.write w.1 w.2
      phase := .writeSuperblock todo snaps
      -- the first sector holds all fields of the superblock
      durable := if w.1 = c.baseLba then ⟨s.shared.superblock, snaps⟩ else s.durable }
  | .writeSuperblock [] _ => some { s with phase := .clear 0 }
  | .clear i =>
    match s.cells[i]? with
    | some x => some { s with cells := s.cells.set i x.clear, phase := .clear (i + 1) }
    | none => some (s.finish (.ok ()))

/-- The next device operation of `run_checkpoint` fails: connecting to the device before anything
is serialized, or a sector write. -/
def checkpointFail (e : ExtentManagerError) : Option (System c) :=
  match s.phase with
  | .serialize _ [] => some (s.finish (.error e))
  | .writeCopy (_ :: _) _ _ _ => some (s.finish (.error e))
  | .writeSuperblock (_ :: _) _ => some (s.finish (.error e))
  | _ => none

/-- A new process on the same device; if `recover` fails there is no manager. -/
def restart : Option (System c) :=
  match recover c s.disk with
  | .error _ => none
  | .ok (sb, perRegionData) =>
    let m := initializeFrom sb perRegionData
    some { s with
      cells := m.regions.map fun r => ⟨r, []⟩
      shared := m.shared
      phase := .idle
      result := none }

/-- One step. -/
def step : Action → Option (System c)
  | .reserve key size => s.onCell (regionForKey s.cells.length key) (.reserve key size)
  | .publish i n => s.onCell i (.publish n)
  | .abort i n => s.onCell i (.abort n)
  | .remove offset =>
    match regionForOffset s.shared s.cells.length offset with
    | .ok i => s.onCell i (.remove offset)
    | .error _ => some s
  | .checkpoint =>
    match s.phase with
    | .idle => some { s with phase := .scan 0 }
    | _ => none
  | .next => s.checkpointStep
  | .fail e => s.checkpointFail e
  | .restart => s.restart

/-- The system right after `format` wrote the superblock to the device `d`. -/
def formatted (d : Disk c.sectorSize) (m : Manager) : System c where
  cells := m.regions.map fun r => ⟨r, []⟩
  shared := m.shared
  disk := (c.sectorWrites 0 m.shared.superblock.serialize).foldl (fun d w => d.write w.1 w.2) d
  phase := .idle
  result := none
  durable := ⟨m.shared.superblock, m.regions⟩

/-- What `get_extents` returns. -/
def getExtents : List Extent := s.cells.flatMap fun x => x.region.extents

end System

/-! ## A small volume -/

/-- A device with sectors of 4096 bytes. -/
def smallClient : BlockDeviceClient := ⟨4096, 0⟩

/-- Two regions of 32 KiB with slabs of two sectors. -/
def smallParams : FormatParams where
  dataDiskSize := 65536
  slabSize := 8192
  maxExtentSize := 8192
  sectorSize := 4096
  regionCount := 2
  metadataAlignment := 0
  instanceId := some 7
  metadataDiskNsId := 1
  metadataRegionSize := 0

/-- A device full of zeros. -/
def blankDisk (size : ℕ) : Disk size := ⟨fun _ => List.replicate size 0, fun _ => by simp⟩

/-- The manager of the small volume. -/
def smallManager : Manager :=
  (format smallClient 64 0 smallParams).toOption.get (by decide +kernel)

theorem format_small : format smallClient 64 0 smallParams = .ok smallManager := by rfl

/-- The small volume right after `format`. -/
def smallSystem : System smallClient := System.formatted (blankDisk _) smallManager

end Certus.ExtentManager
