import Certus.Dispatcher.IoSegmenter
import Certus.Dispatcher.WriteThroughPins
import Certus.ExtentManager.DurableCheckpoint
import Certus.ExtentManager.Reservations
import Certus.PartitionManager.Layout

/-! # Where data goes on a drive

A drive is cut into three partitions: metadata, extended metadata and data. The extent manager is
formatted for the size of the data partition and hands out byte offsets from `0` on. The dispatcher
turns an offset into a block address by dividing by the block size; it never adds the first block of
the data partition, which `set_data_base_lba` records.

* **`write_inside_iff`, `read_inside_iff`** — they stay in the data partition exactly if the offset,
  in blocks, is at least the start of the partition.
* **`data_inside`** — so they do if the region of the key starts there; and they spare the checkpoint
  copies if the region ends before these. -/

namespace Certus.Dispatcher

open PartitionManager ExtentManager List Option GptManager ExtentManager.System

/-! ## Setting up a drive -/

/-- The sizes of the first two partitions. -/
structure DriveConfig where
  metadataPartitionSize : UInt64
  extendedMetadataPartitionSize : UInt64
  deriving DecidableEq, Repr

/-- The middle of the type identifiers of the partitions. -/
def certusGuid (n : UInt8) : List UInt8 :=
  [n, 0x8E, 0x3A, 0x7C, 0x4F, 0x1B, 0x2D, 0x4A, 0x9E, 0x6C, 0x0D, 0x3F, 0x5A, 0x8B, 0x7C, n]

/-- The partitions of a drive. -/
def partitionSpecs (config : DriveConfig) : List PartitionSpec :=
  [⟨certusGuid 1, config.metadataPartitionSize, "certus-metadata"⟩,
    ⟨certusGuid 3, config.extendedMetadataPartitionSize, "certus-extended-metadata"⟩,
    ⟨certusGuid 2, 0, "certus-data"⟩]

/-- `FormatParams::default()`. -/
def defaultFormatParams : FormatParams where
  dataDiskSize := 0
  slabSize := 1024 * 1024 * 1024
  maxExtentSize := 1024 * 1024 * 1024
  sectorSize := 4096
  regionCount := 16
  metadataAlignment := 128 * 1024
  instanceId := none
  metadataDiskNsId := 1
  metadataRegionSize := 128 * 1024 * 1024

/-- The slab size: a sixteenth of a region, rounded down to a power of two in blocks. -/
def driveSlabSize (sectorSize : UInt32) (dataDiskSize : UInt64) : UInt64 :=
  let regionSize := dataDiskSize / defaultFormatParams.regionCount.toUInt64
  let targetSlabBlocks := regionSize / sectorSize.toUInt64 / 16
  if targetSlabBlocks > 0 then
    min (UInt64.ofNat (2 ^ Nat.log2 targetSlabBlocks.toNat) * sectorSize.toUInt64)
      defaultFormatParams.slabSize
  else defaultFormatParams.slabSize

/-- The parameters with which the extent manager of a drive is formatted. -/
def driveFormatParams (sectorSize : UInt32) (data : PartitionInfo) : FormatParams :=
  let dataDiskSize := data.numSectors * sectorSize.toUInt64
  let slabSize := driveSlabSize sectorSize dataDiskSize
  { defaultFormatParams with
    dataDiskSize, sectorSize, slabSize
    maxExtentSize := (min slabSize defaultFormatParams.maxExtentSize.toUInt64).toUInt32
    metadataRegionSize := 0 }

/-- The text of an error of the extent manager. -/
def extentManagerErrorText : ExtentManagerError → String
  | .corruptMetadata msg => "corrupt metadata: " ++ msg
  | .ioError msg => "I/O error: " ++ msg
  | .notInitialized msg => "not initialized: " ++ msg
  | .offsetNotFound offset => "no extent at offset: " ++ toString offset
  | .outOfSpace => "out of space"

/-- A drive that was set up. -/
structure DataDrive where
  sectorSize : UInt32
  metadata : PartitionInfo
  extendedMetadata : PartitionInfo
  data : PartitionInfo
  /-- What `set_data_base_lba` recorded. -/
  dataBaseLba : UInt64
  manager : Manager

/-- The metadata I/O of the drive: relative to the metadata partition. -/
def metadataClient (sectorSize : UInt32) (metadata : PartitionInfo) : BlockDeviceClient :=
  ⟨sectorSize.toNat, metadata.startLba.toNat⟩

/-- The part of `create_data_drives` for drive `i`, when the partition table is written anew. -/
def createDataDrive (i : ℕ) (sectorSize : UInt32) (numSectors randomId : UInt64)
    (config : DriveConfig) : Except DispatcherError DataDrive :=
  match (mk sectorSize numSectors).partitions (partitionSpecs config) with
  | .error e => .error (.ioError ("failed to initialize partition table for data drive " ++
      toString i ++ ": " ++ e.toString))
  | .ok (metadata :: extendedMetadata :: data :: _) =>
    match format (metadataClient sectorSize metadata) numSectors randomId
        (driveFormatParams sectorSize data) with
    | .error e => .error (.ioError ("failed to format extent manager for data drive " ++
        toString i ++ ": " ++ extentManagerErrorText e))
    | .ok manager =>
      .ok { sectorSize, metadata, extendedMetadata, data, manager
            dataBaseLba := data.startLba }
  | .ok table => .error (.ioError ("data drive " ++ toString i ++ " has an incompatible " ++
      "partition table: expected 3 Certus partitions (metadata, extended metadata, data) but " ++
      "found " ++ toString table.length ++ ". The disk has a valid GPT that is not a Certus " ++
      "layout; re-run with format_on_init to (destructively) format it."))

/-- The device of the extent manager of a drive. -/
def DataDrive.client (drive : DataDrive) : BlockDeviceClient :=
  metadataClient drive.sectorSize drive.metadata

/-- The block size of a drive. -/
def DataDrive.blockSize (drive : DataDrive) : ℕ := drive.sectorSize.toNat

/-- A block of the data partition. -/
def DataDrive.Inside (drive : DataDrive) (lba : ℕ) : Prop :=
  drive.data.startLba.toNat ≤ lba ∧
    lba < drive.data.startLba.toNat + drive.data.numSectors.toNat

/-- A block of a checkpoint copy of the drive. -/
def DataDrive.InCopy (drive : DataDrive) (copy : UInt8) (lba : ℕ) : Prop :=
  drive.client.baseLba + copyLba drive.client drive.manager.shared.superblock copy ≤ lba ∧
    lba < drive.client.baseLba + copyLba drive.client drive.manager.shared.superblock copy +
      copyBlocks drive.client drive.manager.shared.superblock

instance (drive : DataDrive) (copy : UInt8) (lba : ℕ) : Decidable (drive.InCopy copy lba) :=
  inferInstanceAs (Decidable (_ ∧ _))

/-! ## Writing and reading an extent -/

/-- A write-through: the reservation, the location that is recorded, and the commands. -/
structure Written where
  handle : WriteHandle
  loc : UInt64
  segments : List IoSegment
  deriving DecidableEq, Repr

/-- `write_through` up to its commands; `none` if the reservation fails. -/
def writeThrough {c : BlockDeviceClient} (blockSize maxTransferSize driveIdx : ℕ)
    (s : ExtentManager.System c)
    (job : WriteJob) : Option Written := do
  let alignedBytes := nextMultipleOf job.size.toNat blockSize
  let x ← s.cells[regionForKey s.cells.length job.key]?
  match (x.reserve job.key (UInt32.ofNat alignedBytes)).1 with
  | .ok handle =>
    let startLba := handle.offset / blockSize
    let segments ← segmentIo startLba alignedBytes maxTransferSize blockSize
    some ⟨handle, encodeLoc driveIdx (UInt64.ofNat handle.offset), segments⟩
  | _ => none

/-- The commands of a cold read of `totalBytes` bytes at a location. -/
def coldRead (blockSize chunkSize : ℕ) (loc : UInt64) (totalBytes : ℕ) : Option (List IoSegment) :=
  segmentIo ((decodeLoc loc).2.toNat / blockSize) (nextMultipleOf totalBytes blockSize) chunkSize
    blockSize

/-- The bytes that the dispatch map says an entry of a size has. -/
def entryBytes (size : ℕ) : ℕ := (size + 4095) / 4096 * 4096

/-! ## What is reserved -/

theorem ceil_mul {m q : ℕ} (hm : 0 < m) : (m * q + m - 1) / m = q := by
  rw [Nat.add_sub_assoc hm, Nat.mul_add_div hm, Nat.div_eq_of_lt (by omega), Nat.add_zero]

/-- Bytes that end before `n` blocks, counted in blocks. -/
theorem div_add_le {offset q n m : ℕ} (hm : 0 < m) (h : offset + m * q ≤ n * m) :
    offset / m + q ≤ n := by
  rw [← Nat.add_mul_div_left _ _ hm]
  exact Nat.div_le_of_le_mul (by rwa [Nat.mul_comm m n])

variable {i : ℕ}

theorem reserve_within {sb : Superblock} {x : Cell} (hx : ExtentManager.System.CellOk sb i x)
    {key : UInt64} {size : UInt32} {h : WriteHandle} (hres : (x.reserve key size).1 = .ok h) :
    (sb.regionRange i).1 ≤ h.offset ∧
      h.offset + (alignToSectorSize size sb.sectorSize).toNat
        ≤ (sb.regionRange i).1 + (sb.regionRange i).2 := by
  have hy : ExtentManager.System.CellOk sb i (x.reserve key size).2 :=
    hx.op (show Cell.step (.reserve key size) x = some _ from rfl)
  have hmem : h ∈ (x.reserve key size).2.handles ∧
      h.alignedSize = alignToSectorSize size (x.reserve key size).2.region.formatParams.sectorSize
      := by
    revert hres
    rw [Cell.reserve]
    generalize x.region.allocExtent size = v
    obtain ⟨out, r⟩ := v
    cases out with
    | ok res =>
      intro hres
      cases hres
      exact ⟨mem_append_right _ mem_cons_self, rfl⟩
    | err e | panicked => exact fun hres => by cases hres
  obtain ⟨hinv, hplaced⟩ := hy
  obtain ⟨hslot, hoff⟩ := hinv.handle h hmem.1
  have hwithin := hinv.wf.slot_within hslot
  rw [hplaced.base, hplaced.total, hmem.2, hplaced.sector] at hwithin
  rw [hmem.2, hplaced.sector] at hoff
  simp only [Seg.Within, RegionState.slotBytes] at hwithin
  rw [hoff]
  exact hwithin

/-- A drive that was set up: its partitions, and its extent manager. -/
theorem createDataDrive_ok {sectorSize : UInt32} {numSectors randomId : UInt64}
    {config : DriveConfig} {drive : DataDrive}
    (h : createDataDrive i sectorSize numSectors randomId config = .ok drive) :
    drive.sectorSize = sectorSize ∧
      (∃ rest, (mk sectorSize numSectors).partitions (partitionSpecs config)
        = .ok (drive.metadata :: drive.extendedMetadata :: drive.data :: rest)) ∧
      format drive.client numSectors randomId (driveFormatParams sectorSize drive.data)
        = .ok drive.manager := by
  unfold createDataDrive at h
  split at h
  · cases h
  · rename_i metadata extended data rest htable
    split at h
    · cases h
    · rename_i manager hformat
      cases h
      exact ⟨rfl, ⟨rest, htable⟩, hformat⟩
  · cases h

theorem writeThrough_ok {c : BlockDeviceClient} {blockSize maxTransferSize driveIdx : ℕ}
    {s : ExtentManager.System c} {job : WriteJob} {w : Written}
    (h : writeThrough blockSize maxTransferSize driveIdx s job = some w) :
    ∃ x, s.cells[regionForKey s.cells.length job.key]? = some x ∧
      (x.reserve job.key (UInt32.ofNat (nextMultipleOf job.size.toNat blockSize))).1
        = .ok w.handle ∧
      segmentIo (w.handle.offset / blockSize) (nextMultipleOf job.size.toNat blockSize)
        maxTransferSize blockSize = some w.segments ∧
      w.loc = encodeLoc driveIdx (UInt64.ofNat w.handle.offset) := by
  obtain ⟨x, hx, h⟩ := bind_eq_some_iff.mp h
  refine ⟨x, hx, ?_⟩
  split at h
  · rename_i handle hres
    obtain ⟨segments, hsegs, h⟩ := bind_eq_some_iff.mp h
    cases h
    exact ⟨hres, hsegs, rfl⟩
  · cases h

section Drive

variable {i : ℕ} {sectorSize : UInt32} {numSectors randomId : UInt64} {config : DriveConfig}
  {drive : DataDrive}

/-- Base and size of the region that serves a key. -/
def DataDrive.keyRegion (drive : DataDrive) (key : UInt64) : ℕ × ℕ :=
  drive.manager.shared.superblock.regionRange
    (regionForKey drive.manager.shared.superblock.regionCount.toNat key)

/-- The second copy does not start before the first. -/
theorem copyLba_le (hdrive : createDataDrive i sectorSize numSectors randomId config = .ok drive) :
    copyLba drive.client drive.manager.shared.superblock 0
      ≤ copyLba drive.client drive.manager.shared.superblock 1 := by
  obtain ⟨-, -, hformat⟩ := createDataDrive_ok hdrive
  obtain ⟨-, -, -, hsb, -, -, hsize, -, -⟩ := format_ok hformat
  obtain ⟨-, hend⟩ := checkpointRegionSize_spec hsize
  refine Nat.div_le_div_right ?_
  rw [hsb]
  simp only [copyOffset, Superblock.new, UInt64.toNat_add, UInt64.toNat_mul]
  have hlt := UInt64.toNat_lt (numSectors * UInt64.ofNat drive.client.sectorSize)
  have hzero : (0 : UInt8).toUInt64.toNat = 0 := rfl
  have hone : (1 : UInt8).toUInt64.toNat = 1 := rfl
  rw [hzero, hone]
  omega

/-- A drive that was set up has room for the partition tables: the checkpoint copies need more. -/
theorem tables_fit (hdrive : createDataDrive i sectorSize numSectors randomId config = .ok drive) :
    (mk sectorSize numSectors).entrySectors + 2 ≤ numSectors.toNat := by
  obtain ⟨hsector, -, hformat⟩ := createDataDrive_ok hdrive
  obtain ⟨hpos, -, -, -, -, -, hsize, -, -⟩ := format_ok hformat
  obtain ⟨hdvd, hend⟩ := checkpointRegionSize_spec hsize
  have hcopy : sectorSize.toNat ≤ (checkpointRegionSize (driveFormatParams sectorSize drive.data)
      (numSectors * UInt64.ofNat drive.client.sectorSize)).toNat :=
    Nat.le_of_dvd (pos_of_ne_zero fun hz => hsize (UInt64.toNat.inj hz)) hdvd
  have hoffset : (checkpointRegionOffset
      (driveFormatParams sectorSize drive.data).metadataAlignment).toNat = 131072 :=
    show (checkpointRegionOffset (128 * 1024)).toNat = 131072 by decide
  have hmul : (numSectors * UInt64.ofNat drive.client.sectorSize).toNat
      ≤ numSectors.toNat * sectorSize.toNat := by
    rw [UInt64.toNat_mul, UInt64.toNat_ofNat']
    refine le_trans (Nat.mod_le _ _) (Nat.mul_le_mul_left _ (le_trans (Nat.mod_le _ _) ?_))
    exact (congrArg UInt32.toNat hsector).le
  have htable := Nat.div_mul_le_self (gptMaxEntries * gptEntrySize + sectorSize.toNat - 1)
    sectorSize.toNat
  have hconst : gptMaxEntries * gptEntrySize = 16384 := rfl
  change 0 < sectorSize.toNat at hpos
  refine Nat.le_of_lt_succ (Nat.lt_of_mul_lt_mul_right (a := sectorSize.toNat) ?_)
  simp only [entrySectors, Nat.succ_mul]
  omega

/-- The data partition of a drive is behind the primary partition table and the other two partitions,
and ends before the backup table. -/
theorem data_start_ge
    (hdrive : createDataDrive i sectorSize numSectors randomId config = .ok drive) :
    2 + (mk sectorSize numSectors).entrySectors ≤ drive.data.startLba.toNat ∧
      drive.metadata.startLba.toNat + drive.metadata.numSectors.toNat ≤ drive.data.startLba.toNat ∧
      drive.extendedMetadata.startLba.toNat + drive.extendedMetadata.numSectors.toNat
        ≤ drive.data.startLba.toNat ∧
      drive.data.startLba.toNat + drive.data.numSectors.toNat
        + (mk sectorSize numSectors).entrySectors + 1 ≤ numSectors.toNat := by
  have hroom := tables_fit hdrive
  obtain ⟨-, ⟨rest, htable⟩, hformat⟩ := createDataDrive_ok hdrive
  have hsmall : (mk sectorSize numSectors).entrySectors + 2 < 2 ^ 64 := by
    have hle := Nat.div_le_self (gptMaxEntries * gptEntrySize + sectorSize.toNat - 1)
      sectorSize.toNat
    have hlt := sectorSize.toNat_lt
    have : gptMaxEntries * gptEntrySize = 16384 := rfl
    simp only [entrySectors]
    omega
  have hne : drive.data.numSectors ≠ 0 := by
    intro hzero
    obtain ⟨-, -, -, -, -, -, -, hlt, -⟩ := format_ok hformat
    rw [show (driveFormatParams sectorSize drive.data).dataDiskSize
      = drive.data.numSectors * sectorSize.toUInt64 from rfl, hzero, UInt64.zero_mul] at hlt
    exact Nat.not_lt_zero _ hlt
  obtain ⟨hmeta, hrest⟩ := pairwise_cons.mp (partitions_ordered hsmall htable)
  obtain ⟨hstart, hend⟩ := partition_usable hsmall htable drive.data (by simp) hne
  refine ⟨hstart, hmeta drive.data (by simp) hne,
    (pairwise_cons.mp hrest).1 drive.data (by simp) hne, ?_⟩
  have hlast : (mk sectorSize numSectors).lastUsableLba.toNat
      = numSectors.toNat - 2 - (mk sectorSize numSectors).entrySectors := by
    have hone : (1 : UInt64).toNat = 1 := rfl
    have hlt := numSectors.toNat_lt
    simp only [lastUsableLba, UInt64.toNat_sub, UInt64.toNat_ofNat', hone]
    omega
  omega

variable {as : List Action} {d : Disk drive.client.sectorSize} {driveIdx maxTransferSize : ℕ}
  {job : WriteJob} {s : ExtentManager.System drive.client} {w : Written}

section

variable (hdrive : createDataDrive i sectorSize numSectors randomId config = .ok drive)
include hdrive

variable (hrun : Run ExtentManager.System.step (fun _ a => a ≠ .restart) (formatted d drive.manager) as s)
include hrun

variable (hfit : nextMultipleOf job.size.toNat drive.blockSize + drive.blockSize ≤ 2 ^ 32)
  (hwrite : writeThrough drive.blockSize maxTransferSize driveIdx s job = some w)
include hfit hwrite

/-- **Every extent lies in its region, and in the first `numSectors` blocks of the drive**, counted
from block `0`. -/
theorem written_range : 0 < drive.blockSize ∧ (drive.keyRegion job.key).1 ≤ w.handle.offset ∧
      w.handle.offset + nextMultipleOf job.size.toNat drive.blockSize
        ≤ (drive.keyRegion job.key).1 + (drive.keyRegion job.key).2 ∧
      w.handle.offset + nextMultipleOf job.size.toNat drive.blockSize
        ≤ drive.data.numSectors.toNat * drive.blockSize := by
  obtain ⟨hsector, -, hformat⟩ := createDataDrive_ok hdrive
  obtain ⟨hpos, -, hcount, hsb, -, -, -, hstart, -⟩ := format_ok hformat
  obtain ⟨hlen, hcells⟩ := placed_of_run hformat hrun
  obtain ⟨x, hx, hres, -, -⟩ := writeThrough_ok hwrite
  have hbs : drive.blockSize = sectorSize.toNat := by rw [DataDrive.blockSize, hsector]
  change 0 < sectorSize.toNat at hpos
  have hpos' : 0 < drive.blockSize := by rw [hbs]; exact hpos
  obtain ⟨hdvd, -, -⟩ := @nextMultipleOf_spec job.size.toNat _ hpos'
  have hrange := reserve_within (hcells _ x hx) hres
  -- the reserved size is the rounded one
  have hround : (UInt32.ofNat (nextMultipleOf job.size.toNat drive.blockSize)).toNat
      = nextMultipleOf job.size.toNat drive.blockSize := by
    rw [UInt32.toNat_ofNat', Nat.mod_eq_of_lt (by omega)]
  have hss : drive.manager.shared.superblock.sectorSize = sectorSize := by rw [hsb]; rfl
  have haligned : (alignToSectorSize (UInt32.ofNat (nextMultipleOf job.size.toNat drive.blockSize))
      sectorSize).toNat = nextMultipleOf job.size.toNat drive.blockSize := by
    rw [toNat_alignToSectorSize hpos (by rw [hround, ← hbs]; exact hfit), hround, ← hbs]
    obtain ⟨q, hq⟩ := hdvd
    rw [hq, nextMultipleOf, ceil_mul hpos', Nat.mul_comm]
  rw [hss, haligned, hlen] at hrange
  have hcount' : 0 < drive.manager.shared.superblock.regionCount.toNat := by rw [hsb]; exact hcount
  have hlt : regionForKey s.cells.length job.key < s.cells.length :=
    (List.getElem?_eq_some_iff.mp hx).1
  rw [hlen] at hlt
  have hend := (regionRange_le drive.manager.shared.superblock.dataStartOffset.toNat
    (saturatingSub drive.manager.shared.superblock.dataDiskSize
      drive.manager.shared.superblock.dataStartOffset).toNat
    drive.manager.shared.superblock.regionCount.toNat
    (regionForKey drive.manager.shared.superblock.regionCount.toNat job.key) hcount').2.2.1 hlt
  have hdisk : drive.manager.shared.superblock.dataDiskSize
      = drive.data.numSectors * sectorSize.toUInt64 := by rw [hsb]; rfl
  have hmul : (drive.data.numSectors * sectorSize.toUInt64).toNat
      ≤ drive.data.numSectors.toNat * drive.blockSize := by
    rw [UInt64.toNat_mul, UInt32.toNat_toUInt64, hbs]
    exact Nat.mod_le _ _
  have hzero : drive.manager.shared.superblock.dataStartOffset.toNat = 0 := by rw [hsb]; rfl
  rw [toNat_saturatingSub, hdisk, hzero] at hend
  refine ⟨hpos', hrange.1, hrange.2, ?_⟩
  have := hrange.2
  simp only [Superblock.regionRange] at this
  rw [toNat_saturatingSub, hdisk, hzero] at this
  omega

/-- **A written extent is in the data partition exactly if its offset, in blocks, is at least the
start of the partition.** -/
theorem write_inside_iff (hsize : 0 < job.size.toNat) :
    (∀ seg ∈ w.segments, ∀ b ∈ seg.lbas drive.blockSize, drive.Inside b) ↔
      drive.data.startLba.toNat ≤ w.handle.offset / drive.blockSize := by
  obtain ⟨hpos, -, -, hend⟩ := written_range hdrive hrun hfit hwrite
  obtain ⟨-, -, -, hsegs, -⟩ := writeThrough_ok hwrite
  obtain ⟨⟨q, hq⟩, hge, -⟩ := @nextMultipleOf_spec job.size.toNat _ hpos
  refine segmentIo_inside_iff hsegs (lt_of_lt_of_le hsize hge) ?_
  rw [hq] at hend
  have hsum := div_add_le hpos hend
  rw [hq, ceil_mul hpos]
  omega

/-- The same for a cold read of the extent, of up to the bytes that the dispatch map says. -/
theorem read_inside_iff {n chunkSize : ℕ} (hn : 0 < n) (hle : n ≤ entryBytes job.size.toNat)
    {segs : List IoSegment} (hread : coldRead drive.blockSize chunkSize w.loc n = some segs) :
    (∀ seg ∈ segs, ∀ b ∈ seg.lbas drive.blockSize, drive.Inside b) ↔
      drive.data.startLba.toNat ≤ w.handle.offset % 2 ^ 56 / drive.blockSize := by
  obtain ⟨hpos, -, -, hend⟩ := written_range hdrive hrun hfit hwrite
  obtain ⟨-, -, -, -, hloc⟩ := writeThrough_ok hwrite
  obtain ⟨hstart, -, -, -⟩ := data_start_ge hdrive
  obtain ⟨hsector, -, -⟩ := createDataDrive_ok hdrive
  obtain ⟨⟨q, hq⟩, hge, -⟩ := @nextMultipleOf_spec job.size.toNat _ hpos
  obtain ⟨⟨t, ht⟩, htge, htlt⟩ := @nextMultipleOf_spec n _ hpos
  have hoffset : (decodeLoc w.loc).2.toNat = w.handle.offset % 2 ^ 56 := by
    rw [hloc, decodeLoc_encodeLoc, UInt64.toNat_ofNat', Nat.mod_mod_of_dvd _ (by decide)]
  rw [coldRead, hoffset] at hread
  refine segmentIo_inside_iff hread (lt_of_lt_of_le hn htge) ?_
  -- a read exceeds the extent by less than the primary partition table
  have hbs : drive.blockSize = sectorSize.toNat := by rw [DataDrive.blockSize, hsector]
  have htable : 16384 ≤ (mk sectorSize numSectors).entrySectors * drive.blockSize := by
    have hmod := Nat.div_add_mod' (gptMaxEntries * gptEntrySize + drive.blockSize - 1)
      drive.blockSize
    have hlt := Nat.mod_lt (gptMaxEntries * gptEntrySize + drive.blockSize - 1) hpos
    have hconst : gptMaxEntries * gptEntrySize = 16384 := rfl
    simp only [entrySectors, ← hbs]
    omega
  have hextra : t ≤ q + (mk sectorSize numSectors).entrySectors := by
    refine Nat.le_of_lt_succ (Nat.lt_of_mul_lt_mul_right (a := drive.blockSize) ?_)
    have hentry : entryBytes job.size.toNat ≤ job.size.toNat + 4095 := Nat.div_mul_le_self _ _
    rw [Nat.succ_mul, Nat.add_mul, Nat.mul_comm t, Nat.mul_comm q, ← ht, ← hq]
    omega
  rw [hq] at hend
  have hsum := div_add_le hpos hend
  have hdiv : w.handle.offset % 2 ^ 56 / drive.blockSize ≤ w.handle.offset / drive.blockSize :=
    Nat.div_le_div_right (Nat.mod_le _ _)
  rw [ht, ceil_mul hpos]
  omega

end

/-- **Data stays in the data partition if the region of its key starts there** and ends before the
first checkpoint copy. In every run of the extent manager as it was formatted on a drive, with at most
`2 ^ 56` bytes of data and room for the superblock, what a write-through writes and a cold read of its
extent reads is in the data partition, apart from the tables and the metadata. The write spares the
superblock and the copies: each of these takes half of the drive, wherever the metadata partition
ends. -/
theorem data_inside (hdrive : createDataDrive i sectorSize numSectors randomId config = .ok drive)
    {d : Disk drive.client.sectorSize} {as : List Action} {s : ExtentManager.System drive.client}
    (hrun : Run ExtentManager.System.step (fun _ a => a ≠ .restart)
      (formatted d drive.manager) as s)
    {maxTransferSize driveIdx : ℕ} {job : WriteJob} {w : Written} (hsize : 0 < job.size.toNat)
    (hfit : nextMultipleOf job.size.toNat drive.blockSize + drive.blockSize ≤ 2 ^ 32)
    (hwrite : writeThrough drive.blockSize maxTransferSize driveIdx s job = some w)
    (hregion : drive.data.startLba.toNat * drive.blockSize ≤ (drive.keyRegion job.key).1)
    (hcopies : (drive.keyRegion job.key).1 + (drive.keyRegion job.key).2 ≤ (drive.client.baseLba
      + copyLba drive.client drive.manager.shared.superblock 0) * drive.blockSize)
    (hmetadata : superblockSize ≤ drive.metadata.numSectors.toNat * drive.blockSize)
    (hshort : drive.data.numSectors.toNat * drive.blockSize ≤ 2 ^ 56) :
    (∀ seg ∈ w.segments, ∀ b ∈ seg.lbas drive.blockSize, drive.Inside b ∧
        ¬drive.InCopy 0 b ∧ ¬drive.InCopy 1 b ∧
        drive.client.baseLba * drive.blockSize + superblockSize ≤ b * drive.blockSize) ∧
      (∀ n chunkSize segs, 0 < n → n ≤ entryBytes job.size.toNat →
        coldRead drive.blockSize chunkSize w.loc n = some segs →
          ∀ seg ∈ segs, ∀ b ∈ seg.lbas drive.blockSize, drive.Inside b) ∧
      ∀ b, drive.Inside b → 2 + (mk sectorSize numSectors).entrySectors ≤ b ∧
        b + (mk sectorSize numSectors).entrySectors + 1 < numSectors.toNat ∧
        drive.metadata.startLba.toNat + drive.metadata.numSectors.toNat ≤ b ∧
        drive.extendedMetadata.startLba.toNat + drive.extendedMetadata.numSectors.toNat ≤ b := by
  obtain ⟨hpos, hbase, hregionEnd, hend⟩ := written_range hdrive hrun hfit hwrite
  obtain ⟨⟨q, hq⟩, hge, -⟩ := @nextMultipleOf_spec job.size.toNat _ hpos
  obtain ⟨htable, hmeta, hext, hbackup⟩ := data_start_ge hdrive
  have hfirst : drive.data.startLba.toNat ≤ w.handle.offset / drive.blockSize :=
    (Nat.le_div_iff_mul_le hpos).mpr (le_trans hregion hbase)
  refine ⟨fun seg hseg b hb => ?_, ?_, ?_⟩
  · have hin := (write_inside_iff hdrive hrun hfit hwrite hsize).mpr hfirst seg hseg b hb
    -- the extent ends before the first copy
    obtain ⟨-, -, -, hsegs, -⟩ := writeThrough_ok hwrite
    have hlt := ((segmentIo_inside_iff hsegs (lt_of_lt_of_le hsize hge) le_rfl).mpr le_rfl
      seg hseg b hb).2
    rw [hq, ceil_mul hpos] at hlt
    have hcopy := div_add_le hpos (hq ▸ le_trans hregionEnd hcopies)
    have hle := copyLba_le hdrive
    refine ⟨hin, fun hc => ?_, fun hc => ?_, ?_⟩
    · exact absurd hc.1 (by omega)
    · exact absurd hc.1 (by omega)
    · calc drive.client.baseLba * drive.blockSize + superblockSize
          ≤ (drive.metadata.startLba.toNat + drive.metadata.numSectors.toNat)
            * drive.blockSize := by
            rw [Nat.add_mul]
            exact Nat.add_le_add_left hmetadata _
        _ ≤ b * drive.blockSize := Nat.mul_le_mul_right _ (le_trans hmeta hin.1)
  · intro n chunkSize segs hn hle hread
    refine (read_inside_iff hdrive hrun hfit hwrite hn hle hread).mpr ?_
    rwa [Nat.mod_eq_of_lt (show w.handle.offset < 2 ^ 56 by omega)]
  · intro b hb
    have := hb.2
    exact ⟨le_trans htable hb.1, by omega, le_trans hmeta hb.1, le_trans hext hb.1⟩

end Drive

/-! ## Small drives -/

/-- The extent manager of a drive right after it was set up. -/
def DataDrive.fresh (drive : DataDrive) : ExtentManager.System drive.client :=
  formatted (blankDisk _) drive.manager

/-- Two megabytes for the first two partitions. -/
def smallConfig : DriveConfig := ⟨1048576, 1048576⟩

/-- A drive of 16 MiB. -/
def smallDrive : DataDrive :=
  (createDataDrive 0 4096 4096 7 smallConfig).toOption.get (by decide +kernel)

/-- A drive of 269 sectors, of which the first two partitions have one each. -/
def tinyDrive : DataDrive :=
  (createDataDrive 0 4096 269 7 ⟨4096, 4096⟩).toOption.get (by decide +kernel)

theorem createDataDrive_tiny : createDataDrive 0 4096 269 7 ⟨4096, 4096⟩ = .ok tinyDrive := by rfl

/-- An extent of the second region of that drive, blocks 16 to 31, is in the data partition and before
the checkpoint copies, which start at block 38. -/
theorem second_region_inside :
    ∃ w, writeThrough tinyDrive.blockSize 131072 0 tinyDrive.fresh ⟨1, 4096, 0⟩ = some w ∧
      (∀ seg ∈ w.segments, ∀ b ∈ seg.lbas tinyDrive.blockSize,
        tinyDrive.Inside b ∧ ¬tinyDrive.InCopy 0 b ∧ ¬tinyDrive.InCopy 1 b) ∧
      ∀ segs, coldRead tinyDrive.blockSize 131072 w.loc 4096 = some segs →
        ∀ seg ∈ segs, ∀ b ∈ seg.lbas tinyDrive.blockSize, tinyDrive.Inside b := by
  have hsome : (writeThrough tinyDrive.blockSize 131072 0 tinyDrive.fresh ⟨1, 4096, 0⟩).isSome
      = true := by decide +kernel
  obtain ⟨w, hw⟩ := isSome_iff_exists.mp hsome
  have hsize : 0 < (WriteJob.mk 1 4096 0).size.toNat := by decide
  have hinside := data_inside createDataDrive_tiny (Run.nil tinyDrive.fresh) hsize
    (by decide +kernel) hw (by decide +kernel) (by decide +kernel) (by decide +kernel)
    (by decide +kernel)
  refine ⟨w, hw, fun seg hseg b hb => ?_, fun segs hread => hinside.2.1 4096 131072 segs
    (by decide) (by decide) hread⟩
  obtain ⟨hin, hfirst, hsecond, -⟩ := hinside.1 seg hseg b hb
  exact ⟨hin, hfirst, hsecond⟩

/-- **Data is written into the metadata partition.** The first extent of the first region goes to
block 208 of the drive, and is read from there. Blocks 6 to 261 are the metadata, and block 208
belongs to the first checkpoint copy; the data partition starts at block 518. -/
theorem first_extent_in_metadata :
    ∃ w segs, writeThrough smallDrive.blockSize 131072 0 smallDrive.fresh ⟨0, 4096, 0⟩ = some w ∧
      coldRead smallDrive.blockSize 131072 w.loc 4096 = some segs ∧
      w.segments = [⟨0, 208, 4096⟩] ∧ segs = [⟨0, 208, 4096⟩] ∧
      208 ∈ IoSegment.lbas smallDrive.blockSize ⟨0, 208, 4096⟩ ∧
      smallDrive.metadata.startLba = 6 ∧ smallDrive.metadata.numSectors = 256 ∧
      smallDrive.InCopy 0 208 ∧ ¬ smallDrive.Inside 208 := by
  have hsome : ((writeThrough smallDrive.blockSize 131072 0 smallDrive.fresh ⟨0, 4096, 0⟩).bind
      fun w => (coldRead smallDrive.blockSize 131072 w.loc 4096).map fun segs =>
        (w.segments, segs)) = some ([⟨0, 208, 4096⟩], [⟨0, 208, 4096⟩]) := by decide +kernel
  obtain ⟨w, hw, hsome⟩ := bind_eq_some_iff.mp hsome
  obtain ⟨segs, hread, heq⟩ := map_eq_some_iff.mp hsome
  obtain ⟨hwrite, hsegs⟩ := Prod.mk.inj heq
  have hstart : smallDrive.data.startLba = 518 := by decide +kernel
  refine ⟨w, segs, hw, hread, hwrite, hsegs, by decide +kernel, by decide +kernel,
    by decide +kernel, by decide +kernel, fun hin => ?_⟩
  have := hin.1
  rw [hstart] at this
  exact absurd this (by decide)

end Certus.Dispatcher
