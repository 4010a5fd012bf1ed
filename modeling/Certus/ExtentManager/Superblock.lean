import Certus.ExtentManager.Region
import Certus.Lib.LittleEndian

/-! # The superblock

`superblock.rs`: 4096 bytes at the start of the metadata device that say where the checkpoint copies
are, which of them is active and which sequence number it carries. A checksum covers the fields.

* **`Superblock.deserialize_head`** — reading needs only the first 96 bytes, and inverts writing. -/

namespace Certus.ExtentManager

open List

/-! ## The checksum -/

/-- One bit of the reflected CRC-32 with polynomial `0xEDB88320`. -/
def crcBit (c : ℕ) : ℕ := if c % 2 = 1 then (c / 2) ^^^ 0xEDB88320 else c / 2

/-- Eight bits. -/
def crcByte (c : ℕ) (b : UInt8) : ℕ :=
  crcBit (crcBit (crcBit (crcBit (crcBit (crcBit (crcBit (crcBit (c ^^^ b.toNat))))))))

/-- CRC-32 of a byte string. -/
def crc32 (bs : List UInt8) : UInt32 :=
  UInt32.ofNat (bs.foldl crcByte 0xFFFFFFFF ^^^ 0xFFFFFFFF)

/-- The check value of the algorithm, the checksum of the digits one to nine. -/
example : crc32 [0x31, 0x32, 0x33, 0x34, 0x35, 0x36, 0x37, 0x38, 0x39] = 0xCBF43926 := by
  decide +kernel

/-! ## Encoding -/

/-- The size of the superblock on disk. -/
def superblockSize : ℕ := 4096

/-- `CERTUSV4` -/
def superblockMagic : UInt64 := 0x4345525455535634

/-- The version of the format. -/
def formatVersion : UInt32 := 6

/-- The superblock. -/
structure Superblock where
  magic : UInt64
  version : UInt32
  dataDiskSize : UInt64
  sectorSize : UInt32
  slabSize : UInt64
  maxExtentSize : UInt32
  regionCount : UInt32
  checkpointSeq : UInt64
  activeCopy : UInt8
  checkpointRegionOffset : UInt64
  checkpointRegionSize : UInt64
  instanceId : UInt64
  metadataDiskNsId : UInt32
  dataStartOffset : UInt64
  deriving DecidableEq, Repr

namespace Superblock

/-- The superblock of a freshly formatted device. -/
def new (dataDiskSize : UInt64) (sectorSize : UInt32) (slabSize : UInt64)
    (maxExtentSize regionCount : UInt32)
    (checkpointRegionOffset checkpointRegionSize instanceId : UInt64) (metadataDiskNsId : UInt32)
    (dataStartOffset : UInt64) : Superblock where
  magic := superblockMagic
  version := formatVersion
  dataDiskSize := dataDiskSize
  sectorSize := sectorSize
  slabSize := slabSize
  maxExtentSize := maxExtentSize
  regionCount := regionCount
  checkpointSeq := 0
  activeCopy := 0
  checkpointRegionOffset := checkpointRegionOffset
  checkpointRegionSize := checkpointRegionSize
  instanceId := instanceId
  metadataDiskNsId := metadataDiskNsId
  dataStartOffset := dataStartOffset

variable (sb : Superblock)

/-- The fields, 92 bytes with 7 reserved ones. -/
def fields : List UInt8 :=
  leBytes 8 sb.magic.toNat ++ (leBytes 4 sb.version.toNat ++ (leBytes 8 sb.dataDiskSize.toNat ++
  (leBytes 4 sb.sectorSize.toNat ++ (leBytes 8 sb.slabSize.toNat ++
  (leBytes 4 sb.maxExtentSize.toNat ++ (leBytes 4 sb.regionCount.toNat ++
  (leBytes 8 sb.checkpointSeq.toNat ++ (leBytes 1 sb.activeCopy.toNat ++ (leBytes 7 0 ++
  (leBytes 8 sb.checkpointRegionOffset.toNat ++ (leBytes 8 sb.checkpointRegionSize.toNat ++
  (leBytes 8 sb.instanceId.toNat ++ (leBytes 4 sb.metadataDiskNsId.toNat ++
  leBytes 8 sb.dataStartOffset.toNat)))))))))))))

/-- The bytes that carry information: the fields and their checksum. -/
def head : List UInt8 := sb.fields ++ leBytes 4 (crc32 sb.fields).toNat

/-- The superblock as written to the device. -/
def serialize : List UInt8 := sb.head ++ List.replicate (superblockSize - 96) 0

/-- The superblock read back. The fields are read in order; the version is not checked. -/
def deserialize (buf : List UInt8) : Except ExtentManagerError Superblock :=
  if buf.length < superblockSize then .error (.corruptMetadata "superblock too short")
  else
    let magic := leNat (buf.take 8)
    let rest := buf.drop 8
    if magic ≠ superblockMagic.toNat then
      .error (.corruptMetadata
        ("invalid superblock magic: 0x" ++ String.ofList (Nat.toDigits 16 magic)))
    else
      let version := leNat (rest.take 4)
      let rest := rest.drop 4
      let dataDiskSize := leNat (rest.take 8)
      let rest := rest.drop 8
      let sectorSize := leNat (rest.take 4)
      let rest := rest.drop 4
      let slabSize := leNat (rest.take 8)
      let rest := rest.drop 8
      let maxExtentSize := leNat (rest.take 4)
      let rest := rest.drop 4
      let regionCount := leNat (rest.take 4)
      let rest := rest.drop 4
      let checkpointSeq := leNat (rest.take 8)
      let rest := rest.drop 8
      let activeCopy := leNat (rest.take 1)
      let rest := rest.drop 1
      -- 7 bytes reserved
      let rest := rest.drop 7
      let checkpointRegionOffset := leNat (rest.take 8)
      let rest := rest.drop 8
      let checkpointRegionSize := leNat (rest.take 8)
      let rest := rest.drop 8
      let instanceId := leNat (rest.take 8)
      let rest := rest.drop 8
      let metadataDiskNsId := leNat (rest.take 4)
      let rest := rest.drop 4
      let dataStartOffset := leNat (rest.take 8)
      let rest := rest.drop 8
      let storedCrc := leNat (rest.take 4)
      let computedCrc := (crc32 (buf.take 92)).toNat
      if storedCrc ≠ computedCrc then
        .error (.corruptMetadata
          ("superblock CRC mismatch: stored=0x" ++ String.ofList (Nat.toDigits 16 storedCrc) ++
            " computed=0x" ++ String.ofList (Nat.toDigits 16 computedCrc)))
      else
        .ok
          { magic := .ofNat magic
            version := .ofNat version
            dataDiskSize := .ofNat dataDiskSize
            sectorSize := .ofNat sectorSize
            slabSize := .ofNat slabSize
            maxExtentSize := .ofNat maxExtentSize
            regionCount := .ofNat regionCount
            checkpointSeq := .ofNat checkpointSeq
            activeCopy := .ofNat activeCopy
            checkpointRegionOffset := .ofNat checkpointRegionOffset
            checkpointRegionSize := .ofNat checkpointRegionSize
            instanceId := .ofNat instanceId
            metadataDiskNsId := .ofNat metadataDiskNsId
            dataStartOffset := .ofNat dataStartOffset }

/-! ## Reading inverts writing -/

@[simp] theorem length_fields : sb.fields.length = 92 := by
  simp [fields]

@[simp] theorem length_head : sb.head.length = 96 := by
  simp [head]

@[simp] theorem length_serialize : sb.serialize.length = superblockSize := by
  rw [serialize, length_append, length_head, length_replicate]
  rfl

theorem leNat_u64 (x : UInt64) : UInt64.ofNat (leNat (leBytes 8 x.toNat)) = x := by
  rw [leNat_leBytes_of_lt x.toNat_lt, UInt64.ofNat_toNat]

theorem leNat_u32 (x : UInt32) : UInt32.ofNat (leNat (leBytes 4 x.toNat)) = x := by
  rw [leNat_leBytes_of_lt x.toNat_lt, UInt32.ofNat_toNat]

theorem leNat_u8 (x : UInt8) : UInt8.ofNat (leNat (leBytes 1 x.toNat)) = x := by
  rw [leNat_leBytes_of_lt x.toNat_lt, UInt8.ofNat_toNat]

/-- **The superblock is in its first 96 bytes.** Whatever follows them, it is read back. -/
theorem deserialize_head (hmagic : sb.magic = superblockMagic)
    (rest : List UInt8) (hlen : superblockSize ≤ 96 + rest.length) :
    deserialize (sb.head ++ rest) = .ok sb := by
  have hlen' : ¬ (sb.head ++ rest).length < superblockSize := by
    rw [length_append, length_head]
    omega
  have htake : (sb.head ++ rest).take 92 = sb.fields := by
    rw [head, append_assoc, take_append_of_le_length (by simp), take_of_length_le (by simp)]
  unfold deserialize
  rw [if_neg hlen', htake]
  simp only [head, fields, append_assoc, take_leBytes_append, drop_leBytes_append]
  rw [leNat_leBytes_of_lt (n := sb.magic.toNat) sb.magic.toNat_lt, hmagic, if_neg (by simp),
    leNat_leBytes_of_lt (k := 4) (UInt32.toNat_lt _), if_neg (by simp)]
  simp only [leNat_u64, leNat_u32, leNat_u8, UInt64.ofNat_toNat]
  rw [← hmagic]

end Superblock

end Certus.ExtentManager
