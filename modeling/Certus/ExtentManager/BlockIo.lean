import Mathlib.Data.List.Basic
import Mathlib.Tactic.Linarith

/-! # The metadata device

`block_io.rs`: the extent manager reads and writes its metadata in whole sectors, one after the
other. A write is therefore a list of sector writes, any prefix of which may have happened when the
execution stops. -/

namespace Certus.ExtentManager

open List

/-- The contents of a device with sectors of `size` bytes. -/
structure Disk (size : ℕ) where
  /-- The sector at a logical block address. -/
  sector : ℕ → List UInt8
  length_sector : ∀ lba, (sector lba).length = size

/-- The device after one sector write; a short buffer is filled up with zeros. -/
def Disk.write {size : ℕ} (d : Disk size) (lba : ℕ) (data : List UInt8) : Disk size where
  sector l := if l = lba then (data ++ List.replicate size 0).take size else d.sector l
  length_sector l := by
    split_ifs
    · simp
    · exact d.length_sector l

theorem Disk.sector_write_self {size : ℕ} (d : Disk size) (lba : ℕ) {data : List UInt8}
    (h : data.length = size) : (d.write lba data).sector lba = data := by
  simp only [Disk.write, if_true]
  rw [take_append_of_le_length (le_of_eq h.symm), take_of_length_le (le_of_eq h)]

theorem Disk.sector_write_of_ne {size : ℕ} (d : Disk size) {lba l : ℕ} (data : List UInt8)
    (h : l ≠ lba) : (d.write lba data).sector l = d.sector l :=
  if_neg h

/-- A client of the device: its sector size and the base added to every address. -/
structure BlockDeviceClient where
  sectorSize : ℕ
  baseLba : ℕ
  deriving DecidableEq, Repr

namespace BlockDeviceClient

variable (c : BlockDeviceClient)

/-- The number of sectors of a buffer. -/
def numBlocks (len : ℕ) : ℕ := (len + c.sectorSize - 1) / c.sectorSize

/-- The part of a buffer that goes to its `i`-th sector. -/
def chunk (data : List UInt8) (i : ℕ) : List UInt8 := (data.drop (i * c.sectorSize)).take c.sectorSize

/-- The sector writes of `write_blocks`, in order. -/
def sectorWrites (lba : ℕ) (data : List UInt8) : List (ℕ × List UInt8) :=
  (List.range (c.numBlocks data.length)).map fun i => (c.baseLba + lba + i, c.chunk data i)

/-- The bytes that `read_blocks` returns. -/
def readBlocks (d : Disk c.sectorSize) (lba numBytes : ℕ) : List UInt8 :=
  ((List.range (c.numBlocks numBytes)).flatMap fun i => d.sector (c.baseLba + lba + i)).take numBytes

/-- The buffer `data` is on the device from `lba` on. -/
def Holds (d : Disk c.sectorSize) (lba : ℕ) (data : List UInt8) : Prop :=
  ∀ i < c.numBlocks data.length, d.sector (c.baseLba + lba + i) = c.chunk data i

variable {c}

theorem numBlocks_mul (hc : 0 < c.sectorSize) (n : ℕ) : c.numBlocks (n * c.sectorSize) = n := by
  unfold numBlocks
  refine Nat.div_eq_of_lt_le ?_ ?_
  · omega
  · rw [Nat.succ_mul]
    omega

theorem length_chunk {data : List UInt8} {n i : ℕ} (hlen : data.length = n * c.sectorSize)
    (hi : i < n) : (c.chunk data i).length = c.sectorSize := by
  have := Nat.mul_le_mul_right c.sectorSize (Nat.succ_le_of_lt hi)
  rw [Nat.succ_mul] at this
  rw [chunk, length_take, length_drop, hlen]
  omega

theorem flatMap_chunk (data : List UInt8) (m : ℕ) :
    (List.range m).flatMap (c.chunk data) = data.take (m * c.sectorSize) := by
  induction m with
  | zero => simp
  | succ m ih =>
    rw [range_succ, flatMap_append, ih, flatMap_singleton, chunk, Nat.succ_mul, take_add]

/-- A buffer of whole sectors on the device is what is read. -/
theorem readBlocks_of_holds (hc : 0 < c.sectorSize) {d : Disk c.sectorSize} {lba n m : ℕ}
    {data : List UInt8} (hlen : data.length = n * c.sectorSize) (h : c.Holds d lba data)
    (hm : m ≤ n) : c.readBlocks d lba (m * c.sectorSize) = data.take (m * c.sectorSize) := by
  rw [Holds, hlen, numBlocks_mul hc] at h
  have hread : ((List.range m).flatMap fun i => d.sector (c.baseLba + lba + i))
      = (List.range m).flatMap (c.chunk data) :=
    flatMap_congr fun i hi => h i (by have := mem_range.mp hi; omega)
  rw [readBlocks, numBlocks_mul hc, hread, flatMap_chunk, take_take, Nat.min_self]

theorem readBlocks_one (hc : 0 < c.sectorSize) (d : Disk c.sectorSize) (lba : ℕ) :
    c.readBlocks d lba c.sectorSize = d.sector (c.baseLba + lba) := by
  have h1 : c.numBlocks c.sectorSize = 1 := by
    have := numBlocks_mul hc 1
    rwa [Nat.one_mul] at this
  rw [readBlocks, h1]
  simp [take_of_length_le (le_of_eq (d.length_sector _))]

end BlockDeviceClient

end Certus.ExtentManager
