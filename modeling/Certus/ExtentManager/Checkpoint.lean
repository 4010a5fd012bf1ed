import Certus.ExtentManager.BlockIo
import Certus.ExtentManager.Superblock

/-! # Checkpoints

`checkpoint.rs`: the slabs and keys of all regions as one byte string, written behind a header with
sequence number, length and checksum to one of two copies on the metadata device.

* **`deserializeSlabs_payload`** — decoding inverts encoding.
* **`readCheckpointRegion_of_holds`**, **`readCheckpointRegion_of_seq_ne`** — what is read from a
  complete copy, and from a copy with another sequence number. -/

namespace Certus.ExtentManager

open List BlockDeviceClient

/-- The header: sequence number, payload length, checksum. -/
def checkpointHeaderSize : ℕ := 16

/-- The fixed part of a slab: start, size, slot size, slot count. -/
def slabHeaderSize : ℕ := 24

/-! ## Encoding -/

/-- One slab: its header and the key of every slot. -/
def serializeSlab (s : Slab) : List UInt8 :=
  leBytes 8 s.startOffset ++ (leBytes 8 s.slabSize ++ (leBytes 4 s.elementSize ++
  (leBytes 4 s.numSlots ++
  ((List.range s.numSlots).flatMap fun i => leBytes 8 (s.getKey i).toNat))))

/-- One region: the number of slabs, truncated to 32 bits, and the slabs. -/
def serializeRegion (r : RegionState) : List UInt8 :=
  leBytes 4 r.slabs.values.length ++ r.slabs.values.flatMap serializeSlab

/-- The whole payload: the number of regions and the regions. -/
def checkpointPayload (regions : List RegionState) : List UInt8 :=
  leBytes 4 regions.length ++ regions.flatMap serializeRegion

/-- Header and payload. The checksum is that of the bytes with a zero checksum field; the length
field is truncated to 32 bits. -/
def checkpointBlob (seq : ℕ) (payload : List UInt8) : List UInt8 :=
  let crc := crc32 (leBytes 8 seq ++ (leBytes 4 payload.length ++ (leBytes 4 0 ++ payload)))
  leBytes 8 seq ++ (leBytes 4 payload.length ++ (leBytes 4 crc.toNat ++ payload))

/-- A buffer filled up with zeros to whole sectors. -/
def padToSector (sectorSize : ℕ) (data : List UInt8) : List UInt8 :=
  let alignedLen := (data.length + sectorSize - 1) / sectorSize * sectorSize
  data ++ List.replicate (alignedLen - data.length) 0

/-! ## Decoding -/

/-- A slab as recorded in a checkpoint. -/
structure SlabDescriptor where
  startOffset : ℕ
  slabSize : ℕ
  elementSize : ℕ
  keys : List UInt64
  deriving DecidableEq, Repr

/-- `n` keys. -/
def readKeys : ℕ → List UInt8 → List UInt64 × List UInt8
  | 0, data => ([], data)
  | n + 1, data =>
    let k := UInt64.ofNat (leNat (data.take 8))
    let (ks, rest) := readKeys n (data.drop 8)
    (k :: ks, rest)

/-- One slab from the front of the data. -/
def readSlab (data : List UInt8) : Except ExtentManagerError (SlabDescriptor × List UInt8) :=
  if data.length < slabHeaderSize then .error (.corruptMetadata "truncated slab header")
  else
    let startOffset := leNat (data.take 8)
    let data := data.drop 8
    let slabSize := leNat (data.take 8)
    let data := data.drop 8
    let elementSize := leNat (data.take 4)
    let data := data.drop 4
    let numSlots := leNat (data.take 4)
    let data := data.drop 4
    if data.length < numSlots * 8 then .error (.corruptMetadata "truncated slab key vector")
    else
      let (keys, data) := readKeys numSlots data
      .ok (⟨startOffset, slabSize, elementSize, keys⟩, data)

/-- `n` slabs. -/
def readSlabs : ℕ → List UInt8 → Except ExtentManagerError (List SlabDescriptor × List UInt8)
  | 0, data => .ok ([], data)
  | n + 1, data => do
      let (slab, data) ← readSlab data
      let (slabs, data) ← readSlabs n data
      .ok (slab :: slabs, data)

/-- `n` regions. -/
def readRegions : ℕ → List UInt8 → Except ExtentManagerError (List (List SlabDescriptor))
  | 0, _ => .ok []
  | n + 1, data =>
    if data.length < 4 then .error (.corruptMetadata "truncated slab count")
    else do
      let (slabs, data) ← readSlabs (leNat (data.take 4)) (data.drop 4)
      let regions ← readRegions n data
      .ok (slabs :: regions)

/-- The slabs of all regions from a payload. -/
def deserializeSlabs (data : List UInt8) : Except ExtentManagerError (List (List SlabDescriptor)) :=
  if data.length < 4 then .error (.corruptMetadata "checkpoint data too short")
  else readRegions (leNat (data.take 4)) (data.drop 4)

/-- The payload of the copy at a byte offset, if it carries the expected sequence number and its
checksum is right. -/
def readCheckpointRegion (c : BlockDeviceClient) (d : Disk c.sectorSize)
    (regionByteOffset regionSize expectedSeq : ℕ) : Except ExtentManagerError (List UInt8) :=
  let lba := regionByteOffset / c.sectorSize
  let headerSector := c.readBlocks d lba c.sectorSize
  if headerSector.length < checkpointHeaderSize then
    .error (.corruptMetadata "checkpoint region too short")
  else
    let seq := leNat (headerSector.take 8)
    let payloadLen := leNat ((headerSector.drop 8).take 4)
    let storedCrc := leNat ((headerSector.drop 12).take 4)
    if seq ≠ expectedSeq then
      .error (.corruptMetadata
        ("checkpoint seq mismatch: expected=" ++ toString expectedSeq ++ " got=" ++ toString seq))
    else
      let total := checkpointHeaderSize + payloadLen
      if total > regionSize then
        .error (.corruptMetadata "checkpoint payload exceeds region size")
      else
        let alignedLen := (total + c.sectorSize - 1) / c.sectorSize * c.sectorSize
        let raw := if alignedLen ≤ c.sectorSize then headerSector
          else c.readBlocks d lba alignedLen
        if raw.length < total then .error (.corruptMetadata "checkpoint payload truncated")
        else
          let checkBuf := raw.take 12 ++ (leBytes 4 0 ++ (raw.take total).drop checkpointHeaderSize)
          let computedCrc := (crc32 checkBuf).toNat
          if storedCrc ≠ computedCrc then
            .error (.corruptMetadata
              ("checkpoint CRC mismatch: stored=0x" ++ String.ofList (Nat.toDigits 16 storedCrc) ++
                " computed=0x" ++ String.ofList (Nat.toDigits 16 computedCrc)))
          else .ok ((raw.take total).drop checkpointHeaderSize)

/-! ## Decoding inverts encoding -/

/-- What a checkpoint records of a slab. -/
def Slab.describe (s : Slab) : SlabDescriptor where
  startOffset := s.startOffset
  slabSize := s.slabSize
  elementSize := s.elementSize
  keys := (List.range s.numSlots).map s.getKey

/-- What a checkpoint records of a region. -/
def RegionState.describe (r : RegionState) : List SlabDescriptor := r.slabs.values.map Slab.describe

/-- The numbers of a slab fit into their fields. -/
structure Slab.Encodable (s : Slab) : Prop where
  start_lt : s.startOffset < 2 ^ 64
  size_lt : s.slabSize < 2 ^ 64
  element_lt : s.elementSize < 2 ^ 32
  slots_lt : s.numSlots < 2 ^ 32

theorem readKeys_flatMap (keys : List UInt64) (rest : List UInt8) :
    readKeys keys.length (keys.flatMap (fun k => leBytes 8 k.toNat) ++ rest) = (keys, rest) := by
  induction keys with
  | nil => rfl
  | cons k ks ih =>
    rw [length_cons, readKeys, flatMap_cons, append_assoc, take_leBytes_append,
      drop_leBytes_append, ih, Superblock.leNat_u64]

theorem length_flatMap_keys (keys : List UInt64) :
    (keys.flatMap fun k => leBytes 8 k.toNat).length = keys.length * 8 := by
  induction keys with
  | nil => rfl
  | cons k ks ih =>
    rw [flatMap_cons, length_append, ih, length_leBytes, length_cons]
    omega

/-- The keys of a slab, in the order of the slots. -/
theorem serializeSlab_eq (s : Slab) :
    serializeSlab s = leBytes 8 s.startOffset ++ (leBytes 8 s.slabSize ++ (leBytes 4 s.elementSize ++
      (leBytes 4 s.numSlots ++ (s.describe.keys.flatMap fun k => leBytes 8 k.toNat)))) := by
  rw [serializeSlab, Slab.describe, flatMap_map]

theorem length_serializeSlab (s : Slab) :
    (serializeSlab s).length = slabHeaderSize + s.numSlots * 8 := by
  rw [serializeSlab_eq]
  simp only [length_append, length_leBytes, length_flatMap_keys, Slab.describe,
    length_map, length_range, slabHeaderSize]
  omega

theorem readSlab_serializeSlab {s : Slab} (hs : s.Encodable) (rest : List UInt8) :
    readSlab (serializeSlab s ++ rest) = .ok (s.describe, rest) := by
  have hlen : ¬ (serializeSlab s ++ rest).length < slabHeaderSize := by
    rw [length_append, length_serializeSlab]
    omega
  have hkeys : s.describe.keys.length = s.numSlots := by simp [Slab.describe]
  unfold readSlab
  rw [if_neg hlen, serializeSlab_eq]
  simp only [append_assoc, take_leBytes_append, drop_leBytes_append]
  rw [leNat_leBytes_of_lt (k := 8) hs.start_lt, leNat_leBytes_of_lt (k := 8) hs.size_lt,
    leNat_leBytes_of_lt (k := 4) hs.element_lt, leNat_leBytes_of_lt (k := 4) hs.slots_lt, if_neg, ← hkeys,
    readKeys_flatMap]
  · rfl
  · rw [length_append, length_flatMap_keys, hkeys]
    omega

theorem readSlabs_flatMap {slabs : List Slab} (hs : ∀ s ∈ slabs, s.Encodable) (rest : List UInt8) :
    readSlabs slabs.length (slabs.flatMap serializeSlab ++ rest)
      = .ok (slabs.map Slab.describe, rest) := by
  induction slabs with
  | nil => rfl
  | cons s slabs ih =>
    rw [length_cons, readSlabs, flatMap_cons, append_assoc,
      readSlab_serializeSlab (hs s mem_cons_self)]
    dsimp only [bind, Except.bind]
    rw [ih fun t ht => hs t (mem_cons_of_mem _ ht)]
    rfl

/-- The regions whose encoding loses nothing: few enough slabs, all encodable. -/
structure RegionState.Encodable (r : RegionState) : Prop where
  count_lt : r.slabs.values.length < 2 ^ 32
  slab : ∀ s ∈ r.slabs.values, s.Encodable

variable {regions : List RegionState}

theorem readRegions_flatMap (hr : ∀ r ∈ regions, r.Encodable) :
    readRegions regions.length (regions.flatMap serializeRegion)
      = .ok (regions.map RegionState.describe) := by
  induction regions with
  | nil => rfl
  | cons r regions ih =>
    have hok := hr r mem_cons_self
    have hlen : ¬ ((r :: regions).flatMap serializeRegion).length < 4 := by
      rw [flatMap_cons, serializeRegion, append_assoc, length_append, length_leBytes]
      omega
    rw [length_cons, readRegions, if_neg hlen, flatMap_cons, serializeRegion,
      append_assoc, take_leBytes_append, drop_leBytes_append,
      leNat_leBytes_of_lt (k := 4) hok.count_lt, readSlabs_flatMap hok.slab]
    dsimp only [bind, Except.bind]
    rw [ih fun t ht => hr t (mem_cons_of_mem _ ht)]
    rfl

/-- **Decoding inverts encoding.** -/
theorem deserializeSlabs_payload (hcount : regions.length < 2 ^ 32)
    (hr : ∀ r ∈ regions, r.Encodable) :
    deserializeSlabs (checkpointPayload regions) = .ok (regions.map RegionState.describe) := by
  have hlen : ¬ (checkpointPayload regions).length < 4 := by
    rw [checkpointPayload, length_append, length_leBytes]
    omega
  rw [deserializeSlabs, if_neg hlen, checkpointPayload, take_leBytes_append, drop_leBytes_append,
    leNat_leBytes_of_lt (k := 4) hcount]
  exact readRegions_flatMap hr

/-! ## Copies on the device -/

section Copies

variable {c : BlockDeviceClient}

theorem length_checkpointBlob (seq : ℕ) (payload : List UInt8) :
    (checkpointBlob seq payload).length = checkpointHeaderSize + payload.length := by
  simp only [checkpointBlob, length_append, length_leBytes, checkpointHeaderSize]
  omega

theorem length_padToSector (hc : 0 < c.sectorSize) (data : List UInt8) :
    (padToSector c.sectorSize data).length = c.numBlocks data.length * c.sectorSize := by
  have hle : data.length ≤ c.numBlocks data.length * c.sectorSize := by
    have h := Nat.div_add_mod (data.length + c.sectorSize - 1) c.sectorSize
    have h' := Nat.mod_lt (data.length + c.sectorSize - 1) hc
    rw [Nat.mul_comm] at h
    unfold BlockDeviceClient.numBlocks
    omega
  rw [padToSector, length_append, length_replicate]
  exact Nat.add_sub_cancel' hle

/-- The sequence number in the first sector of a copy. -/
def copySeq (c : BlockDeviceClient) (d : Disk c.sectorSize) (regionByteOffset : ℕ) : ℕ :=
  leNat ((d.sector (c.baseLba + regionByteOffset / c.sectorSize)).take 8)

/-- The copy at a byte offset is complete: sequence number and payload are on the device. -/
def CopyHolds (c : BlockDeviceClient) (d : Disk c.sectorSize) (regionByteOffset seq : ℕ)
    (payload : List UInt8) : Prop :=
  c.Holds d (regionByteOffset / c.sectorSize)
    (padToSector c.sectorSize (checkpointBlob seq payload))

variable {d : Disk c.sectorSize} {off seq size : ℕ} {payload : List UInt8}

variable (hc : checkpointHeaderSize ≤ c.sectorSize)
include hc

theorem sector_pos : 0 < c.sectorSize := lt_of_lt_of_le (by decide) hc

theorem readBlocks_copy (h : CopyHolds c d off seq payload) {m : ℕ}
    (hm : m ≤ c.numBlocks (checkpointHeaderSize + payload.length)) :
    c.readBlocks d (off / c.sectorSize) (m * c.sectorSize)
      = (padToSector c.sectorSize (checkpointBlob seq payload)).take (m * c.sectorSize) := by
  have hpos := sector_pos hc
  have hlen := length_padToSector hpos (checkpointBlob seq payload)
  rw [length_checkpointBlob] at hlen
  exact readBlocks_of_holds hpos hlen h hm

theorem numBlocks_pos (n : ℕ) : 1 ≤ c.numBlocks (checkpointHeaderSize + n) := by
  have hpos := sector_pos hc
  have h16 : checkpointHeaderSize = 16 := rfl
  rw [BlockDeviceClient.numBlocks, Nat.one_le_div_iff hpos]
  omega

/-- The first sector of a complete copy starts with the header. -/
theorem header_of_holds (h : CopyHolds c d off seq payload) :
    d.sector (c.baseLba + off / c.sectorSize)
      = (padToSector c.sectorSize (checkpointBlob seq payload)).take c.sectorSize := by
  have hpos := sector_pos hc
  have hread := readBlocks_copy hc h (numBlocks_pos hc _)
  rwa [Nat.one_mul, readBlocks_one hpos] at hread

theorem copySeq_of_holds (hseq : seq < 2 ^ 64) (h : CopyHolds c d off seq payload) :
    copySeq c d off = seq := by
  have h8 : 8 ≤ c.sectorSize := le_trans (by decide) hc
  rw [copySeq, header_of_holds hc h, take_take, min_eq_left h8, padToSector, checkpointBlob]
  simp only [append_assoc, take_leBytes_append]
  exact leNat_leBytes_of_lt hseq

/-- The checksum that `checkpointBlob` stores. -/
def blobCrc (seq : ℕ) (payload : List UInt8) : UInt32 :=
  crc32 (leBytes 8 seq ++ (leBytes 4 payload.length ++ (leBytes 4 0 ++ payload)))

/-- A header field, read from the first sector of a padded blob. -/
theorem field_of_header (blob : List UInt8) {a b : ℕ} (hab : a + b ≤ checkpointHeaderSize) :
    ∃ tail, (((padToSector c.sectorSize blob).take c.sectorSize).drop a).take b
      = ((blob ++ tail).drop a).take b := by
  refine ⟨List.replicate ((blob.length + c.sectorSize - 1) / c.sectorSize * c.sectorSize
    - blob.length) 0, ?_⟩
  rw [drop_take, take_take, min_eq_left (by omega), padToSector]

theorem header_fields (hseq : seq < 2 ^ 64) (hlen : payload.length < 2 ^ 32) :
    let h := (padToSector c.sectorSize (checkpointBlob seq payload)).take c.sectorSize
    leNat (h.take 8) = seq ∧ leNat ((h.drop 8).take 4) = payload.length ∧
      leNat ((h.drop 12).take 4) = (blobCrc seq payload).toNat := by
  dsimp only
  obtain ⟨t₀, h₀⟩ := field_of_header hc (checkpointBlob seq payload) (show 0 + 8 ≤ _ by decide)
  obtain ⟨t₁, h₁⟩ := field_of_header hc (checkpointBlob seq payload) (show 8 + 4 ≤ _ by decide)
  obtain ⟨t₂, h₂⟩ := field_of_header hc (checkpointBlob seq payload) (show 12 + 4 ≤ _ by decide)
  rw [drop_zero, drop_zero] at h₀
  rw [h₀, h₁, h₂, show 12 = 8 + 4 from rfl, ← drop_drop]
  simp only [checkpointBlob, append_assoc, take_leBytes_append, drop_leBytes_append]
  exact ⟨leNat_leBytes_of_lt hseq, leNat_leBytes_of_lt hlen, leNat_leBytes_of_lt (UInt32.toNat_lt _)⟩

/-- **A complete copy is read back.** -/
theorem readCheckpointRegion_of_holds (hseq : seq < 2 ^ 64) (hlen : payload.length < 2 ^ 32)
    (hsize : checkpointHeaderSize + payload.length ≤ size) (h : CopyHolds c d off seq payload) :
    readCheckpointRegion c d off size seq = .ok payload := by
  have hpos := sector_pos hc
  have hheader := header_of_holds hc h
  have hhlen := d.length_sector (c.baseLba + off / c.sectorSize)
  obtain ⟨hf₁, hf₂, hf₃⟩ := header_fields hc hseq hlen
  rw [← hheader] at hf₁ hf₂ hf₃
  set blob := checkpointBlob seq payload with hblob
  have hbl : blob.length = checkpointHeaderSize + payload.length := length_checkpointBlob _ _
  have hpl := length_padToSector hpos blob
  rw [hbl] at hpl
  -- both ways of reading the rest give the whole padded blob
  have hraw : (if (checkpointHeaderSize + payload.length + c.sectorSize - 1) / c.sectorSize
        * c.sectorSize ≤ c.sectorSize then d.sector (c.baseLba + off / c.sectorSize)
      else c.readBlocks d (off / c.sectorSize)
        ((checkpointHeaderSize + payload.length + c.sectorSize - 1) / c.sectorSize * c.sectorSize))
      = padToSector c.sectorSize blob := by
    have hn : (checkpointHeaderSize + payload.length + c.sectorSize - 1) / c.sectorSize
        = c.numBlocks (checkpointHeaderSize + payload.length) := rfl
    rw [hn]
    split_ifs with hone
    · rw [hheader, take_of_length_le (hpl ▸ hone)]
    · rw [readBlocks_copy hc h (le_refl _), ← hblob, take_of_length_le (le_of_eq hpl)]
  have htake : (padToSector c.sectorSize blob).take (checkpointHeaderSize + payload.length) = blob := by
    rw [padToSector, take_append_of_le_length (le_of_eq hbl.symm), take_of_length_le (le_of_eq hbl)]
  have hdrop : blob.drop checkpointHeaderSize = payload := by
    rw [hblob, checkpointHeaderSize, show 16 = 8 + (4 + 4) from rfl, ← drop_drop, ← drop_drop]
    simp only [checkpointBlob, drop_leBytes_append]
  have htwelve : (padToSector c.sectorSize blob).take 12
      = leBytes 8 seq ++ leBytes 4 payload.length := by
    rw [padToSector, hblob, show 12 = 8 + 4 from rfl, take_add]
    simp only [checkpointBlob, append_assoc, take_leBytes_append, drop_leBytes_append]
  have hge : blob.length ≤ (padToSector c.sectorSize blob).length := by
    rw [padToSector, length_append]
    exact Nat.le_add_right _ _
  unfold readCheckpointRegion
  simp only [readBlocks_one hpos, hf₁, hf₂, hf₃, hraw, htake, hdrop, htwelve, hhlen, append_assoc]
  rw [if_neg (Nat.not_lt.mpr hc), if_neg (by simp), if_neg (Nat.not_lt.mpr hsize),
    if_neg (by rw [← hbl]; exact Nat.not_lt.mpr hge), if_neg (by rw [blobCrc]; simp)]

theorem readCheckpointRegion_of_seq_ne (h : copySeq c d off ≠ seq) :
    ∃ e, readCheckpointRegion c d off size seq = .error e := by
  have hpos := sector_pos hc
  rw [copySeq] at h
  unfold readCheckpointRegion
  simp only [readBlocks_one hpos, d.length_sector]
  rw [if_neg (Nat.not_lt.mpr hc), if_pos h]
  exact ⟨_, rfl⟩

end Copies

end Certus.ExtentManager
