import Certus.ExtentManager.Superblock
import Certus.Lib.Sectors

/-! # The format of the extended metadata store

`on_disk.rs`: a superblock in the first sector, and two regions that are written in turn. A region is
a header in a sector of its own and the entries, each filled up to whole sectors. All three carry
checksums.

* **`deserializeRegion_serializeRegion`** — a region is read back, whatever follows it.
* **`damaged_region_read_iff`** — when the other entries of a damaged region are read. -/

namespace Certus.MetadataStore

open List

open Sectors hiding count

open ExtentManager (crc32)
open ExtentManager.Superblock (leNat_u64 leNat_u32)

/-! ## The superblock -/

/-- `CERTMETA` -/
def superblockMagic : UInt64 := 0x434552544D455441

def formatVersion : UInt32 := 1

/-- The superblock. -/
structure Superblock where
  magic : UInt64
  version : UInt32
  sectorSize : UInt32
  partitionSectors : UInt64
  regionAOffset : UInt64
  regionASize : UInt64
  regionBOffset : UInt64
  regionBSize : UInt64
  activeRegion : UInt64
  flushSeq : UInt64
  entryCount : UInt64
  deriving DecidableEq, Repr

namespace Superblock

/-- The superblock of an empty partition. -/
def new (sectorSize : UInt32) (partitionSectors : UInt64) : Superblock :=
  let superblockSectors : UInt64 := 1
  let regionSize := if partitionSectors > superblockSectors then
    (partitionSectors - superblockSectors) / 2 else 0
  { magic := superblockMagic
    version := formatVersion
    sectorSize
    partitionSectors
    regionAOffset := if partitionSectors > superblockSectors then superblockSectors else 0
    regionASize := regionSize
    regionBOffset := if partitionSectors > superblockSectors then superblockSectors + regionSize else 0
    regionBSize := regionSize
    activeRegion := 0
    flushSeq := 0
    entryCount := 0 }

variable (sb : Superblock)

/-- The fields, 80 bytes. -/
def fields : List UInt8 :=
  leBytes 8 sb.magic.toNat ++ (leBytes 4 sb.version.toNat ++ (leBytes 4 sb.sectorSize.toNat ++
  (leBytes 8 sb.partitionSectors.toNat ++ (leBytes 8 sb.regionAOffset.toNat ++
  (leBytes 8 sb.regionASize.toNat ++ (leBytes 8 sb.regionBOffset.toNat ++
  (leBytes 8 sb.regionBSize.toNat ++ (leBytes 8 sb.activeRegion.toNat ++
  (leBytes 8 sb.flushSeq.toNat ++ leBytes 8 sb.entryCount.toNat)))))))))

/-- The superblock as written: the fields and their checksum, filled up to a sector. -/
def serialize (sectorSize : ℕ) : List UInt8 :=
  fit sectorSize (sb.fields ++ leBytes 4 (crc32 sb.fields).toNat)

/-- The superblock read back. -/
def deserialize (data : List UInt8) : Option Superblock :=
  if data.length < 84 then none
  else
    let magic := leNat (data.take 8)
    let rest := data.drop 8
    if magic ≠ superblockMagic.toNat then none
    else
      let version := leNat (rest.take 4)
      let rest := rest.drop 4
      if version ≠ formatVersion.toNat then none
      else
        let sectorSize := leNat (rest.take 4)
        let rest := rest.drop 4
        let partitionSectors := leNat (rest.take 8)
        let rest := rest.drop 8
        let regionAOffset := leNat (rest.take 8)
        let rest := rest.drop 8
        let regionASize := leNat (rest.take 8)
        let rest := rest.drop 8
        let regionBOffset := leNat (rest.take 8)
        let rest := rest.drop 8
        let regionBSize := leNat (rest.take 8)
        let rest := rest.drop 8
        let activeRegion := leNat (rest.take 8)
        let rest := rest.drop 8
        let flushSeq := leNat (rest.take 8)
        let rest := rest.drop 8
        let entryCount := leNat (rest.take 8)
        let rest := rest.drop 8
        let storedCrc := leNat (rest.take 4)
        if (crc32 (data.take 80)).toNat ≠ storedCrc then none
        else
          some
            { magic := .ofNat magic
              version := .ofNat version
              sectorSize := .ofNat sectorSize
              partitionSectors := .ofNat partitionSectors
              regionAOffset := .ofNat regionAOffset
              regionASize := .ofNat regionASize
              regionBOffset := .ofNat regionBOffset
              regionBSize := .ofNat regionBSize
              activeRegion := .ofNat activeRegion
              flushSeq := .ofNat flushSeq
              entryCount := .ofNat entryCount }

def inactiveRegionOffset : UInt64 :=
  if sb.activeRegion = 0 then sb.regionBOffset else sb.regionAOffset

def activeRegionOffset : UInt64 :=
  if sb.activeRegion = 0 then sb.regionAOffset else sb.regionBOffset

@[simp] theorem length_fields : sb.fields.length = 80 := by
  simp [fields]

@[simp] theorem length_serialize (sectorSize : ℕ) :
    (sb.serialize sectorSize).length = sectorSize := by
  simp [serialize]

/-- **The superblock is read back.** -/
theorem deserialize_serialize {sb : Superblock} {sectorSize : ℕ} (hsize : 84 ≤ sectorSize)
    (hmagic : sb.magic = superblockMagic) (hversion : sb.version = formatVersion) :
    deserialize (sb.serialize sectorSize) = some sb := by
  have hser : sb.serialize sectorSize = sb.fields ++ (leBytes 4 (crc32 sb.fields).toNat ++
      List.replicate (sectorSize - 84) 0) := by
    rw [serialize, fit, take_append, take_of_length_le (by simp; omega)]
    simp
  have htake : (sb.serialize sectorSize).take 80 = sb.fields := by
    rw [hser, take_append_of_le_length (by simp), take_of_length_le (by simp)]
  unfold deserialize
  rw [if_neg (by simp; omega), htake, hser]
  simp only [fields, append_assoc, take_leBytes_append, drop_leBytes_append]
  rw [leNat_leBytes_of_lt (n := sb.magic.toNat) sb.magic.toNat_lt, hmagic, if_neg (by simp),
    leNat_leBytes_of_lt (n := sb.version.toNat) sb.version.toNat_lt, hversion, if_neg (by simp),
    leNat_leBytes_of_lt (k := 4) (UInt32.toNat_lt (crc32 _)), if_neg (by simp)]
  simp only [leNat_u64, leNat_u32, UInt64.ofNat_toNat, UInt32.ofNat_toNat]
  rw [← hmagic, ← hversion]

end Superblock

/-! ## The header of a region -/

structure RegionHeader where
  flushSeq : UInt64
  entryCount : UInt32
  totalDataBytes : UInt32
  deriving DecidableEq, Repr

namespace RegionHeader

/-- The fields, 16 bytes. -/
def fields (h : RegionHeader) : List UInt8 :=
  leBytes 8 h.flushSeq.toNat ++ (leBytes 4 h.entryCount.toNat ++ leBytes 4 h.totalDataBytes.toNat)

def serialize (h : RegionHeader) (sectorSize : ℕ) : List UInt8 :=
  fit sectorSize (h.fields ++ leBytes 4 (crc32 h.fields).toNat)

def deserialize (data : List UInt8) : Option RegionHeader :=
  if data.length < 20 then none
  else
    let flushSeq := leNat (data.take 8)
    let rest := data.drop 8
    let entryCount := leNat (rest.take 4)
    let rest := rest.drop 4
    let totalDataBytes := leNat (rest.take 4)
    let rest := rest.drop 4
    let storedCrc := leNat (rest.take 4)
    if (crc32 (data.take 16)).toNat ≠ storedCrc then none
    else some ⟨.ofNat flushSeq, .ofNat entryCount, .ofNat totalDataBytes⟩

@[simp] theorem length_fields (h : RegionHeader) : h.fields.length = 16 := by
  simp [fields]

@[simp] theorem length_serialize (h : RegionHeader) (sectorSize : ℕ) :
    (h.serialize sectorSize).length = sectorSize := by
  simp [serialize]

/-- **The header is read back.** -/
theorem deserialize_serialize (h : RegionHeader) {sectorSize : ℕ} (hsize : 20 ≤ sectorSize) :
    deserialize (h.serialize sectorSize) = some h := by
  have hser : h.serialize sectorSize = h.fields ++ (leBytes 4 (crc32 h.fields).toNat ++
      List.replicate (sectorSize - 20) 0) := by
    rw [serialize, fit, take_append, take_of_length_le (by simp; omega)]
    simp
  have htake : (h.serialize sectorSize).take 16 = h.fields := by
    rw [hser, take_append_of_le_length (by simp), take_of_length_le (by simp)]
  unfold deserialize
  rw [if_neg (by simp; omega), htake, hser]
  simp only [fields, append_assoc, take_leBytes_append, drop_leBytes_append]
  rw [leNat_leBytes_of_lt (k := 4) (UInt32.toNat_lt (crc32 _)), if_neg (by simp)]
  simp only [leNat_u64, leNat_u32]

end RegionHeader

/-! ## Entries -/

/-- A continuation byte of UTF-8. -/
def isContinuation (b : UInt8) : Bool := decide (0x80 ≤ b ∧ b < 0xC0)

/-- What `String::from_utf8` accepts. -/
def validUtf8 : List UInt8 → Bool
  | [] => true
  | b :: bs =>
    if b < 0x80 then validUtf8 bs
    else if 0xC2 ≤ b ∧ b < 0xE0 then
      match bs with
      | c :: cs => isContinuation c && validUtf8 cs
      | _ => false
    else if 0xE0 ≤ b ∧ b < 0xF0 then
      match bs with
      | c :: c' :: cs =>
        isContinuation c && isContinuation c' &&
          decide ((b = 0xE0 → 0xA0 ≤ c) ∧ (b = 0xED → c < 0xA0)) && validUtf8 cs
      | _ => false
    else if 0xF0 ≤ b ∧ b < 0xF5 then
      match bs with
      | c :: c' :: c'' :: cs =>
        isContinuation c && isContinuation c' && isContinuation c'' &&
          decide ((b = 0xF0 → 0x90 ≤ c) ∧ (b = 0xF4 → c < 0x90)) && validUtf8 cs
      | _ => false
    else false

/-- A key: the bytes of a string. -/
structure Key where
  bytes : List UInt8
  valid : validUtf8 bytes
  deriving DecidableEq

/-- A key and its value. -/
abbrev KvEntry := Key × List UInt8

def padToSector (size sectorSize : ℕ) : ℕ :=
  if size = 0 then 0 else (size + sectorSize - 1) / sectorSize * sectorSize

def bytesToSectors (bytes sectorSize : ℕ) : ℕ := padToSector bytes sectorSize / sectorSize

/-- An entry of a region. -/
structure EntryRecord where
  key : Key
  value : List UInt8
  flags : UInt16
  deriving DecidableEq

open EntryRecord

namespace EntryRecord

def headerSize : ℕ := 12

variable (r : EntryRecord)

/-- The lengths and the flags, 8 bytes. The lengths are cut to their fields. -/
def lengths : List UInt8 :=
  leBytes 2 r.key.bytes.length ++ (leBytes 4 r.value.length ++ leBytes 2 r.flags.toNat)

/-- The bytes of an entry. -/
def raw : List UInt8 :=
  r.lengths ++ (leBytes 4 (crc32 (r.lengths ++ (r.key.bytes ++ r.value))).toNat ++
    (r.key.bytes ++ r.value))

/-- An entry, filled up to whole sectors. -/
def serialize (sectorSize : ℕ) : List UInt8 :=
  fit (padToSector r.raw.length sectorSize) r.raw

/-- An entry at the front of a buffer, with the bytes it takes. -/
def deserialize (data : List UInt8) : Option (EntryRecord × ℕ) :=
  if data.length < headerSize then none
  else
    let keyLen := leNat (data.take 2)
    let rest := data.drop 2
    let valueLen := leNat (rest.take 4)
    let rest := rest.drop 4
    let flags := leNat (rest.take 2)
    let rest := rest.drop 2
    let storedCrc := leNat (rest.take 4)
    let rest := rest.drop 4
    let needed := headerSize + keyLen + valueLen
    if data.length < needed then none
    else if (crc32 (data.take 8 ++ rest.take (keyLen + valueLen))).toNat ≠ storedCrc then none
    else if h : validUtf8 (rest.take keyLen) then
      some (⟨⟨rest.take keyLen, h⟩, (rest.drop keyLen).take valueLen, .ofNat flags⟩, needed)
    else none

@[simp] theorem length_lengths : r.lengths.length = 8 := by
  simp [lengths]

@[simp] theorem length_raw : r.raw.length = headerSize + r.key.bytes.length + r.value.length := by
  simp only [raw, headerSize, length_append, length_lengths, length_leBytes]
  omega

/-- **An entry is read back**, whatever follows it, if its lengths fit their fields. -/
theorem deserialize_raw {r : EntryRecord} (hkey : r.key.bytes.length < 2 ^ 16)
    (hvalue : r.value.length < 2 ^ 32) (rest : List UInt8) :
    deserialize (r.raw ++ rest) = some (r, r.raw.length) := by
  have hk : leNat (leBytes 2 r.key.bytes.length) = r.key.bytes.length :=
    leNat_leBytes_of_lt (k := 2) (by omega)
  have hv : leNat (leBytes 4 r.value.length) = r.value.length :=
    leNat_leBytes_of_lt (k := 4) (by omega)
  have hf : UInt16.ofNat (leNat (leBytes 2 r.flags.toNat)) = r.flags := by
    rw [leNat_leBytes_of_lt (k := 2) r.flags.toNat_lt, UInt16.ofNat_toNat]
  have htake : (r.raw ++ rest).take 8 = r.lengths := by
    rw [raw, append_assoc, take_append_of_le_length (by simp), take_of_length_le (by simp)]
  have hbody : (r.key.bytes ++ (r.value ++ rest)).take (r.key.bytes.length + r.value.length)
      = r.key.bytes ++ r.value := by
    rw [← append_assoc, take_append_of_le_length (by simp), take_of_length_le (by simp)]
  have hvalueTake : (r.value ++ rest).take r.value.length = r.value := by
    rw [take_append_of_le_length (Nat.le_refl _), take_of_length_le (Nat.le_refl _)]
  unfold deserialize
  rw [if_neg (by rw [length_append, length_raw]; omega), htake]
  simp only [raw, lengths, append_assoc, take_leBytes_append, drop_leBytes_append, hk, hv, hf,
    hbody, take_left, drop_left, hvalueTake]
  rw [if_neg (by simp [headerSize]; omega), leNat_leBytes_of_lt (k := 4) (UInt32.toNat_lt (crc32 _)),
    if_neg (by simp), dif_pos r.key.valid]
  simp [headerSize]
  omega

end EntryRecord

/-! ## Regions -/

section

variable (entries : List KvEntry)

/-- The entries of a region, one after the other. -/
def serializeEntries (sectorSize : ℕ) : List UInt8 :=
  entries.flatMap fun e => serialize ⟨e.1, e.2, 0⟩ sectorSize

/-- The header of a region. -/
def regionHeader (flushSeq : UInt64) (sectorSize : ℕ) : RegionHeader where
  flushSeq := flushSeq
  entryCount := .ofNat entries.length
  totalDataBytes := .ofNat (serializeEntries entries sectorSize).length

/-- A region. -/
def serializeRegion (flushSeq : UInt64) (sectorSize : ℕ) : List UInt8 :=
  (regionHeader entries flushSeq sectorSize).serialize sectorSize ++
    serializeEntries entries sectorSize

/-- The loop of `deserialize_region`; what is no entry is skipped up to the next sector. -/
def deserializeEntries (sectorSize : ℕ) : ℕ → List UInt8 → List KvEntry
  | 0, _ => []
  | count + 1, data =>
    if data = [] then []
    else
      match deserialize data with
      | some (record, rawSize) =>
        (record.key, record.value) ::
          deserializeEntries sectorSize count (data.drop (padToSector rawSize sectorSize))
      | none => deserializeEntries sectorSize count (data.drop sectorSize)

/-- A region read back. -/
def deserializeRegion (data : List UInt8) (sectorSize : ℕ) : Option (RegionHeader × List KvEntry) :=
  if data.length < sectorSize then none
  else
    match RegionHeader.deserialize (data.take sectorSize) with
    | none => none
    | some header =>
      some (header, deserializeEntries sectorSize header.entryCount.toNat (data.drop sectorSize))

/-- Entries whose sizes fit the fields of the format. -/
def Storable : Prop :=
  entries.length < 2 ^ 32 ∧ ∀ e ∈ entries, e.1.bytes.length < 2 ^ 16 ∧ e.2.length < 2 ^ 32

end

instance (entries : List KvEntry) : Decidable (Storable entries) := by
  unfold Storable
  infer_instance

variable {entries : List KvEntry} {sectorSize : ℕ}

section

variable (hsize : 0 < sectorSize)
include hsize

theorem padToSector_mul (n : ℕ) :
    ∃ k, padToSector n sectorSize = k * sectorSize ∧ n ≤ k * sectorSize := by
  unfold padToSector
  split_ifs with h
  · exact ⟨0, by simp, by omega⟩
  · refine ⟨_, rfl, ?_⟩
    have hdiv := Nat.div_add_mod (n + sectorSize - 1) sectorSize
    have hmod := Nat.mod_lt (n + sectorSize - 1) hsize
    rw [Nat.mul_comm] at hdiv
    omega

theorem bytesToSectors_mul (n : ℕ) : bytesToSectors (n * sectorSize) sectorSize = n := by
  unfold bytesToSectors padToSector
  split_ifs with h
  · rcases Nat.mul_eq_zero.mp h with rfl | h
    · rw [Nat.zero_div]
    · omega
  · rw [Nat.mul_div_cancel _ hsize]
    exact count_mul hsize n

/-- An entry takes whole sectors. -/
theorem serialize_eq (r : EntryRecord) : r.serialize sectorSize
      = r.raw ++ List.replicate (padToSector r.raw.length sectorSize - r.raw.length) 0 := by
  obtain ⟨k, hk, hle⟩ := padToSector_mul hsize r.raw.length
  rw [serialize, fit, hk, take_append, take_of_length_le hle,
    take_replicate, Nat.min_eq_left (Nat.sub_le _ _)]

theorem length_serializeEntries (entries : List KvEntry) :
    ∃ k, (serializeEntries entries sectorSize).length = k * sectorSize := by
  induction entries with
  | nil => exact ⟨0, by simp [serializeEntries]⟩
  | cons e es ih =>
    obtain ⟨k, hk⟩ := ih
    obtain ⟨m, hm, -⟩ := padToSector_mul hsize (raw ⟨e.1, e.2, 0⟩).length
    refine ⟨m + k, ?_⟩
    rw [serializeEntries, flatMap_cons, length_append, serialize,
      length_fit, hm, Nat.add_mul]
    exact congrArg _ hk

/-- A region takes whole sectors, at least one. -/
theorem length_serializeRegion (entries : List KvEntry) (flushSeq : UInt64) :
    ∃ n, (serializeRegion entries flushSeq sectorSize).length = (n + 1) * sectorSize := by
  obtain ⟨k, hk⟩ := length_serializeEntries hsize entries
  exact ⟨k, by rw [serializeRegion, length_append, RegionHeader.length_serialize, hk,
    Nat.succ_mul, Nat.add_comm]⟩

/-- A record in front of a buffer is read back, and the rest of the buffer is behind its sectors. -/
theorem deserialize_front {r : EntryRecord} (hkey : r.key.bytes.length < 2 ^ 16)
    (hvalue : r.value.length < 2 ^ 32) (tail : List UInt8) :
    deserialize (r.serialize sectorSize ++ tail) = some (r, r.raw.length) ∧
      (r.serialize sectorSize ++ tail).drop (padToSector r.raw.length sectorSize) = tail := by
  constructor
  · rw [serialize_eq hsize, append_assoc]
    exact deserialize_raw hkey hvalue _
  · rw [drop_append_of_le_length (by simp [serialize]), drop_of_length_le (by simp [serialize]),
      nil_append]

/-- Entries in front of a buffer are read back, one for each attempt. -/
theorem deserializeEntries_serializeEntries
    (hfit : ∀ e ∈ entries, e.1.bytes.length < 2 ^ 16 ∧ e.2.length < 2 ^ 32) (count : ℕ)
    (rest : List UInt8) :
    deserializeEntries sectorSize count (serializeEntries entries sectorSize ++ rest)
      = entries.take count ++ deserializeEntries sectorSize (count - entries.length) rest := by
  induction entries generalizing count with
  | nil => simp [serializeEntries]
  | cons e es ih =>
    obtain ⟨⟨hkey, hvalue⟩, hes⟩ := forall_mem_cons.mp hfit
    cases count with
    | zero => simp [deserializeEntries]
    | succ count =>
      obtain ⟨hread, hdrop⟩ := deserialize_front (r := ⟨e.1, e.2, 0⟩) hsize hkey hvalue
        (serializeEntries es sectorSize ++ rest)
      rw [← append_assoc, show serialize _ _ ++ serializeEntries es sectorSize
        = serializeEntries (e :: es) sectorSize from rfl] at hread hdrop
      have hne : serializeEntries (e :: es) sectorSize ++ rest ≠ [] := by
        rintro hnil
        rw [hnil] at hread
        cases hread
      rw [deserializeEntries, if_neg hne, hread]
      dsimp only
      rw [hdrop, ih hes count, take_succ_cons, length_cons, Nat.add_sub_add_right]
      rfl

end

theorem deserializeRegion_append (hsize : 20 ≤ sectorSize) (header : RegionHeader)
    (data : List UInt8) : deserializeRegion (header.serialize sectorSize ++ data) sectorSize
      = some (header, deserializeEntries sectorSize header.entryCount.toNat data) := by
  have hlen : (header.serialize sectorSize).length = sectorSize := RegionHeader.length_serialize ..
  unfold deserializeRegion
  rw [if_neg (by simp), take_append_of_le_length hlen.ge, take_of_length_le hlen.le,
    RegionHeader.deserialize_serialize _ hsize]
  dsimp only
  rw [drop_append_of_le_length hlen.ge, drop_of_length_le hlen.le, nil_append]

theorem entryCount_toNat (hfit : Storable entries) (flushSeq : UInt64) :
    (regionHeader entries flushSeq sectorSize).entryCount.toNat = entries.length := by
  rw [regionHeader, UInt32.toNat_ofNat', Nat.mod_eq_of_lt hfit.1]

/-- **A region is read back**, whatever follows it. -/
theorem deserializeRegion_serializeRegion (hsize : 20 ≤ sectorSize) (hfit : Storable entries)
    (flushSeq : UInt64) (rest : List UInt8) :
    deserializeRegion (serializeRegion entries flushSeq sectorSize ++ rest) sectorSize
      = some (regionHeader entries flushSeq sectorSize, entries) := by
  rw [serializeRegion, append_assoc, deserializeRegion_append hsize, entryCount_toNat hfit,
    deserializeEntries_serializeEntries (by omega) hfit.2, take_length, Nat.sub_self,
    deserializeEntries, append_nil]

/-- An entry that is read has lengths that fit their fields. -/
theorem deserialize_fits {data : List UInt8} {r : EntryRecord} {n : ℕ}
    (h : deserialize data = some (r, n)) :
    r.key.bytes.length < 2 ^ 16 ∧ r.value.length < 2 ^ 32 := by
  have hfield : ∀ k bs, leNat (take k bs) < 256 ^ k := fun k bs =>
    (leNat_lt _).trans_le (Nat.pow_le_pow_right (by decide) (length_take_le ..))
  unfold deserialize at h
  dsimp only at h
  split_ifs at h
  cases h
  exact ⟨(length_take_le ..).trans_lt (hfield 2 _), (length_take_le ..).trans_lt (hfield 4 _)⟩

/-- Each attempt reads at most one entry, and what is read fits the fields of the format. -/
theorem deserializeEntries_fits (count : ℕ) (data : List UInt8) :
    (deserializeEntries sectorSize count data).length ≤ count ∧
      ∀ e ∈ deserializeEntries sectorSize count data,
        e.1.bytes.length < 2 ^ 16 ∧ e.2.length < 2 ^ 32 := by
  induction count generalizing data with
  | zero => simp [deserializeEntries]
  | succ count ih =>
    rw [deserializeEntries]
    split_ifs
    · simp
    · split
      · rename_i record rawSize hread
        obtain ⟨hlen, hfits⟩ := ih (data.drop (padToSector rawSize sectorSize))
        exact ⟨Nat.succ_le_succ hlen, forall_mem_cons.mpr ⟨deserialize_fits hread, hfits⟩⟩
      · obtain ⟨hlen, hfits⟩ := ih (data.drop sectorSize)
        exact ⟨Nat.le_succ_of_le hlen, hfits⟩

/-- Sectors at which no entry begins cost an attempt each. -/
theorem deserializeEntries_skip {k : ℕ} {bad tail : List UInt8} (hsize : 0 < sectorSize)
    (hlen : bad.length = k * sectorSize)
    (hbad : ∀ j < k, deserialize (bad.drop (j * sectorSize) ++ tail) = none) (count : ℕ) :
    deserializeEntries sectorSize count (bad ++ tail)
      = deserializeEntries sectorSize (count - k) tail := by
  induction k generalizing bad count with
  | zero => rw [length_eq_zero_iff.mp (hlen.trans (Nat.zero_mul _)), nil_append, Nat.sub_zero]
  | succ k ih =>
    rw [Nat.succ_mul] at hlen
    cases count with
    | zero => simp [deserializeEntries]
    | succ count =>
      have hne : bad ++ tail ≠ [] := by
        rintro hnil
        rw [(append_eq_nil_iff.mp hnil).1, length_nil] at hlen
        omega
      have hfirst := hbad 0 (Nat.succ_pos k)
      rw [Nat.zero_mul, drop_zero] at hfirst
      rw [deserializeEntries, if_neg hne, hfirst]
      dsimp only
      rw [drop_append_of_le_length (by omega), Nat.add_sub_add_right]
      refine ih (by rw [length_drop]; omega) (fun j hj => ?_) count
      rw [drop_drop, Nat.add_comm, ← Nat.succ_mul]
      exact hbad (j + 1) (Nat.succ_lt_succ hj)

/-- A region with other bytes in the place of one record. -/
def damagedRegion (before : List KvEntry) (e : KvEntry) (after : List KvEntry) (flushSeq : UInt64)
    (sectorSize : ℕ) (bad rest : List UInt8) : List UInt8 :=
  (regionHeader (before ++ e :: after) flushSeq sectorSize).serialize sectorSize ++
    (serializeEntries before sectorSize ++ (bad ++ (serializeEntries after sectorSize ++ rest)))

section

variable {before after : List KvEntry} {e : KvEntry} {rest bad : List UInt8} {flushSeq : UInt64}

/-- A region whose record of `k` sectors was replaced by ones at which no entry begins: the last
`k - 1` entries are not read. -/
theorem deserializeRegion_damaged {k : ℕ} (hsize : 20 ≤ sectorSize)
    (hfit : Storable (before ++ e :: after)) (hlen : bad.length = k * sectorSize) (hpos : 0 < k)
    (hbad : ∀ j < k, deserialize
      (bad.drop (j * sectorSize) ++ (serializeEntries after sectorSize ++ rest)) = none) :
    deserializeRegion (damagedRegion before e after flushSeq sectorSize bad rest) sectorSize
      = some (regionHeader (before ++ e :: after) flushSeq sectorSize,
          before ++ after.take (after.length + 1 - k)) := by
  have hentries := forall_mem_append.mp hfit.2
  rw [damagedRegion, deserializeRegion_append hsize, entryCount_toNat hfit, length_append, length_cons,
    deserializeEntries_serializeEntries (by omega) hentries.1, take_of_length_le (by omega),
    Nat.add_sub_cancel_left, deserializeEntries_skip (by omega) hlen hbad,
    deserializeEntries_serializeEntries (by omega)
      fun e' he' => hentries.2 e' (mem_cons_of_mem _ he'),
    show after.length + 1 - k - after.length = 0 by omega, deserializeEntries, append_nil]

/-- **Which damage a region survives.** Let the bytes of a record be replaced by as many bytes, with
no entry at any of their sectors. The region was read back, whatever follows it, and every other
entry is still read and nothing else, exactly if the header fits in a sector, the lengths fit their
fields, and the record takes one sector or is the last one. -/
theorem damaged_region_read_iff (hkeys : ((before ++ e :: after).map Prod.fst).Nodup)
    (hlen : bad.length = (serialize ⟨e.1, e.2, 0⟩ sectorSize).length)
    (hbad : ∀ j, j * sectorSize < bad.length → deserialize
      (bad.drop (j * sectorSize) ++ (serializeEntries after sectorSize ++ rest)) = none) :
    (deserializeRegion (serializeRegion (before ++ e :: after) flushSeq sectorSize ++ rest) sectorSize
        = some (regionHeader (before ++ e :: after) flushSeq sectorSize, before ++ e :: after) ∧
      ∃ read, deserializeRegion (damagedRegion before e after flushSeq sectorSize bad rest) sectorSize
          = some (regionHeader (before ++ e :: after) flushSeq sectorSize, read) ∧
        ∀ x, x ∈ read ↔ x ∈ before ++ after) ↔
      20 ≤ sectorSize ∧ Storable (before ++ e :: after) ∧
        (bad.length = sectorSize ∨ after = []) := by
  -- the record takes `k` sectors
  have hdamaged : 20 ≤ sectorSize → Storable (before ++ e :: after) → ∃ k, 0 < k ∧
      bad.length = k * sectorSize ∧
      deserializeRegion (damagedRegion before e after flushSeq sectorSize bad rest) sectorSize
        = some (regionHeader (before ++ e :: after) flushSeq sectorSize,
            before ++ after.take (after.length + 1 - k)) := by
    intro hsize hfit
    obtain ⟨k, hk, hle⟩ := padToSector_mul (show 0 < sectorSize by omega)
      (raw ⟨e.1, e.2, 0⟩).length
    rw [serialize, length_fit, hk] at hlen
    have hpos : 0 < k := by
      rw [length_raw, headerSize] at hle
      exact Nat.pos_of_ne_zero fun hzero => by rw [hzero, Nat.zero_mul] at hle; omega
    refine ⟨k, hpos, hlen, deserializeRegion_damaged hsize hfit hlen hpos fun j hj => hbad j ?_⟩
    rw [hlen]
    exact Nat.mul_lt_mul_of_pos_right hj (by omega)
  constructor
  · rintro ⟨hwhole, read, hread, hmem⟩
    have hsize : 20 ≤ sectorSize := by
      by_contra hsmall
      have hnone : ∀ data, deserializeRegion data sectorSize = none := fun data => by
        unfold deserializeRegion RegionHeader.deserialize
        rw [if_pos (show (data.take sectorSize).length < 20 from
          (length_take_le ..).trans_lt (Nat.lt_of_not_le hsmall)), ite_self]
      cases (hnone _).symm.trans hwhole
    have hfit : Storable (before ++ e :: after) := by
      rw [serializeRegion, append_assoc, deserializeRegion_append hsize] at hwhole
      have hfits := @deserializeEntries_fits sectorSize
        (regionHeader (before ++ e :: after) flushSeq sectorSize).entryCount.toNat
        (serializeEntries (before ++ e :: after) sectorSize ++ rest)
      rw [(Prod.mk.inj (Option.some.inj hwhole)).2] at hfits
      exact ⟨hfits.1.trans_lt (UInt32.toNat_lt _), hfits.2⟩
    obtain ⟨k, hpos, hk, hshort⟩ := hdamaged hsize hfit
    obtain rfl := (Prod.mk.inj (Option.some.inj (hread.symm.trans hshort))).2
    -- distinct entries that are all read are at most as many as were read
    have hnodup : (before ++ after).Nodup :=
      (hkeys.of_map _).sublist ((sublist_cons_self e after).append_left before)
    have hcount := (hnodup.subperm fun x hx => (hmem x).mpr hx).length_le
    rw [length_append, length_append, length_take] at hcount
    refine ⟨hsize, hfit, ?_⟩
    rcases Nat.lt_or_ge 1 k with hmany | hone
    · exact .inr (length_eq_zero_iff.mp (by omega))
    · exact .inl (by rw [hk, show k = 1 by omega, Nat.one_mul])
  · rintro ⟨hsize, hfit, hone⟩
    obtain ⟨k, hpos, hk, hshort⟩ := hdamaged hsize hfit
    refine ⟨deserializeRegion_serializeRegion hsize hfit flushSeq rest, _, hshort, fun x => ?_⟩
    rcases hone with hone | rfl
    · have hk' : k = 1 := Nat.eq_of_mul_eq_mul_right (by omega : 0 < sectorSize)
        (by rw [← hk, hone, Nat.one_mul])
      rw [hk', Nat.add_sub_cancel, take_length]
    · rw [take_nil]

end

def sampleEntry (value : List UInt8) : KvEntry := (⟨[97], by decide⟩, value)

def otherEntry : KvEntry := (⟨[98], by decide⟩, [])

/-- The record of the first entry, of one sector, is zeroed: the second is still read. -/
theorem damaged_region_read_short : ∃ read,
    deserializeRegion (damagedRegion [] (sampleEntry []) [otherEntry] 1 20 (replicate 20 0) []) 20
      = some (regionHeader [sampleEntry [], otherEntry] 1 20, read) ∧
    ∀ x, x ∈ read ↔ x ∈ [otherEntry] :=
  ((@damaged_region_read_iff 20 [] [otherEntry] (sampleEntry []) [] (replicate 20 0) 1
    (by decide) (by decide) fun j hj => by
      obtain rfl : j = 0 := by rw [length_replicate] at hj; omega
      decide +kernel).mpr ⟨le_refl 20, by decide, .inl rfl⟩).2

/-- **An intact entry is lost** behind a damaged one of two sectors. -/
theorem intact_entry_lost :
    (serialize ⟨(sampleEntry []).1, replicate 20 0, 0⟩ 20).length = 40 ∧
      (∀ j, j * 20 < 40 → deserialize ((replicate 40 0).drop (j * 20) ++
        serializeEntries [otherEntry] 20) = none) ∧
      deserializeRegion (damagedRegion [] (sampleEntry (replicate 20 0)) [otherEntry] 1 20
          (replicate 40 0) []) 20
        = some (regionHeader [sampleEntry (replicate 20 0), otherEntry] 1 20, []) := by
  refine ⟨by decide, fun j hj => ?_, by decide +kernel⟩
  obtain rfl | rfl : j = 0 ∨ j = 1 := by omega
  · decide +kernel
  · decide +kernel

end Certus.MetadataStore
