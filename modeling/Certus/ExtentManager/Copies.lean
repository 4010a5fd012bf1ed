import Certus.ExtentManager.ManagerRefinement

/-! # The two checkpoint copies on the device

The superblock says which of two copies is the active one and which sequence number it carries. A
checkpoint is written to the other copy, sector by sector, and then the superblock.

* **`recover_of_isCopy`, `recover_of_newer`** — what `recover` returns: the checkpoint in the active
  copy, and an error if both copies are newer than the superblock. -/

namespace Certus.ExtentManager

open List BlockDeviceClient

/-! ## Sector writes -/

/-- The bytes of `k` sectors. -/
theorem Disk.length_flatMap_sector {size : ℕ} (d : Disk size) (f : ℕ → ℕ) (k : ℕ) :
    ((List.range k).flatMap fun i => d.sector (f i)).length = k * size := by
  simp [length_flatMap, d.length_sector]

namespace BlockDeviceClient

variable {c : BlockDeviceClient} {d : Disk c.sectorSize} {lba m n : ℕ} {data : List UInt8}

/-- The first `m` sectors of a buffer are on the device. -/
def Wrote (c : BlockDeviceClient) (d : Disk c.sectorSize) (lba : ℕ) (data : List UInt8) (m : ℕ) :
    Prop :=
  ∀ i < m, d.sector (c.baseLba + lba + i) = c.chunk data i

theorem Wrote.next (hlen : data.length = n * c.sectorSize) (hm : m < n) (h : c.Wrote d lba data m) :
    c.Wrote (d.write (c.baseLba + lba + m) (c.chunk data m)) lba data (m + 1) := by
  intro i hi
  rcases Nat.lt_succ_iff_lt_or_eq.mp hi with hi | rfl
  · rw [Disk.sector_write_of_ne _ _ (by omega)]
    exact h i hi
  · exact Disk.sector_write_self _ _ (length_chunk hlen hm)

theorem Wrote.write_of_ne (h : c.Wrote d lba data m) {l : ℕ} (x : List UInt8)
    (hne : ∀ i < m, c.baseLba + lba + i ≠ l) : c.Wrote (d.write l x) lba data m := by
  intro i hi
  rw [Disk.sector_write_of_ne _ _ (hne i hi)]
  exact h i hi

/-- The writes of `write_blocks`, all done. -/
theorem wrote_foldl (hlen : data.length = n * c.sectorSize)
    (hn : c.numBlocks data.length = n) :
    c.Wrote ((c.sectorWrites lba data).foldl (fun d w => d.write w.1 w.2) d) lba data n := by
  have hpre : ∀ m ≤ n, c.Wrote
      (((c.sectorWrites lba data).take m).foldl (fun d w => d.write w.1 w.2) d) lba data m := by
    intro m
    induction m with
    | zero => exact fun _ i hi => absurd hi (Nat.not_lt_zero i)
    | succ m ih =>
      intro hm
      have hget : (c.sectorWrites lba data)[m]? = some (c.baseLba + lba + m, c.chunk data m) := by
        simp [sectorWrites, hn, getElem?_range hm]
      rw [take_add_one, hget, Option.toList_some, foldl_append]
      exact (ih (Nat.le_of_succ_le hm)).next hlen hm
  have hall := hpre n (le_refl n)
  rwa [take_of_length_le (by simp [sectorWrites, hn])] at hall

end BlockDeviceClient

namespace System

variable {c : BlockDeviceClient} {sb : Superblock}

/-! ## Where the copies are -/

/-- The first sector of a copy. -/
def copyLba (c : BlockDeviceClient) (sb : Superblock) (copy : UInt8) : ℕ :=
  copyOffset sb copy / c.sectorSize

/-- The number of sectors of a copy. -/
def copyBlocks (c : BlockDeviceClient) (sb : Superblock) : ℕ :=
  sb.checkpointRegionSize.toNat / c.sectorSize

/-- The superblock is written in whole sectors, the first of which holds all its fields, and the two
copies follow it in sectors of their own. -/
structure Layout (c : BlockDeviceClient) (sb : Superblock) : Prop where
  sector_ge : 512 ≤ c.sectorSize
  sector_dvd : c.sectorSize ∣ superblockSize
  offset_ge : superblockSize ≤ sb.checkpointRegionOffset.toNat
  size_dvd : c.sectorSize ∣ sb.checkpointRegionSize.toNat
  end_lt : sb.checkpointRegionOffset.toNat + 2 * sb.checkpointRegionSize.toNat < 2 ^ 64
  magic : sb.magic = superblockMagic

/-- One of the two copies. -/
def IsIndex (copy : UInt8) : Prop := copy = 0 ∨ copy = 1

theorem IsIndex.other {copy : UInt8} (h : IsIndex copy) : IsIndex (1 - copy) := by
  rcases h with rfl | rfl
  · exact .inr rfl
  · exact .inl rfl

theorem IsIndex.other_other {copy : UInt8} (h : IsIndex copy) : 1 - (1 - copy) = copy := by
  rcases h with rfl | rfl <;> rfl

theorem IsIndex.cases {copy copy' : UInt8} (h : IsIndex copy) (h' : IsIndex copy') :
    copy' = copy ∨ copy' = 1 - copy := by
  rcases h with rfl | rfl <;> rcases h' with rfl | rfl <;> decide

namespace Layout

variable (h : Layout c sb)
include h

theorem sector_pos : 0 < c.sectorSize := lt_of_lt_of_le (by decide) h.sector_ge

theorem header_le : checkpointHeaderSize ≤ c.sectorSize :=
  le_trans (by decide) h.sector_ge

theorem volume {sb' : Superblock} (hv : SameVolume sb sb') : Layout c sb' := by
  obtain ⟨copy, seq, rfl⟩ := hv
  exact ⟨h.sector_ge, h.sector_dvd, h.offset_ge, h.size_dvd, h.end_lt, h.magic⟩

section

variable {copy : UInt8} (hcopy : IsIndex copy)
include hcopy

theorem copyLba_eq : copyLba c sb copy
      = sb.checkpointRegionOffset.toNat / c.sectorSize + copy.toNat * copyBlocks c sb := by
  have hend := h.end_lt
  have hoff : copyOffset sb copy
      = sb.checkpointRegionOffset.toNat + copy.toNat * sb.checkpointRegionSize.toNat := by
    rcases hcopy with rfl | rfl
    · simp [copyOffset]
    · simp only [copyOffset, UInt64.toNat_add, UInt64.toNat_mul]
      have hone : (1 : UInt8).toUInt64.toNat = 1 := rfl
      have hone' : (1 : UInt8).toNat = 1 := rfl
      rw [hone, hone', one_mul, Nat.mod_eq_of_lt (a := sb.checkpointRegionSize.toNat) (by omega),
        Nat.mod_eq_of_lt (by omega)]
  obtain ⟨q, hq⟩ := h.size_dvd
  have hblocks : copyBlocks c sb = q := by
    rw [copyBlocks, hq, Nat.mul_div_cancel_left _ h.sector_pos]
  rw [copyLba, hoff, hblocks, hq, Nat.mul_left_comm, Nat.add_mul_div_left _ _ h.sector_pos]

/-- The copies do not touch the superblock. -/
theorem copy_above {m : ℕ} (hm : m < superblockSize / c.sectorSize) (i : ℕ) :
    c.baseLba + copyLba c sb copy + i ≠ c.baseLba + 0 + m := by
  have := Nat.div_le_div_right (c := c.sectorSize) h.offset_ge
  rw [h.copyLba_eq hcopy]
  omega

/-- The copies do not touch each other. -/
theorem copies_apart {i j : ℕ} (hi : i < copyBlocks c sb) (hj : j < copyBlocks c sb) :
    c.baseLba + copyLba c sb copy + i ≠ c.baseLba + copyLba c sb (1 - copy) + j := by
  rw [h.copyLba_eq hcopy, h.copyLba_eq hcopy.other]
  rcases hcopy with rfl | rfl
  · have h₀ : (0 : UInt8).toNat = 0 := rfl
    have h₁ : (1 - 0 : UInt8).toNat = 1 := rfl
    rw [h₀, h₁]
    omega
  · have h₀ : (1 : UInt8).toNat = 1 := rfl
    have h₁ : (1 - 1 : UInt8).toNat = 0 := rfl
    rw [h₀, h₁]
    omega

end

/-- A checkpoint that fits into a copy fits into its sectors. -/
theorem numBlocks_le {n : ℕ} (hn : n ≤ sb.checkpointRegionSize.toNat) :
    c.numBlocks n ≤ copyBlocks c sb := by
  obtain ⟨q, hq⟩ := h.size_dvd
  have hpos := h.sector_pos
  rw [copyBlocks, numBlocks, hq, Nat.mul_div_cancel_left _ hpos,
    Nat.div_le_iff_le_mul_add_pred hpos]
  omega

end Layout

/-! ## A complete copy -/

/-- The payload of these regions can be written and read back. -/
structure Writable (sb : Superblock) (regions : List RegionState) : Prop where
  fits : checkpointHeaderSize + (checkpointPayload regions).length ≤ sb.checkpointRegionSize.toNat
  short : (checkpointPayload regions).length < 2 ^ 32
  count : regions.length < 2 ^ 32
  encodable : ∀ r ∈ regions, r.Encodable

/-- A copy on the device is complete and stands for the regions. -/
structure IsCopy (c : BlockDeviceClient) (d : Disk c.sectorSize) (sb : Superblock) (copy : UInt8)
    (seq : ℕ) (regions : List RegionState) : Prop extends Writable sb regions where
  holds : CopyHolds c d (copyOffset sb copy) seq (checkpointPayload regions)

/-- The bytes of the copy. -/
def copyImage (c : BlockDeviceClient) (seq : ℕ) (regions : List RegionState) : List UInt8 :=
  padToSector c.sectorSize (checkpointBlob seq (checkpointPayload regions))

section

variable (hc : 0 < c.sectorSize) (seq : ℕ) (regions : List RegionState)
include hc

theorem length_copyImage : (copyImage c seq regions).length
      = c.numBlocks (checkpointHeaderSize + (checkpointPayload regions).length) * c.sectorSize := by
  rw [copyImage, length_padToSector hc, length_checkpointBlob]

theorem numBlocks_copyImage : c.numBlocks (copyImage c seq regions).length
      = c.numBlocks (checkpointHeaderSize + (checkpointPayload regions).length) := by
  rw [length_copyImage hc, numBlocks_mul hc]

end

variable {d : Disk c.sectorSize} {copy : UInt8} {seq : ℕ} {regions : List RegionState}

theorem IsCopy.write (hl : Layout c sb) (h : IsCopy c d sb copy seq regions) {l : ℕ}
    (x : List UInt8) (hne : ∀ i < copyBlocks c sb, c.baseLba + copyLba c sb copy + i ≠ l) :
    IsCopy c (d.write l x) sb copy seq regions := by
  refine ⟨h.toWritable, ?_⟩
  have hle := hl.numBlocks_le h.fits
  rw [← numBlocks_copyImage hl.sector_pos seq] at hle
  exact BlockDeviceClient.Wrote.write_of_ne h.holds x fun i hi => hne i (lt_of_lt_of_le hi hle)

theorem IsCopy.volume {sb' : Superblock} (hv : SameVolume sb sb')
    (h : IsCopy c d sb copy seq regions) : IsCopy c d sb' copy seq regions := by
  obtain ⟨copy', seq', rfl⟩ := hv
  exact ⟨⟨h.fits, h.short, h.count, h.encodable⟩, h.holds⟩

/-- The sequence number of a copy is in its first sector. -/
theorem copySeq_write {l : ℕ} (x : List UInt8) (hne : c.baseLba + copyLba c sb copy ≠ l) :
    copySeq c (d.write l x) (copyOffset sb copy) = copySeq c d (copyOffset sb copy) :=
  congrArg (fun sector => leNat (List.take 8 sector)) (Disk.sector_write_of_ne d x hne)

theorem IsCopy.copySeq_eq (hl : Layout c sb) (h : IsCopy c d sb copy seq regions)
    (hseq : seq < 2 ^ 64) : copySeq c d (copyOffset sb copy) = seq :=
  copySeq_of_holds hl.header_le hseq h.holds

/-- The first sector of a copy carries the sequence number as soon as it is written. -/
theorem copySeq_of_wrote (hl : Layout c sb) (hseq : seq < 2 ^ 64) {m : ℕ} (hm : 0 < m)
    (h : c.Wrote d (copyLba c sb copy) (copyImage c seq regions) m) :
    copySeq c d (copyOffset sb copy) = seq := by
  have h0 := h 0 hm
  have h8 : 8 ≤ c.sectorSize := le_trans (by decide) hl.header_le
  rw [chunk, zero_mul, drop_zero, add_zero] at h0
  rw [copySeq, show c.baseLba + copyOffset sb copy / c.sectorSize = c.baseLba + copyLba c sb copy
    from rfl, h0, take_take, min_eq_left h8, copyImage, padToSector, checkpointBlob]
  simp only [append_assoc, take_leBytes_append]
  exact leNat_leBytes_of_lt hseq

/-! ## Regions in their places can be encoded -/

theorem length_le_length_flatMap {α β : Type*} {f : α → List β} {l : List α} {a : α} (ha : a ∈ l) :
    (f a).length ≤ (l.flatMap f).length := by
  obtain ⟨l₁, l₂, rfl⟩ := append_of_mem ha
  rw [flatMap_append, flatMap_cons, length_append, length_append]
  omega

theorem length_le_length_flatMap_of_pos {α β : Type*} {f : α → List β} (hf : ∀ a, 0 < (f a).length)
    (l : List α) : l.length ≤ (l.flatMap f).length := by
  induction l with
  | nil => exact Nat.zero_le _
  | cons a l ih =>
    rw [flatMap_cons, length_append, length_cons]
    have := hf a
    omega

theorem RegionOk.slab_encodable {i : ℕ} {r : RegionState} (h : RegionOk sb i r)
    (hi : i < sb.regionCount.toNat) {s : Slab} (hs : s ∈ r.slabs.values) : s.Encodable := by
  obtain ⟨hwf, hplaced⟩ := h
  obtain ⟨start, hstart⟩ := OrdMap.mem_values.mp hs
  have hok := hwf.slab start s hstart
  obtain ⟨leaked, hb⟩ := hwf.blocks
  have hend := hb.tiling.end_le hb.sector_pos
    (mem_append_right _ (mem_append_left leaked (RegionState.WellFormed.mem_slabBlocks hstart)))
  have husable := Nat.div_mul_le_self r.buddy.totalUsableSize r.buddy.sectorSize
  have hpos := span_pos (o := r.slabOrder) hb.sector_pos
  have hbase := hok.base_le
  have hin := (regionRange_le sb.dataStartOffset.toNat
    (saturatingSub sb.dataDiskSize sb.dataStartOffset).toNat sb.regionCount.toNat i
    (by omega)).2.2.1 hi
  rw [toNat_saturatingSub] at hin
  have h₁ := sb.dataStartOffset.toNat_lt
  have h₂ := sb.dataDiskSize.toNat_lt
  have hb₁ := hplaced.base
  have hb₂ := hplaced.total
  simp only [Superblock.regionRange, toNat_saturatingSub] at hb₁ hb₂
  refine ⟨?_, ?_, hok.element_lt, ?_⟩
  · rw [hok.start_eq]
    simp only at hend
    omega
  · rw [hok.size_eq]
    exact UInt64.toNat_lt _
  · rw [hok.wf.numSlots_eq]
    exact Nat.mod_lt _ (by decide)

/-- A payload of less than `2 ^ 32` bytes has counts that fit into their fields. -/
theorem encodable_of_short (hslabs : ∀ r ∈ regions, ∀ s ∈ r.slabs.values, s.Encodable)
    (hshort : (checkpointPayload regions).length < 2 ^ 32) :
    regions.length < 2 ^ 32 ∧ ∀ r ∈ regions, r.Encodable := by
  rw [checkpointPayload, length_append, length_leBytes] at hshort
  have hpos : ∀ r, 0 < (serializeRegion r).length := fun r => by
    rw [serializeRegion, length_append, length_leBytes]
    omega
  have hcount := length_le_length_flatMap_of_pos hpos regions
  refine ⟨by omega, fun r hr => ⟨?_, hslabs r hr⟩⟩
  have hregion := length_le_length_flatMap (f := serializeRegion) hr
  have hvalues := length_le_length_flatMap_of_pos (f := serializeSlab)
    (fun s => by rw [length_serializeSlab, slabHeaderSize]; omega) r.slabs.values
  rw [serializeRegion, length_append] at hregion
  omega

/-- Regions in their places whose payload fits can be written and read back. -/
theorem writable_of_ok (hok : ∀ i r, regions[i]? = some r → RegionOk sb i r)
    (hlen : regions.length = sb.regionCount.toNat)
    (hfits : checkpointHeaderSize + (checkpointPayload regions).length
      ≤ sb.checkpointRegionSize.toNat)
    (hshort : (checkpointPayload regions).length < 2 ^ 32) : Writable sb regions := by
  obtain ⟨hcount, hencodable⟩ := encodable_of_short (fun r hr s hs => by
    obtain ⟨i, hi⟩ := mem_iff_getElem?.mp hr
    exact (hok i r hi).slab_encodable (hlen ▸ (List.getElem?_eq_some_iff.mp hi).1) hs) hshort
  exact ⟨hfits, hshort, hcount, hencodable⟩

/-! ## What `recover` returns -/

/-- The superblock on the device. -/
def HasSuperblock (c : BlockDeviceClient) (d : Disk c.sectorSize) (sb : Superblock) : Prop :=
  (d.sector c.baseLba).take 96 = sb.head

variable (hl : Layout c sb)
include hl

theorem deserialize_of_hasSuperblock (h : HasSuperblock c d sb) :
    Superblock.deserialize (c.readBlocks d 0 superblockSize) = .ok sb := by
  obtain ⟨n, hn⟩ := hl.sector_dvd
  have hpos : 0 < n := pos_of_ne_zero fun h0 => by
    rw [h0, mul_zero] at hn
    exact absurd hn (by decide)
  obtain ⟨k, rfl⟩ := Nat.exists_eq_succ_of_ne_zero (ne_of_gt hpos)
  have hblocks : c.numBlocks superblockSize = k + 1 := by
    rw [hn, mul_comm, numBlocks_mul hl.sector_pos]
  -- the first sector is the head and something else
  have hsector : d.sector c.baseLba = sb.head ++ (d.sector c.baseLba).drop 96 := by
    rw [← h, take_append_drop]
  have hread : c.readBlocks d 0 superblockSize = sb.head ++ ((d.sector c.baseLba).drop 96 ++
        (List.range k).flatMap fun i => d.sector (c.baseLba + 0 + (i + 1))) := by
    rw [readBlocks, hblocks, range_succ_eq_map, flatMap_cons,
      flatMap_map, add_zero, ← append_assoc, ← hsector]
    refine take_of_length_le ?_
    rw [length_append, d.length_sector, Disk.length_flatMap_sector, hn, Nat.mul_succ, mul_comm]
    omega
  rw [hread]
  refine Superblock.deserialize_head sb hl.magic _ ?_
  have h512 := hl.sector_ge
  rw [length_append, length_drop, d.length_sector, Disk.length_flatMap_sector, hn,
    Nat.mul_succ, mul_comm]
  omega

theorem readCopy_of_isCopy (hseq : seq < 2 ^ 64) (h : IsCopy c d sb copy seq regions) :
    readCopy c d sb copy seq = .ok (checkpointPayload regions) :=
  readCheckpointRegion_of_holds hl.header_le hseq h.short h.fits h.holds

variable (hhead : HasSuperblock c d sb)
include hhead

/-- **The active copy is read back.** -/
theorem recover_of_isCopy (h0 : sb.checkpointSeq ≠ 0)
    (h : IsCopy c d sb sb.activeCopy sb.checkpointSeq.toNat regions) :
    recover c d = .ok (sb, regions.map RegionState.describe) := by
  rw [recover, deserialize_of_hasSuperblock hl hhead]
  simp only [bind, Except.bind]
  rw [if_neg h0, readCopy_of_isCopy hl sb.checkpointSeq.toNat_lt h]
  simp only [deserializeSlabs_payload h.count h.encodable]

/-- Before the first checkpoint there is nothing to read. -/
theorem recover_of_zero (h0 : sb.checkpointSeq = 0) :
    recover c d = .ok (sb, List.replicate sb.regionCount.toNat []) := by
  rw [recover, deserialize_of_hasSuperblock hl hhead]
  simp only [bind, Except.bind]
  rw [if_pos h0]

/-- **A lost checkpoint.** If both copies are newer than the superblock, `recover` fails. -/
theorem recover_of_newer (h0 : sb.checkpointSeq ≠ 0) (hactive : IsIndex sb.activeCopy)
    (h : ∀ copy, IsIndex copy → sb.checkpointSeq.toNat < copySeq c d (copyOffset sb copy)) :
    ∃ e, recover c d = .error e := by
  have hfail : ∀ copy seq, IsIndex copy → seq ≤ sb.checkpointSeq.toNat →
      ∃ e, readCopy c d sb copy seq = .error e := fun copy seq hcopy hle =>
    readCheckpointRegion_of_seq_ne hl.header_le (ne_of_gt (lt_of_le_of_lt hle (h copy hcopy)))
  obtain ⟨e, he⟩ := hfail sb.activeCopy _ hactive (le_refl _)
  obtain ⟨e', he'⟩ := hfail (1 - sb.activeCopy) (sb.checkpointSeq.toNat - 1) hactive.other
    (Nat.sub_le _ _)
  rw [recover, deserialize_of_hasSuperblock hl hhead]
  simp only [bind, Except.bind]
  rw [if_neg h0, he]
  dsimp only
  split_ifs
  · rw [he']
    exact ⟨_, rfl⟩
  · exact ⟨_, rfl⟩

end System

end Certus.ExtentManager
