import Certus.ExtentManager.Copies

/-! # Round trips of checkpoints

What `write_checkpoint` has written is what `read_checkpoint_region` and `deserialize_slabs` return,
and what `deserialize_slabs` accepts is what the encoder would have written.

* **`deserializeSlabs_encodes`** — an accepted byte string starts with the encoding of its result.
* **`checkpoint_round_trip`** — the round trip through the device. -/

namespace Certus.ExtentManager

open List

/-! ## What is accepted is well formed -/

/-- The encoding of a recorded slab. -/
def encodeSlab (s : SlabDescriptor) : List UInt8 :=
  leBytes 8 s.startOffset ++ (leBytes 8 s.slabSize ++ (leBytes 4 s.elementSize ++
  (leBytes 4 s.keys.length ++ s.keys.flatMap fun k => leBytes 8 k.toNat)))

/-- The encoding of the recorded slabs of a region. -/
def encodeRegion (slabs : List SlabDescriptor) : List UInt8 :=
  leBytes 4 slabs.length ++ slabs.flatMap encodeSlab

/-- The encoding of the recorded slabs of all regions. -/
def encodeRegions (regions : List (List SlabDescriptor)) : List UInt8 :=
  leBytes 4 regions.length ++ regions.flatMap encodeRegion

variable {data rest : List UInt8} {n : ℕ}

theorem readKeys_encodes (h : n * 8 ≤ data.length) : (readKeys n data).1.length = n ∧
      ((readKeys n data).1.flatMap fun k => leBytes 8 k.toNat) ++ (readKeys n data).2 = data := by
  induction n generalizing data with
  | zero => exact ⟨rfl, rfl⟩
  | succ n ih =>
    obtain ⟨hlen, hdata⟩ := @ih (data.drop 8) (by rw [length_drop]; omega)
    have hlt : leNat (data.take 8) < 2 ^ 64 := by
      have := leNat_lt (data.take 8)
      rwa [length_take_of_le (by omega)] at this
    simp only [readKeys, length_cons, flatMap_cons, append_assoc, hlen, hdata,
      UInt64.toNat_ofNat_of_lt' hlt, leBytes_take_append_drop (show 8 ≤ data.length by omega),
      and_self]

/-- A slab that is accepted is encoded at the front of the data. -/
theorem readSlab_encodes {s : SlabDescriptor} (h : readSlab data = .ok (s, rest)) :
    encodeSlab s ++ rest = data := by
  unfold readSlab at h
  split_ifs at h with hlen
  simp only at h
  split_ifs at h with hkeys
  simp only [slabHeaderSize, Nat.not_lt, length_drop] at hlen hkeys
  obtain ⟨hn, hdata⟩ := @readKeys_encodes ((((data.drop 8).drop 8).drop 4).drop 4) _
    (by simpa only [length_drop] using hkeys)
  cases h
  -- field by field, each read at the front of what the one before it left
  simp only [encodeSlab, append_assoc, hn, hdata]
  rw [leBytes_take_append_drop (by simp only [length_drop]; omega),
    leBytes_take_append_drop (by simp only [length_drop]; omega),
    leBytes_take_append_drop (by simp only [length_drop]; omega),
    leBytes_take_append_drop (by omega)]

theorem readSlabs_encodes {slabs : List SlabDescriptor} (h : readSlabs n data = .ok (slabs, rest)) :
    slabs.length = n ∧ slabs.flatMap encodeSlab ++ rest = data := by
  induction n generalizing data slabs with
  | zero => cases h; exact ⟨rfl, rfl⟩
  | succ n ih =>
    rw [readSlabs] at h
    cases hs : readSlab data with
    | error e => rw [hs] at h; cases h
    | ok r =>
      cases hss : readSlabs n r.2 with
      | error e => simp only [hs, bind, Except.bind, hss] at h; cases h
      | ok q =>
        simp only [hs, bind, Except.bind, hss] at h
        cases h
        obtain ⟨hlen, hdata⟩ := ih hss
        rw [length_cons, hlen, flatMap_cons, append_assoc, hdata]
        exact ⟨rfl, readSlab_encodes hs⟩

variable {regions : List (List SlabDescriptor)}

theorem readRegions_encodes (h : readRegions n data = .ok regions) :
    regions.length = n ∧ regions.flatMap encodeRegion <+: data := by
  induction n generalizing data regions with
  | zero => cases h; exact ⟨rfl, nil_prefix⟩
  | succ n ih =>
    rw [readRegions] at h
    split_ifs at h with hlen
    cases hs : readSlabs (leNat (data.take 4)) (data.drop 4) with
    | error e => rw [hs] at h; cases h
    | ok r =>
      cases hr : readRegions n r.2 with
      | error e => simp only [hs, bind, Except.bind, hr] at h; cases h
      | ok rs =>
        simp only [hs, bind, Except.bind, hr] at h
        cases h
        obtain ⟨hcount, hslabs⟩ := readSlabs_encodes hs
        obtain ⟨hn, tail, htail⟩ := ih hr
        refine ⟨by rw [length_cons, hn], tail, ?_⟩
        rw [flatMap_cons, encodeRegion, hcount, append_assoc, append_assoc, htail,
          hslabs, leBytes_take_append_drop (by omega)]

/-- A payload that is accepted starts with the encoding of what was read from it. -/
theorem deserializeSlabs_encodes (h : deserializeSlabs data = .ok regions) :
    encodeRegions regions <+: data := by
  unfold deserializeSlabs at h
  split_ifs at h with hlen
  obtain ⟨hn, tail, htail⟩ := readRegions_encodes h
  refine ⟨tail, ?_⟩
  rw [encodeRegions, hn, append_assoc, htail, leBytes_take_append_drop (by omega)]

/-! ## Writing a copy and reading it -/

section Copy

variable {c : BlockDeviceClient} {off size seq : ℕ} {payload : List UInt8}
  {regions : List RegionState}

/-- The device after `write_checkpoint` has written a copy. -/
def writeCopy (c : BlockDeviceClient) (d : Disk c.sectorSize) (off seq : ℕ)
    (payload : List UInt8) : Disk c.sectorSize :=
  (c.sectorWrites (off / c.sectorSize)
    (padToSector c.sectorSize (checkpointBlob seq payload))).foldl (fun d w => d.write w.1 w.2) d

/-- The copy that was written is on the device. -/
theorem copyHolds_writeCopy (hc : 0 < c.sectorSize) (d : Disk c.sectorSize) :
    CopyHolds c (writeCopy c d off seq payload) off seq payload := by
  have hlen := length_padToSector hc (checkpointBlob seq payload)
  have hblocks : c.numBlocks (padToSector c.sectorSize (checkpointBlob seq payload)).length
      = c.numBlocks (checkpointBlob seq payload).length := by
    rw [hlen, BlockDeviceClient.numBlocks_mul hc]
  rw [CopyHolds, BlockDeviceClient.Holds, hblocks]
  exact BlockDeviceClient.wrote_foldl hlen hblocks

/-- What is read has less than `2 ^ 32` bytes. -/
theorem length_of_readCheckpointRegion {d : Disk c.sectorSize}
    (h : readCheckpointRegion c d off size seq = .ok payload) : payload.length < 2 ^ 32 := by
  unfold readCheckpointRegion at h
  simp only at h
  split_ifs at h <;> cases h
  all_goals
    set field := ((c.readBlocks d (off / c.sectorSize) c.sectorSize).drop 8).take 4 with hfield
    have hlen : field.length ≤ 4 := by rw [hfield]; exact length_take_le _ _
    have hlt := lt_of_lt_of_le (leNat_lt field) (Nat.pow_le_pow_right (by decide) hlen)
    rw [length_drop, length_take]
    omega

/-- **Round trip of checkpoints.** A checkpoint that fits into its region is read back from the copy
just written, slab by slab, exactly if its payload has less than `2 ^ 32` bytes; and any byte string
is refused or starts with the encoding of what was read from it. -/
theorem checkpoint_round_trip (hc : checkpointHeaderSize ≤ c.sectorSize) (d : Disk c.sectorSize)
    (hseq : seq < 2 ^ 64) (hslabs : ∀ r ∈ regions, ∀ s ∈ r.slabs.values, s.Encodable)
    (hsize : checkpointHeaderSize + (checkpointPayload regions).length ≤ size) :
    ((readCheckpointRegion c (writeCopy c d off seq (checkpointPayload regions)) off size seq
          = .ok (checkpointPayload regions) ∧
        deserializeSlabs (checkpointPayload regions) = .ok (regions.map RegionState.describe)) ↔
      (checkpointPayload regions).length < 2 ^ 32) ∧
    ∀ data, (∃ e, deserializeSlabs data = .error e) ∨
      ∃ rs, deserializeSlabs data = .ok rs ∧ encodeRegions rs <+: data := by
  refine ⟨⟨fun h => length_of_readCheckpointRegion h.1, fun hshort => ?_⟩, fun data => ?_⟩
  · obtain ⟨hcount, hregions⟩ := System.encodable_of_short hslabs hshort
    have hpos : 0 < c.sectorSize := lt_of_lt_of_le (by decide) hc
    exact ⟨readCheckpointRegion_of_holds hc hseq hshort hsize (copyHolds_writeCopy hpos d),
      deserializeSlabs_payload hcount hregions⟩
  · cases h : deserializeSlabs data with
    | error e => exact .inl ⟨e, rfl⟩
    | ok rs => exact .inr ⟨rs, rfl, deserializeSlabs_encodes h⟩

/-- A region with one slab. -/
def oneSlab (s : Slab) : RegionState :=
  { RegionState.new (BuddyAllocator.new 0 s.slabSize s.elementSize) smallParams with
    slabs := OrdMap.empty.insert s.startOffset s }

theorem length_oneSlab (s : Slab) :
    (checkpointPayload [oneSlab s]).length = 32 + s.numSlots * 8 := by
  have hvalues : (oneSlab s).slabs.values = [s] := rfl
  simp only [checkpointPayload, serializeRegion, flatMap_singleton, hvalues,
    length_append, length_leBytes, length_serializeSlab, slabHeaderSize]
  omega

theorem oneSlab_encodable {s : Slab} (h : s.Encodable) :
    ∀ r ∈ [oneSlab s], ∀ s' ∈ r.slabs.values, s'.Encodable := by
  intro r hr s' hs
  cases mem_singleton.mp hr
  cases mem_singleton.mp (show s' ∈ [s] from hs)
  exact h

/-- One region with one slab of eight slots. -/
theorem checkpoint_round_trip_one_slab : ∃ d : Disk 512, readCheckpointRegion ⟨512, 0⟩ d 4096 4096 1
      = .ok (checkpointPayload [oneSlab (Slab.new 0 4096 512)]) := by
  have hlen : (checkpointPayload [oneSlab (Slab.new 0 4096 512)]).length = 96 :=
    length_oneSlab _
  have hslabs := oneSlab_encodable (s := Slab.new 0 4096 512)
    ⟨by decide, by decide, by decide, by decide⟩
  exact ⟨_, ((checkpoint_round_trip (c := ⟨512, 0⟩) (by decide)
    ⟨fun _ => List.replicate 512 0, fun _ => length_replicate⟩ (by decide) hslabs
    (by rw [hlen]; decide)).1.mpr (by rw [hlen]; decide)).1⟩

/-- **A slab of `2 ^ 31` slots is not read back**: the field for the length of the payload keeps the
low 32 bits only. -/
theorem huge_slab_not_read : ∃ s : Slab, s.Encodable ∧ ∀ d : Disk 512, readCheckpointRegion ⟨512, 0⟩
        (writeCopy ⟨512, 0⟩ d 4096 1 (checkpointPayload [oneSlab s])) 4096
        (checkpointHeaderSize + (checkpointPayload [oneSlab s]).length) 1
          ≠ .ok (checkpointPayload [oneSlab s]) := by
  have hslots : (Slab.new 0 (2 ^ 40) 512).numSlots = 2 ^ 31 := by
    norm_num
  refine ⟨Slab.new 0 (2 ^ 40) 512, ⟨by norm_num [Slab.new], by norm_num [Slab.new],
    by norm_num [Slab.new], by rw [hslots]; norm_num⟩, fun d h => ?_⟩
  have hshort := length_of_readCheckpointRegion h
  rw [length_oneSlab, hslots] at hshort
  omega

end Copy

end Certus.ExtentManager
