import Certus.ExtentManager.Checkpoint
import Certus.ExtentManager.RegionInvariant

/-! # Recovery

`recovery.rs` and the region part of `initialize`: read the superblock, take the active checkpoint
copy or fall back to the other one, and rebuild every region from the slabs it records. The bitmap
of a slab is derived from its keys and the buddy allocator by marking the blocks of the slabs.

* **`recover`** — superblock and slab descriptors from the device.
* **`initRegion_spec`** — rebuilding from what a region recorded gives a region with the same
  published slots, in which nothing else is allocated. -/

namespace Certus.ExtentManager

open List Option RegionState OrdMap BuddyAllocator Slab

/-! ## Reading the device -/

/-- The payload of a copy, decoded. -/
def readCopy (c : BlockDeviceClient) (d : Disk c.sectorSize) (sb : Superblock) (copy : UInt8)
    (seq : ℕ) : Except ExtentManagerError (List UInt8) :=
  readCheckpointRegion c d
    (sb.checkpointRegionOffset + copy.toUInt64 * sb.checkpointRegionSize).toNat
    sb.checkpointRegionSize.toNat seq

/-- The superblock and the slabs of each region of the last checkpoint, or of the one before it. -/
def recover (c : BlockDeviceClient) (d : Disk c.sectorSize) :
    Except ExtentManagerError (Superblock × List (List SlabDescriptor)) := do
  let sb ← Superblock.deserialize (c.readBlocks d 0 superblockSize)
  if sb.checkpointSeq = 0 then
    .ok (sb, List.replicate sb.regionCount.toNat [])
  else
    match readCopy c d sb sb.activeCopy sb.checkpointSeq.toNat with
    | .ok data => do
        let regions ← deserializeSlabs data
        .ok (sb, regions)
    | .error _ =>
      let prevSeq := sb.checkpointSeq.toNat - 1
      let both := ExtentManagerError.corruptMetadata
        "both active and inactive checkpoint copies are corrupt"
      if prevSeq > 0 then
        match readCopy c d sb (1 - sb.activeCopy) prevSeq with
        | .ok data => do
            let regions ← deserializeSlabs data
            .ok (sb, regions)
        | .error _ => .error both
      else .error both

/-! ## Rebuilding slabs and regions -/

/-- A slab whose allocated slots are those with a key. -/
def slabFromDescriptor (desc : SlabDescriptor) : Slab :=
  desc.keys.zipIdx.foldl
    (fun slab (key, i) => if key ≠ freeKey then (slab.markSlotAllocated i).setKey i key else slab)
    (new desc.startOffset desc.slabSize desc.elementSize)

/-- The step of `initialize` for one recorded slab. -/
def addRecorded (r : RegionState) (desc : SlabDescriptor) : RegionState :=
  { r with
    sizeClasses := r.sizeClasses.addSlab (slabFromDescriptor desc).elementSize
      (slabFromDescriptor desc).startOffset
    slabs := r.slabs.insert (slabFromDescriptor desc).startOffset (slabFromDescriptor desc) }

/-- The region that `initialize` builds from the recorded slabs. -/
def initRegion (params : FormatParams) (base size sectorSize : ℕ) (descs : List SlabDescriptor) :
    RegionState :=
  let buddy := descs.foldl (fun b desc => b.markAllocated desc.startOffset desc.slabSize)
    (BuddyAllocator.new base size sectorSize)
  descs.foldl addRecorded (RegionState.new buddy params)

/-! ## A slab from its descriptor -/

/-- The loop over the keys, from slot `n` on. -/
theorem foldl_keys_spec (keys : List UInt64) {s : Slab} (hs : s.WellFormed) (n : ℕ)
    (hlen : n + keys.length ≤ s.numSlots) (hfree : ∀ j, n ≤ j → s.slot j = none) :
    let t := (keys.zipIdx n).foldl
      (fun slab (key, i) => if key ≠ freeKey then (slab.markSlotAllocated i).setKey i key else slab)
      s
    t.WellFormed ∧ s.SameShape t ∧
      ∀ j, t.slot j = if j < n then s.slot j
        else (keys[j - n]?).bind fun k => if k = freeKey then none else some k := by
  induction keys generalizing s n with
  | nil =>
    refine ⟨hs, ⟨rfl, rfl, rfl, rfl⟩, fun j => ?_⟩
    split_ifs with hj
    · rfl
    · exact hfree j (Nat.le_of_not_lt hj)
  | cons k keys ih =>
    rw [length_cons] at hlen
    rw [zipIdx_cons, foldl_cons]
    -- the entry of slot `n`, before the rest of the loop
    have hget : ∀ j, n + 1 ≤ j → (k :: keys)[j - n]? = keys[j - (n + 1)]? := by
      intro j hj
      rw [show j - n = (j - (n + 1)) + 1 by omega, getElem?_cons_succ]
    by_cases hk : k = freeKey
    · simp only [hk, ne_eq, not_true_eq_false, if_false]
      obtain ⟨hwf, hshape, hslot⟩ := ih hs (n + 1) (by omega) fun j hj => hfree j (by omega)
      refine ⟨hwf, hshape, fun j => ?_⟩
      rw [hslot]
      rcases Nat.lt_trichotomy j n with hj | rfl | hj
      · rw [if_pos (by omega), if_pos hj]
      · rw [if_pos (by omega), if_neg (lt_irrefl _), hfree j (le_refl _)]
        simp
      · rw [if_neg (by omega), if_neg (by omega), ← hk, hget j (by omega)]
    · simp only [hk, ne_eq, not_false_eq_true, if_true]
      obtain ⟨hwf₁, hshape₁, hslot₁⟩ :=
        markSlotAllocated_setKey_spec hs (show n < s.numSlots by omega) (hfree n (le_refl _)) k
      have hfree₁ : ∀ j, n + 1 ≤ j → ((s.markSlotAllocated n).setKey n k).slot j = none := by
        intro j hj
        rw [hslot₁, if_neg (by omega)]
        exact hfree j (by omega)
      obtain ⟨hwf, hshape, hslot⟩ := ih hwf₁ (n + 1) (by rw [hshape₁.slots]; omega) hfree₁
      refine ⟨hwf, ⟨hshape.start.trans hshape₁.start, hshape.size.trans hshape₁.size,
        hshape.element.trans hshape₁.element, hshape.slots.trans hshape₁.slots⟩, fun j => ?_⟩
      rw [hslot]
      rcases Nat.lt_trichotomy j n with hj | rfl | hj
      · rw [if_pos (by omega), if_pos hj, hslot₁, if_neg (by omega)]
      · rw [if_pos (by omega), if_neg (lt_irrefl _), hslot₁, if_pos rfl]
        simp [hk]
      · rw [if_neg (by omega), if_neg (by omega), hget j (by omega)]

/-- A published slot: allocated with a key. -/
def published (v : Option UInt64) : Option UInt64 :=
  v.bind fun k => if k = freeKey then none else some k

/-- **A slab from its own descriptor.** The slots with a key come back, the others are free. -/
theorem slabFromDescriptor_describe {s : Slab} (hs : s.WellFormed) :
    (slabFromDescriptor s.describe).WellFormed ∧ s.SameShape (slabFromDescriptor s.describe) ∧
      ∀ j, (slabFromDescriptor s.describe).slot j = published (s.slot j) := by
  have hnum : (Slab.new s.startOffset s.slabSize s.elementSize).numSlots = s.numSlots :=
    (Slab.numSlots_new ..).trans hs.numSlots_eq.symm
  have hlen : s.describe.keys.length = s.numSlots := by simp [Slab.describe]
  obtain ⟨hwf, hshape, hslot⟩ := foldl_keys_spec s.describe.keys
    (Slab.WellFormed.new (a := s.startOffset) (z := s.slabSize) hs.element_pos) 0
    (by rw [Nat.zero_add, hlen, hnum]) fun j _ => Slab.slot_new ..
  refine ⟨hwf, ⟨hshape.start, hshape.size, hshape.element, hshape.slots.trans hnum⟩, fun j => ?_⟩
  refine (hslot j).trans ?_
  rw [if_neg (Nat.not_lt_zero _), Nat.sub_zero, Slab.describe]
  by_cases hj : j < s.numSlots
  · simp only [getElem?_map, getElem?_range hj, map_some, bind_some]
    by_cases hkey : s.getKey j = freeKey
    · rw [if_pos hkey]
      unfold Slab.slot published
      split_ifs with hset
      · simp [hkey]
      · rfl
    · rw [if_neg hkey, Slab.slot_eq_some.mpr ⟨⟨hj, hs.isSet_of_getKey hj hkey⟩, rfl⟩, published]
      simp [hkey]
  · have hnone : s.slot j = none := Slab.slot_eq_none.mpr fun h => absurd h hj
    rw [hnone, getElem?_eq_none (by simp; omega)]
    rfl

/-! ## A region from what it recorded -/

namespace BuddyAllocator

theorem WellFormed.perm {b : BuddyAllocator} {out out' : List Block} (h : b.WellFormed out)
    (hp : out'.Perm out) : b.WellFormed out' :=
  ⟨h.sector_pos, h.maxOrder_eq, h.length_eq, h.tiling.perm (hp.append_left _)⟩

theorem SameRange.trans {a b c : BuddyAllocator} (h : a.SameRange b) (h' : b.SameRange c) :
    a.SameRange c :=
  ⟨h'.base.trans h.base, h'.total.trans h.total, h'.sector.trans h.sector,
    h'.maxOrder.trans h.maxOrder⟩

/-- Marking a list of disjoint aligned blocks of one size. -/
theorem foldl_markAllocated_spec {k size ord : ℕ} (starts : List ℕ) {b : BuddyAllocator}
    {out : List Block} (hb : b.WellFormed out) (hco : Coalesced b.sectorSize b.freeBlocks)
    (hsec : b.sectorSize = 2 ^ k) (htotal : b.totalUsableSize < 2 ^ 64)
    (hord : orderFor (size / b.sectorSize) = ord)
    (hstarts : ∀ a ∈ starts, b.baseOffset ≤ a ∧ span b.sectorSize ord ∣ a - b.baseOffset ∧
      a - b.baseOffset + span b.sectorSize ord ≤ b.totalUsableSize / b.sectorSize * b.sectorSize)
    (hpair : starts.Pairwise fun a a' => (Block.seg b.sectorSize (ord, a - b.baseOffset)).Disjoint
      (Block.seg b.sectorSize (ord, a' - b.baseOffset)))
    (hout : ∀ a ∈ starts, ∀ c ∈ out,
      (Block.seg b.sectorSize (ord, a - b.baseOffset)).Disjoint (c.seg b.sectorSize)) :
    b.SameRange (starts.foldl (fun b a => b.markAllocated a size) b) ∧
      (starts.foldl (fun b a => b.markAllocated a size) b).WellFormed
        (starts.map (fun a => (ord, a - b.baseOffset)) ++ out) := by
  induction starts generalizing b out with
  | nil => exact ⟨⟨rfl, rfl, rfl, rfl⟩, hb⟩
  | cons a starts ih =>
    obtain ⟨hbase, hal, hend⟩ := hstarts a mem_cons_self
    obtain ⟨hfirst, hpair⟩ := pairwise_cons.mp hpair
    obtain ⟨hsame, hb', hco'⟩ := markBlock_spec hb hco hsec htotal hal hend (hout a mem_cons_self)
    rw [← hord] at hsame hb' hco'
    change b.SameRange (b.markAllocated a size) at hsame
    change (b.markAllocated a size).WellFormed _ at hb'
    change Coalesced _ (b.markAllocated a size).freeBlocks at hco'
    rw [hord] at hb'
    have hnext := ih hb' (by rw [hsame.sector]; exact hco') (by rw [hsame.sector]; exact hsec)
      (by rw [hsame.total]; exact htotal) (by rw [hsame.sector]; exact hord)
      (by
        rw [hsame.base, hsame.sector, hsame.total]
        exact fun a' ha' => hstarts a' (mem_cons_of_mem _ ha'))
      (by rw [hsame.base, hsame.sector]; exact hpair)
      (by
        rw [hsame.base, hsame.sector]
        intro a' ha' c hc
        rcases mem_cons.mp hc with rfl | hc
        · exact (hfirst a' ha').symm
        · exact hout a' (mem_cons_of_mem _ ha') c hc)
    rw [hsame.base] at hnext
    exact ⟨hsame.trans hnext.1, hnext.2.perm perm_middle.symm⟩

end BuddyAllocator

/-- The loop of `initialize` over the recorded slabs of a region. -/
theorem foldl_addRecorded_spec (es : List (ℕ × Slab))
    (hes : ∀ e ∈ es, e.2.WellFormed ∧ e.2.startOffset = e.1) (hnodup : (es.map Prod.fst).Nodup)
    (r : RegionState) :
    let t := es.foldl (fun r e => addRecorded r e.2.describe) r
    t.buddy = r.buddy ∧ t.formatParams = r.formatParams ∧ t.dirty = r.dirty ∧
      t.pendingFrees = r.pendingFrees ∧
      (∀ a, t.slabs.get? a = ((OrdMap.lookup a es).map fun s => slabFromDescriptor s.describe).or
        (r.slabs.get? a)) ∧
      ∀ e a, a ∈ t.sizeClasses.getSlabs e →
        a ∈ r.sizeClasses.getSlabs e ∨ ∃ s, (a, s) ∈ es ∧ s.elementSize = e := by
  induction es generalizing r with
  | nil => exact ⟨rfl, rfl, rfl, rfl, fun a => rfl, fun e a ha => .inl ha⟩
  | cons e es ih =>
    obtain ⟨hwf, hstart⟩ := hes e mem_cons_self
    obtain ⟨hnot, hnodup⟩ := nodup_cons.mp hnodup
    obtain ⟨-, hshape, -⟩ := slabFromDescriptor_describe hwf
    have hkey : (slabFromDescriptor e.2.describe).startOffset = e.1 := hshape.start.trans hstart
    obtain ⟨h₁, h₂, h₃, h₄, h₅, h₆⟩ := ih (fun e' he' => hes e' (mem_cons_of_mem _ he')) hnodup
      (addRecorded r e.2.describe)
    refine ⟨h₁, h₂, h₃, h₄, fun a => ?_, fun el a ha => ?_⟩
    · rw [foldl_cons, h₅, OrdMap.lookup, addRecorded]
      simp only [get?_insert, hkey]
      by_cases ha : a = e.1
      · have hnone : OrdMap.lookup a es = none := by
          cases hl : OrdMap.lookup a es with
          | none => rfl
          | some s =>
            have := mem_of_lookup hl
            exact absurd (List.mem_map.mpr ⟨_, this, ha⟩) hnot
        simp [ha, ha ▸ hnone]
      · simp [ha]
    · rcases h₆ el a ha with ha | ⟨s, hs, hse⟩
      · rw [addRecorded] at ha
        rcases SizeClassManager.mem_addSlab.mp ha with ha | ⟨rfl, rfl⟩
        · exact .inl ha
        · exact .inr ⟨e.2, by rw [hkey]; exact mem_cons_self, hshape.element.symm⟩
      · exact .inr ⟨s, mem_cons_of_mem _ hs, hse⟩

/-- The published part of a slot's contents. -/
def publishedSlot (v : Option (ℕ × UInt64)) : Option (ℕ × UInt64) :=
  v.bind fun x => if x.2 = freeKey then none else some x

/-- The buddy allocator of a rebuilt region has exactly the blocks of the recorded slabs in use. -/
theorem RegionState.WellFormed.mark_all {r : RegionState} (h : r.WellFormed) {k : ℕ}
    (hpow : r.buddy.sectorSize = 2 ^ k) (htotal : r.buddy.totalUsableSize < 2 ^ 64) :
    let b := r.describe.foldl (fun b desc => b.markAllocated desc.startOffset desc.slabSize)
      (BuddyAllocator.new r.buddy.baseOffset r.buddy.totalUsableSize r.buddy.sectorSize)
    r.buddy.SameRange b ∧ b.WellFormed r.slabBlocks := by
  obtain ⟨leaked, hb⟩ := h.blocks
  -- the recorded slabs are the slabs by start offset
  have hfold : ∀ b : BuddyAllocator,
      r.describe.foldl (fun b desc => b.markAllocated desc.startOffset desc.slabSize) b
        = r.slabs.keys.foldl (fun b a => b.markAllocated a r.formatParams.slabSize.toNat) b := by
    intro b
    rw [RegionState.describe, values, OrdMap.keys, List.map_map, foldl_map, foldl_map]
    refine foldl_ext _ _ _ fun b' e he => ?_
    have hok := h.slab e.1 e.2 (mem_entries.mp he)
    rw [Function.comp, Slab.describe, hok.start_eq, hok.size_eq]
  have hmem : ∀ a ∈ r.slabs.keys, (r.slabOrder, a - r.buddy.baseOffset) ∈
      r.buddy.freeBlocks ++ (r.slabBlocks ++ leaked) := fun a ha =>
    mem_append_right _ (mem_append_left _ (List.mem_map_of_mem ha))
  dsimp only
  rw [hfold]
  have hnew := @BuddyAllocator.new_wellFormed r.buddy.baseOffset r.buddy.totalUsableSize
    r.buddy.sectorSize hb.sector_pos
  obtain ⟨hsame, hwf⟩ := foldl_markAllocated_spec r.slabs.keys hnew
    (new_coalesced hb.sector_pos) hpow htotal h.slabOrder_eq.2
    (fun a ha => by
      obtain ⟨s, hs⟩ := mem_keys.mp ha
      exact ⟨(h.slab a s hs).base_le, hb.tiling.aligned _ (hmem a ha),
        hb.tiling.end_le hb.sector_pos (hmem a ha)⟩)
    (r.slabs.nodup_keys.imp_of_mem fun ha ha' hne => h.blocks_disjoint ha ha' hne)
    (fun a _ c hc => absurd hc not_mem_nil)
  rw [append_nil] at hwf
  exact ⟨⟨hsame.base, hsame.total, hsame.sector, hsame.maxOrder.trans hb.maxOrder_eq.symm⟩, hwf⟩

/-- **Rebuilding a region.** From what a well-formed region recorded, `initialize` builds a
well-formed region in the same place with the same published slots and no other allocated slot;
its buddy allocator has exactly the blocks of the recorded slabs in use. -/
theorem initRegion_spec {r : RegionState} (h : r.WellFormed) {params : FormatParams} {k : ℕ}
    (hsec : params.sectorSize = r.formatParams.sectorSize)
    (hslab : params.slabSize = r.formatParams.slabSize) (hpow : r.buddy.sectorSize = 2 ^ k)
    (htotal : r.buddy.totalUsableSize < 2 ^ 64) :
    let t := initRegion params r.buddy.baseOffset r.buddy.totalUsableSize r.buddy.sectorSize
      r.describe
    t.WellFormed ∧ t.formatParams = params ∧ r.buddy.SameRange t.buddy ∧ t.dirty = false ∧
      t.pendingFrees = [] ∧ (∀ p, t.slotAt p = publishedSlot (r.slotAt p)) ∧
      t.slabs.keys.Perm r.slabs.keys ∧ t.buddy.WellFormed t.slabBlocks := by
  obtain ⟨hsame, hbuddy⟩ := h.mark_all hpow htotal
  unfold initRegion
  dsimp only
  set b := r.describe.foldl (fun b desc => b.markAllocated desc.startOffset desc.slabSize)
    (BuddyAllocator.new r.buddy.baseOffset r.buddy.totalUsableSize r.buddy.sectorSize) with hbdef
  have hentries : ∀ e ∈ r.slabs.entries, r.SlabOk e.1 e.2 := fun e he =>
    h.slab e.1 e.2 (OrdMap.mem_entries.mp he)
  have hspec := foldl_addRecorded_spec r.slabs.entries
    (fun e he => ⟨(hentries e he).wf, (hentries e he).start_eq⟩) r.slabs.nodup_keys
    (RegionState.new b params)
  have hfold : r.describe.foldl addRecorded (RegionState.new b params)
      = r.slabs.entries.foldl (fun r e => addRecorded r e.2.describe) (RegionState.new b params) := by
    rw [RegionState.describe, values, List.map_map, foldl_map]
    rfl
  rw [hfold]
  generalize r.slabs.entries.foldl (fun r e => addRecorded r e.2.describe)
    (RegionState.new b params) = t at hspec ⊢
  obtain ⟨hb, hparams, hdirty, hpend, hget, hcls⟩ := hspec
  have hget' : ∀ a, t.slabs.get? a
      = (r.slabs.get? a).map fun s => slabFromDescriptor s.describe := by
    intro a
    rw [hget, RegionState.new, OrdMap.get?_empty, or_none]
    rfl
  have hkeys : t.slabs.keys.Perm r.slabs.keys := by
    refine (perm_ext_iff_of_nodup (nodup_keys _) (nodup_keys _)).mpr fun a => ?_
    rw [OrdMap.mem_keys, OrdMap.mem_keys, hget']
    cases r.slabs.get? a <;> simp
  have horder : t.slabOrder = r.slabOrder := by
    rw [slabOrder, slabOrder, hparams]
    simp only [RegionState.new, hsec, hslab]
  have hblocks : t.slabBlocks.Perm r.slabBlocks := by
    rw [slabBlocks, slabBlocks, horder, hb]
    simp only [RegionState.new, hsame.base]
    exact hkeys.map _
  have htb : t.buddy.WellFormed t.slabBlocks := by
    rw [hb]
    exact hbuddy.perm hblocks
  refine ⟨⟨?_, ?_, fun a s hs => ?_, ⟨[], by rw [append_nil]; exact htb⟩, fun e a ha => ?_⟩,
    hparams, hb ▸ hsame, hdirty, hpend, fun p => ?_, hkeys, htb⟩
  · rw [hb, hparams]
    simp only [RegionState.new, hsec]
    exact hsame.sector.trans h.sector_eq
  · rw [hparams]
    simp only [RegionState.new, hsec, hslab]
    exact h.sector_dvd
  · rw [hget'] at hs
    obtain ⟨s', hs', rfl⟩ := map_eq_some_iff.mp hs
    have hok := h.slab a s' hs'
    obtain ⟨hwf, hshape, -⟩ := slabFromDescriptor_describe hok.wf
    refine ⟨hwf, hshape.start.trans hok.start_eq, ?_, hshape.element ▸ hok.element_lt, ?_⟩
    · rw [hparams]
      simp only [RegionState.new, hslab]
      exact hshape.size.trans hok.size_eq
    · rw [hb]
      simp only [RegionState.new, hsame.base]
      exact hok.base_le
  · rcases hcls e a ha with ha | ⟨s, hs, rfl⟩
    · exact absurd ha not_mem_nil
    · have hs' := OrdMap.mem_entries.mp hs
      obtain ⟨-, hshape, -⟩ := slabFromDescriptor_describe (h.slab a s hs').wf
      exact ⟨_, by rw [hget', hs']; rfl, hshape.element⟩
  · rw [slotAt, slotAt, hget']
    cases hs : r.slabs.get? p.1 with
    | none => rfl
    | some s =>
      obtain ⟨-, hshape, hslot⟩ := slabFromDescriptor_describe (h.slab _ s hs).wf
      simp only [map_some, bind_some, hslot, hshape.element, publishedSlot, published]
      cases s.slot p.2 with
      | none => rfl
      | some key => by_cases hkey : key = freeKey <;> simp [hkey]

end Certus.ExtentManager
