import Certus.ExtentManager.Region

/-! # The region invariant

Slabs sit on blocks that the buddy allocator handed out, so slots of different slabs do not overlap;
the size classes list existing slabs of the right slot size. Every operation keeps this, and changes
the map of slots in one place.

* **`allocExtent_spec`, `freeSlot_spec`, `publishSlot_spec`, `removeExtentByOffset_spec`,
  `flushPendingFrees_spec`** — one lemma per operation.
* **`WellFormed.slots_disjoint`, `WellFormed.slot_within`** — allocated slots are disjoint and inside
  the region. -/

namespace Certus.ExtentManager

open List Option Slab OrdMap BuddyAllocator

/-- A block of the order chosen for `blocks` sectors has room for them. -/
theorem le_two_pow_orderFor (blocks : ℕ) : blocks ≤ 2 ^ orderFor blocks := by
  unfold orderFor
  split_ifs with h
  · simpa using h
  · have : blocks - 1 < 2 ^ (Nat.log2 (blocks - 1) + 1) := Nat.lt_log2_self
    omega

namespace RegionState

/-- The order of the blocks that hold slabs. -/
def slabOrder (r : RegionState) : ℕ :=
  orderFor (r.formatParams.slabSize.toNat / r.formatParams.sectorSize.toNat)

/-- The blocks of the slabs, local to the region. -/
def slabBlocks (r : RegionState) : List Block :=
  r.slabs.keys.map fun start => (r.slabOrder, start - r.buddy.baseOffset)

/-- What holds of every slab of a region. -/
structure SlabOk (r : RegionState) (start : ℕ) (s : Slab) : Prop where
  wf : s.WellFormed
  start_eq : s.startOffset = start
  size_eq : s.slabSize = r.formatParams.slabSize.toNat
  element_lt : s.elementSize < 2 ^ 32
  base_le : r.buddy.baseOffset ≤ start

/-- The invariant of a region. The blocks `leaked` are those of calls that panicked. -/
structure WellFormed (r : RegionState) : Prop where
  sector_eq : r.buddy.sectorSize = r.formatParams.sectorSize.toNat
  sector_dvd : r.formatParams.sectorSize.toNat ∣ r.formatParams.slabSize.toNat
  slab : ∀ start s, r.slabs.get? start = some s → r.SlabOk start s
  blocks : ∃ leaked, r.buddy.WellFormed (r.slabBlocks ++ leaked)
  classes : ∀ e start, start ∈ r.sizeClasses.getSlabs e →
    ∃ s, r.slabs.get? start = some s ∧ s.elementSize = e

/-- Two states of one region: same place, same parameters. -/
structure SameRegion (r t : RegionState) : Prop where
  params : t.formatParams = r.formatParams
  range : r.buddy.SameRange t.buddy

open SameRegion

theorem SameRegion.refl (r : RegionState) : r.SameRegion r := ⟨rfl, rfl, rfl, rfl, rfl⟩

theorem SameRegion.trans {r s t : RegionState} (h : r.SameRegion s) (h' : s.SameRegion t) :
    r.SameRegion t where
  params := h'.params.trans h.params
  range := ⟨h'.range.base.trans h.range.base, h'.range.total.trans h.range.total,
    h'.range.sector.trans h.range.sector, h'.range.maxOrder.trans h.range.maxOrder⟩

variable {r : RegionState}

/-! ## Slots do not overlap -/

namespace WellFormed

variable (h : r.WellFormed)
include h

theorem sector_pos : 0 < r.buddy.sectorSize := by
  obtain ⟨_, hb⟩ := h.blocks
  exact hb.sector_pos

theorem slabSize_le : r.formatParams.slabSize.toNat ≤ span r.buddy.sectorSize r.slabOrder := by
  obtain ⟨m, hm⟩ := h.sector_dvd
  have hpos := h.sector_pos
  rw [h.sector_eq] at hpos ⊢
  have hle := le_two_pow_orderFor (r.formatParams.slabSize.toNat / r.formatParams.sectorSize.toNat)
  have hdiv : r.formatParams.slabSize.toNat / r.formatParams.sectorSize.toNat = m := by
    rw [hm, Nat.mul_div_cancel_left _ hpos]
  rw [slabOrder, span, hdiv, hm, Nat.mul_comm]
  rw [hdiv] at hle
  exact Nat.mul_le_mul_right _ hle

omit h in
theorem mem_slabBlocks {start : ℕ} {s : Slab} (hs : r.slabs.get? start = some s) :
    (r.slabOrder, start - r.buddy.baseOffset) ∈ r.slabBlocks :=
  List.mem_map_of_mem (OrdMap.mem_keys.mpr ⟨s, hs⟩)

variable {a b e : ℕ} {k : UInt64} {p : ℕ × ℕ}

theorem blocks_disjoint (ha : a ∈ r.slabs.keys) (hb : b ∈ r.slabs.keys) (hab : a ≠ b) :
    (Block.seg r.buddy.sectorSize (r.slabOrder, a - r.buddy.baseOffset)).Disjoint
      (Block.seg r.buddy.sectorSize (r.slabOrder, b - r.buddy.baseOffset)) := by
  obtain ⟨leaked, hw⟩ := h.blocks
  have hbe : b ∈ r.slabs.keys.erase a := (mem_erase_of_ne (Ne.symm hab)).mpr hb
  -- bring the two blocks to the front of the tiling
  have hkeys : r.slabs.keys.Perm (a :: b :: (r.slabs.keys.erase a).erase b) :=
    (perm_cons_erase ha).trans ((perm_cons_erase hbe).cons a)
  have hmap := hkeys.map fun start => (r.slabOrder, start - r.buddy.baseOffset)
  have hperm := ((hmap.append_right leaked).append_left r.buddy.freeBlocks).trans
    (perm_middle.trans (perm_middle.cons _))
  exact (hw.tiling.perm hperm.symm).disjoint hw.sector_pos

theorem slabs_disjoint {s t : Slab} (hs : r.slabs.get? a = some s)
    (ht : r.slabs.get? b = some t) (hab : a ≠ b) :
    Seg.Disjoint (a, r.formatParams.slabSize.toNat) (b, r.formatParams.slabSize.toNat) := by
  have hdisj := h.blocks_disjoint (OrdMap.mem_keys.mpr ⟨s, hs⟩) (OrdMap.mem_keys.mpr ⟨t, ht⟩) hab
  have hsize := h.slabSize_le
  have ha := (h.slab a s hs).base_le
  have hb := (h.slab b t ht).base_le
  simp only [Seg.Disjoint, Block.seg] at hdisj ⊢
  omega

theorem slot_within_slab (hp : r.slotAt p = some (e, k)) :
    (slotBytes p e).Within (p.1, r.formatParams.slabSize.toNat) := by
  obtain ⟨s, hs, hslot, rfl⟩ := slotAt_eq_some.mp hp
  have hok := h.slab _ s hs
  have hw := hok.wf.slotSeg_within (slot_eq_some.mp hslot).1.1
  rwa [slotSeg, slotOffset, hok.start_eq, hok.size_eq] at hw

/-- **Slots do not overlap.** -/
theorem slots_disjoint {p q : ℕ × ℕ} {e e' : ℕ} {k k' : UInt64}
    (hp : r.slotAt p = some (e, k)) (hq : r.slotAt q = some (e', k')) (hpq : p ≠ q) :
    (slotBytes p e).Disjoint (slotBytes q e') := by
  obtain ⟨s, hs, -, hse⟩ := slotAt_eq_some.mp hp
  obtain ⟨t, ht, -, hte⟩ := slotAt_eq_some.mp hq
  by_cases hstart : p.1 = q.1
  · -- two slots of one slab
    have hst : s = t := by
      rw [hstart, ht] at hs
      exact (some.inj hs).symm
    have hidx : p.2 ≠ q.2 := fun hidx => hpq (Prod.ext hstart hidx)
    have hd := Slab.WellFormed.slotSeg_disjoint s hidx
    have hok := h.slab _ s hs
    rw [slotSeg, slotSeg, slotOffset, slotOffset, hok.start_eq] at hd
    subst hst
    rw [slotBytes, slotBytes, ← hse, ← hte, ← hstart]
    exact hd
  · exact (h.slabs_disjoint hs ht hstart).mono (h.slot_within_slab hp) (h.slot_within_slab hq)

/-- **Slots lie in the region.** -/
theorem slot_within (hp : r.slotAt p = some (e, k)) :
    (slotBytes p e).Within (r.buddy.baseOffset, r.buddy.totalUsableSize) := by
  obtain ⟨leaked, hb⟩ := h.blocks
  obtain ⟨s, hs, -, -⟩ := slotAt_eq_some.mp hp
  have hend := hb.tiling.end_le hb.sector_pos
    (mem_append_right _ (mem_append_left leaked (mem_slabBlocks hs)))
  have hslot := h.slot_within_slab hp
  have hsize := h.slabSize_le
  have hbase := (h.slab _ s hs).base_le
  have husable := Nat.div_mul_le_self r.buddy.totalUsableSize r.buddy.sectorSize
  simp only [Seg.Within] at hslot ⊢
  simp only at hend
  omega

end WellFormed

/-! ## Changes that keep the invariant -/

variable {start i off e offset : ℕ} {s : Slab} {t : RegionState} {b : BuddyAllocator}
  {leaked : List Block} {k : UInt64}

section

variable (h : r.WellFormed)
include h

theorem WellFormed.insert_slab {s t : Slab} (hs : r.slabs.get? start = some s)
    (ht : t.WellFormed) (hshape : s.SameShape t) :
    ({ r with slabs := r.slabs.insert start t } : RegionState).WellFormed := by
  have hok := h.slab start s hs
  obtain ⟨leaked, hb⟩ := h.blocks
  refine ⟨h.sector_eq, h.sector_dvd, fun a u hu => ?_, ⟨leaked, ?_⟩, fun e a ha => ?_⟩
  · rw [get?_insert] at hu
    split_ifs at hu with hat
    · cases hu
      subst hat
      exact ⟨ht, hshape.start.trans hok.start_eq, hshape.size.trans hok.size_eq,
        hshape.element ▸ hok.element_lt, hok.base_le⟩
    · obtain ⟨h₁, h₂, h₃, h₄, h₅⟩ := h.slab a u hu
      exact ⟨h₁, h₂, h₃, h₄, h₅⟩
  · refine ⟨hb.sector_pos, hb.maxOrder_eq, hb.length_eq, hb.tiling.perm ?_⟩
    exact (((keys_insert_of_some hs).map _).append_right leaked).append_left _
  · obtain ⟨u, hu, he⟩ := h.classes e a ha
    by_cases hat : a = start
    · subst hat
      rw [hs] at hu
      cases hu
      exact ⟨t, by simp, hshape.element.trans he⟩
    · exact ⟨u, by simp [hat, hu], he⟩

/-- Changing the size classes to ones that still list existing slabs. The flag and the pending frees
are not part of the invariant. -/
theorem WellFormed.set_classes {c : SizeClassManager} {d : Bool} {ps : List (ℕ × ℕ)}
    (hc : ∀ e start, start ∈ c.getSlabs e → ∃ s, r.slabs.get? start = some s ∧ s.elementSize = e) :
    ({ r with sizeClasses := c, dirty := d, pendingFrees := ps } : RegionState).WellFormed :=
  ⟨h.sector_eq, h.sector_dvd, fun a s hs => by
    obtain ⟨h₁, h₂, h₃, h₄, h₅⟩ := h.slab a s hs
    exact ⟨h₁, h₂, h₃, h₄, h₅⟩, h.blocks, hc⟩

theorem WellFormed.remove_class (e start : ℕ) :
    ({ r with sizeClasses := r.sizeClasses.removeSlab e start } : RegionState).WellFormed :=
  h.set_classes fun e' a ha => h.classes e' a (SizeClassManager.mem_removeSlab.mp ha).1

theorem WellFormed.add_class (hs : r.slabs.get? start = some s) :
    ({ r with sizeClasses := r.sizeClasses.addSlab s.elementSize start } : RegionState).WellFormed :=
  h.set_classes fun e' a ha => by
    rcases SizeClassManager.mem_addSlab.mp ha with ha | ⟨rfl, rfl⟩
    · exact h.classes e' a ha
    · exact ⟨s, hs, rfl⟩

end

/-! ## Allocation -/

/-- A later state of a region with the invariant, the same flag and the same pending frees. -/
structure Keeps (r t : RegionState) : Prop where
  wf : t.WellFormed
  same : r.SameRegion t
  dirty : t.dirty = r.dirty
  pending : t.pendingFrees = r.pendingFrees

/-- What reserving a slot of `e` bytes does to the slots: a free slot becomes allocated without a
key, or nothing changes. -/
def Reserves (r t : RegionState) (e : ℕ) : Outcome (ℕ × ℕ × ℕ) → Prop
  | .ok (start, i, offset) =>
    offset = start + i * e ∧ r.slotAt (start, i) = none ∧
      ∀ q, t.slotAt q = if q = (start, i) then some (e, freeKey) else r.slotAt q
  | _ => ∀ q, t.slotAt q = r.slotAt q

/-- The size classes do not matter for the slots. -/
theorem slotAt_of_slabs_eq (h : t.slabs = r.slabs) (q : ℕ × ℕ) : t.slotAt q = r.slotAt q := by
  rw [slotAt, slotAt, h]

theorem Reserves.of_allocSlot (h : r.WellFormed) {s t : Slab} (hs : r.slabs.get? start = some s)
    (halloc : s.allocSlot = some (t, i, off)) {r' : RegionState}
    (hr' : r'.slabs = r.slabs.insert start t) :
    r.Reserves r' s.elementSize (.ok (start, i, off)) := by
  have hok := h.slab start s hs
  obtain ⟨-, hshape, hfree, hoff, hslot⟩ := allocSlot_spec hok.wf halloc
  refine ⟨?_, ?_, fun q => ?_⟩
  · rw [hoff, slotOffset, hok.start_eq]
  · simp [slotAt, hs, hfree]
  · rw [slotAt_of_slabs_eq (r := { r with slabs := r.slabs.insert start t }) hr',
      slotAt_insert_slot hs hshape.element hslot]
    rfl

/-- The loop over a size class takes a slot of a listed slab, or leaves the slots alone. -/
theorem allocFromClass_spec (e fuel : ℕ) (h : r.WellFormed) : r.Keeps (allocFromClass e fuel r).2 ∧
      match (allocFromClass e fuel r).1 with
      | some res => r.Reserves (allocFromClass e fuel r).2 e (.ok res)
      | none => (allocFromClass e fuel r).2.slabs = r.slabs ∧
          (allocFromClass e fuel r).2.buddy = r.buddy := by
  induction fuel generalizing r with
  | zero => exact ⟨⟨h, refl r, rfl, rfl⟩, rfl, rfl⟩
  | succ fuel ih =>
    rw [allocFromClass]
    cases hhead : (r.sizeClasses.getSlabs e).head? with
    | none => exact ⟨⟨h, refl r, rfl, rfl⟩, rfl, rfl⟩
    | some start =>
      obtain ⟨s, hs, rfl⟩ := h.classes e start (mem_of_head? hhead)
      cases halloc : s.allocSlot with
      | none =>
        -- a stale entry: go on with a shorter class
        simp only [hs, bind_some, halloc]
        obtain ⟨hk, hres⟩ := ih (h.remove_class s.elementSize start)
        refine ⟨⟨hk.wf, ⟨hk.same.params, hk.same.range⟩, hk.dirty, hk.pending⟩, ?_⟩
        revert hres
        cases (allocFromClass s.elementSize fuel { r with
          sizeClasses := r.sizeClasses.removeSlab s.elementSize start }).1 with
        | none => exact id
        | some res =>
          obtain ⟨a, i, off⟩ := res
          exact fun hres => hres
      | some v =>
        obtain ⟨t, i, off⟩ := v
        simp only [hs, bind_some, halloc]
        have hok := h.slab start s hs
        obtain ⟨ht, hshape, -⟩ := allocSlot_spec hok.wf halloc
        have hins := h.insert_slab hs ht hshape
        split_ifs
        · exact ⟨⟨hins.remove_class s.elementSize start, ⟨rfl, rfl, rfl, rfl, rfl⟩, rfl, rfl⟩,
            Reserves.of_allocSlot h hs halloc rfl⟩
        · exact ⟨⟨hins, ⟨rfl, rfl, rfl, rfl, rfl⟩, rfl, rfl⟩, Reserves.of_allocSlot h hs halloc rfl⟩

section

variable (h : r.WellFormed)
include h

/-- The number of sectors of a slab, rounded up or not, is the same. -/
theorem WellFormed.slabOrder_eq :
    orderFor ((r.formatParams.slabSize.toNat + r.buddy.sectorSize - 1) / r.buddy.sectorSize)
        = r.slabOrder ∧
      orderFor (r.formatParams.slabSize.toNat / r.buddy.sectorSize) = r.slabOrder := by
  have hpos := h.sector_pos
  rw [slabOrder, ← h.sector_eq]
  refine ⟨congrArg orderFor ?_, rfl⟩
  obtain ⟨m, hm⟩ := h.sector_eq ▸ h.sector_dvd
  rw [hm, Nat.mul_div_cancel_left _ hpos]
  refine Nat.div_eq_of_lt_le ?_ ?_
  · rw [Nat.mul_comm]
    omega
  · rw [Nat.succ_mul, Nat.mul_comm]
    omega

/-- A block that the buddy allocator just handed out, before a slab is built on it. -/
theorem WellFormed.alloc_block
    (halloc : r.buddy.alloc r.formatParams.slabSize.toNat = some (off, b)) :
    r.buddy.SameRange b ∧ r.buddy.baseOffset ≤ off ∧ r.slabs.get? off = none ∧
      ∃ leaked, b.WellFormed ((r.slabOrder, off - r.buddy.baseOffset) ::
        (r.slabBlocks ++ leaked)) := by
  obtain ⟨leaked, hb⟩ := h.blocks
  obtain ⟨hsame, x, rfl, hb'⟩ := alloc_spec hb halloc
  rw [h.slabOrder_eq.1] at hb'
  rw [Nat.add_sub_cancel_left]
  refine ⟨hsame, Nat.le_add_right _ _, ?_, leaked, hb'⟩
  -- a slab already there would sit on the same block
  cases hget : r.slabs.get? (r.buddy.baseOffset + x) with
  | none => rfl
  | some s =>
    exfalso
    have hmem := mem_slabBlocks hget
    rw [Nat.add_sub_cancel_left] at hmem
    have hd := (hb'.tiling.perm perm_middle.symm).disjoint_of_mem hb'.sector_pos
      (mem_append_right _ (mem_append_left leaked hmem))
    have hpos := span_pos hb'.sector_pos r.slabOrder
    simp only [Seg.Disjoint, Block.seg] at hd
    omega

/-- Another buddy allocator over the same range, with blocks for the slabs handed out. -/
theorem WellFormed.set_buddy (hsame : r.buddy.SameRange b)
    (hb : b.WellFormed (r.slabBlocks ++ leaked)) :
    ({ r with buddy := b } : RegionState).WellFormed := by
  refine ⟨hsame.sector.trans h.sector_eq, h.sector_dvd, fun a s hs => ?_, ⟨leaked, ?_⟩, h.classes⟩
  · obtain ⟨h₁, h₂, h₃, h₄, h₅⟩ := h.slab a s hs
    exact ⟨h₁, h₂, h₃, h₄, hsame.base ▸ h₅⟩
  · simp only [slabBlocks, slabOrder, hsame.base] at hb ⊢
    exact hb

theorem WellFormed.insert_new {t : Slab} (hsame : r.buddy.SameRange b)
    (hbase : r.buddy.baseOffset ≤ off) (hnone : r.slabs.get? off = none)
    (hb : b.WellFormed ((r.slabOrder, off - r.buddy.baseOffset) :: (r.slabBlocks ++ leaked)))
    (ht : t.WellFormed) (hstart : t.startOffset = off)
    (hsize : t.slabSize = r.formatParams.slabSize.toNat) (hlt : t.elementSize < 2 ^ 32) :
    ({ r with buddy := b, slabs := r.slabs.insert off t } : RegionState).WellFormed := by
  refine ⟨hsame.sector.trans h.sector_eq, h.sector_dvd, fun a s hs => ?_, ⟨leaked, ?_⟩,
    fun e a ha => ?_⟩
  · rw [get?_insert] at hs
    split_ifs at hs with hat
    · cases hs
      subst hat
      exact ⟨ht, hstart, hsize, hlt, hsame.base ▸ hbase⟩
    · obtain ⟨h₁, h₂, h₃, h₄, h₅⟩ := h.slab a s hs
      exact ⟨h₁, h₂, h₃, h₄, hsame.base ▸ h₅⟩
  · refine ⟨hb.sector_pos, hb.maxOrder_eq, hb.length_eq, hb.tiling.perm ?_⟩
    simp only [slabBlocks, slabOrder, hsame.base]
    exact (((keys_insert_of_none hnone).map _).append_right leaked).append_left _
  · obtain ⟨u, hu, he⟩ := h.classes e a ha
    have hat : a ≠ off := by
      rintro rfl
      rw [hnone] at hu
      cases hu
    exact ⟨u, by simp [hat, hu], he⟩

theorem allocNewSlab_spec (he : e < 2 ^ 32) :
    r.Keeps (r.allocNewSlab e).2 ∧ r.Reserves (r.allocNewSlab e).2 e (r.allocNewSlab e).1 := by
  unfold allocNewSlab
  dsimp only
  split
  · exact ⟨⟨h, refl r, rfl, rfl⟩, fun q => rfl⟩
  cases halloc : r.buddy.alloc r.formatParams.slabSize.toNat with
  | none => exact ⟨⟨h, refl r, rfl, rfl⟩, fun q => rfl⟩
  | some v =>
    obtain ⟨off, b⟩ := v
    obtain ⟨hsame, hbase, hnone, leaked, hb⟩ := h.alloc_block halloc
    dsimp only
    by_cases hzero : e = 0
    · -- the panic leaks the block
      rw [if_pos hzero]
      have hb' : b.WellFormed (r.slabBlocks ++ (r.slabOrder, off - r.buddy.baseOffset) :: leaked) :=
        ⟨hb.sector_pos, hb.maxOrder_eq, hb.length_eq, hb.tiling.perm (perm_middle.append_left _)⟩
      exact ⟨⟨h.set_buddy hsame hb', ⟨rfl, hsame⟩, rfl, rfl⟩, fun q => rfl⟩
    rw [if_neg hzero]
    have hnew : (Slab.new off r.formatParams.slabSize.toNat e).WellFormed :=
      Slab.WellFormed.new (Nat.pos_of_ne_zero hzero)
    cases hslot : (Slab.new off r.formatParams.slabSize.toNat e).allocSlot with
    | none =>
      -- no slot fits: the block goes back
      dsimp only
      have hoff : off = b.baseOffset + (off - r.buddy.baseOffset) := by
        rw [hsame.base]
        omega
      have hord : orderFor (r.formatParams.slabSize.toNat / b.sectorSize) = r.slabOrder := by
        rw [hsame.sector]
        exact h.slabOrder_eq.2
      rw [← hord] at hb
      obtain ⟨hsame', hb'⟩ := free_spec hb
      rw [← hoff] at hsame' hb'
      have hrange : r.buddy.SameRange (b.free off r.formatParams.slabSize.toNat) :=
        ⟨hsame'.base.trans hsame.base, hsame'.total.trans hsame.total,
          hsame'.sector.trans hsame.sector, hsame'.maxOrder.trans hsame.maxOrder⟩
      exact ⟨⟨h.set_buddy hrange hb', ⟨rfl, hrange⟩, rfl, rfl⟩, fun q => rfl⟩
    | some v =>
      obtain ⟨t, i, o⟩ := v
      obtain ⟨ht, hshape, -, ho, hslots⟩ := allocSlot_spec hnew hslot
      dsimp only
      have hins := h.insert_new hsame hbase hnone hb ht hshape.start hshape.size
        (hshape.element.symm ▸ he)
      have hres : ∀ r' : RegionState, r'.slabs = r.slabs.insert off t →
          r.Reserves r' e (.ok (off, i, o)) := by
        intro r' hr'
        refine ⟨ho, by simp [slotAt, hnone], fun q => ?_⟩
        obtain ⟨a, j⟩ := q
        simp only [slotAt, hr', get?_insert]
        by_cases ha : a = off
        · subst ha
          by_cases hj : j = i
          · simp [hslots, hj, hshape.element, Slab.new]
          · simp [hslots, hj, hnone]
        · simp [ha]
      split_ifs with hfull
      · exact ⟨⟨hins, ⟨rfl, hsame⟩, rfl, rfl⟩, hres _ rfl⟩
      · have hget : ({ r with buddy := b, slabs := r.slabs.insert off t } :
            RegionState).slabs.get? off = some t := by simp
        have hcls := hins.add_class hget
        rw [show t.elementSize = e from hshape.element] at hcls
        exact ⟨⟨hcls, ⟨rfl, hsame⟩, rfl, rfl⟩, hres _ rfl⟩

/-- **Reserving.** A successful call allocates one free slot; any call keeps the invariant. -/
theorem allocExtent_spec (size : UInt32) : r.Keeps (r.allocExtent size).2 ∧
      r.Reserves (r.allocExtent size).2 (alignToSectorSize size r.formatParams.sectorSize).toNat
        (r.allocExtent size).1 := by
  have hlt := (alignToSectorSize size r.formatParams.sectorSize).toNat_lt
  unfold allocExtent
  dsimp only
  generalize (alignToSectorSize size r.formatParams.sectorSize).toNat = e at hlt ⊢
  obtain ⟨hk, hres⟩ := allocFromClass_spec e (r.sizeClasses.getSlabs e).length h
  revert hk hres
  generalize allocFromClass e (r.sizeClasses.getSlabs e).length r = v
  obtain ⟨res, t⟩ := v
  cases res with
  | some res => exact fun hk hres => ⟨hk, hres⟩
  | none =>
    rintro hk ⟨hslabs, -⟩
    obtain ⟨hk', hres'⟩ := allocNewSlab_spec hk.wf hlt
    refine ⟨⟨hk'.wf, hk.same.trans hk'.same, hk'.dirty.trans hk.dirty,
      hk'.pending.trans hk.pending⟩, ?_⟩
    -- the loop did not touch the slabs
    have hsl : ∀ q, t.slotAt q = r.slotAt q := slotAt_of_slabs_eq hslabs
    dsimp only
    revert hres'
    cases (t.allocNewSlab e).1 with
    | ok v =>
      obtain ⟨a, i, o⟩ := v
      rintro ⟨h₁, h₂, h₃⟩
      exact ⟨h₁, hsl _ ▸ h₂, fun q => by rw [h₃, hsl]⟩
    | err _ | panicked => exact fun hq q => (hq q).trans (hsl q)

/-! ## Freeing, publishing, removing -/

theorem WellFormed.erase_slab (hs : r.slabs.get? start = some s) :
    r.buddy.SameRange (r.buddy.free start r.formatParams.slabSize.toNat) ∧
      ({ r with
          buddy := r.buddy.free start r.formatParams.slabSize.toNat
          sizeClasses := r.sizeClasses.removeSlab s.elementSize start
          slabs := r.slabs.erase start } : RegionState).WellFormed := by
  obtain ⟨leaked, hb⟩ := h.blocks
  have hbase := (h.slab start s hs).base_le
  have hperm : (r.slabBlocks ++ leaked).Perm ((r.slabOrder, start - r.buddy.baseOffset) ::
      ((r.slabs.erase start).keys.map (fun a => (r.slabOrder, a - r.buddy.baseOffset))
        ++ leaked)) :=
    ((keys_erase hs).map _).append_right leaked
  have hb' : r.buddy.WellFormed ((orderFor (r.formatParams.slabSize.toNat / r.buddy.sectorSize),
      start - r.buddy.baseOffset) ::
      ((r.slabs.erase start).keys.map (fun a => (r.slabOrder, a - r.buddy.baseOffset))
        ++ leaked)) := by
    rw [h.slabOrder_eq.2]
    exact ⟨hb.sector_pos, hb.maxOrder_eq, hb.length_eq, hb.tiling.perm (hperm.symm.append_left _)⟩
  obtain ⟨hsame, hfree⟩ := free_spec hb'
  rw [Nat.add_sub_cancel' hbase] at hsame hfree
  refine ⟨hsame, hsame.sector.trans h.sector_eq, h.sector_dvd, fun a t ht => ?_, ⟨leaked, ?_⟩,
    fun e a ha => ?_⟩
  · rw [get?_erase] at ht
    split_ifs at ht with hat
    obtain ⟨h₁, h₂, h₃, h₄, h₅⟩ := h.slab a t ht
    exact ⟨h₁, h₂, h₃, h₄, hsame.base ▸ h₅⟩
  · simp only [slabBlocks, slabOrder, hsame.base] at hfree ⊢
    exact hfree
  · obtain ⟨hmem, hne⟩ := SizeClassManager.mem_removeSlab.mp ha
    obtain ⟨t, ht, rfl⟩ := h.classes e a hmem
    have hat : a ≠ start := by
      rintro rfl
      rw [hs] at ht
      cases ht
      exact hne ⟨rfl, rfl⟩
    exact ⟨t, by simp [hat, ht], rfl⟩

/-- **Freeing.** An allocated slot becomes free, and nothing else changes in the slots. -/
theorem freeSlot_spec (hp : r.slotAt (start, i) = some (e, k)) : r.Keeps (r.freeSlot start i) ∧
      ∀ q, (r.freeSlot start i).slotAt q = if q = (start, i) then none else r.slotAt q := by
  obtain ⟨s, hs, hslot, -⟩ := slotAt_eq_some.mp hp
  have hok := h.slab start s hs
  obtain ⟨ht, hshape, hslots⟩ := Slab.freeSlot_spec hok.wf hslot
  simp only [freeSlot, hs]
  by_cases hempty : (s.freeSlot i).isEmpty
  · -- the last slot: the slab goes
    rw [if_pos hempty]
    have hsize : (s.freeSlot i).slabSize = r.formatParams.slabSize.toNat :=
      hshape.size.trans hok.size_eq
    obtain ⟨hsame, hwf⟩ := h.erase_slab hs
    rw [hsize, hshape.element]
    refine ⟨⟨hwf, ⟨rfl, hsame⟩, rfl, rfl⟩, fun q => ?_⟩
    obtain ⟨a, j⟩ := q
    have hnone := (isEmpty_iff ht).mp hempty j
    rw [hslots] at hnone
    by_cases ha : a = start
    · subst ha
      by_cases hj : j = i
      · simp [slotAt, hj]
      · rw [if_neg hj] at hnone
        simp [slotAt, hj, hs, hnone]
    · simp [slotAt, ha]
  · rw [if_neg hempty]
    have hins := h.insert_slab hs ht hshape
    have hview := slotAt_insert_slot hs hshape.element hslots
    have hget : (r.slabs.insert start (s.freeSlot i)).get? start = some (s.freeSlot i) := by simp
    split_ifs with hfull
    · exact ⟨⟨hins.add_class hget, ⟨rfl, rfl, rfl, rfl, rfl⟩, rfl, rfl⟩, hview⟩
    · exact ⟨⟨hins, ⟨rfl, rfl, rfl, rfl, rfl⟩, rfl, rfl⟩, hview⟩

theorem WellFormed.set_marks (d : Bool) (ps : List (ℕ × ℕ)) :
    ({ r with dirty := d, pendingFrees := ps } : RegionState).WellFormed :=
  h.set_classes h.classes

/-- **Publishing.** A reserved slot gets its key, and the region is dirty. -/
theorem publishSlot_spec (hp : r.slotAt (start, i) = some (e, k)) (key : UInt64) :
    (r.publishSlot start i key).WellFormed ∧ r.SameRegion (r.publishSlot start i key) ∧
      (r.publishSlot start i key).pendingFrees = r.pendingFrees ∧
      (r.publishSlot start i key).dirty ∧
      ∀ q, (r.publishSlot start i key).slotAt q
        = if q = (start, i) then some (e, key) else r.slotAt q := by
  obtain ⟨s, hs, hslot, rfl⟩ := slotAt_eq_some.mp hp
  obtain ⟨ht, hshape, hslots⟩ := setKey_spec (h.slab start s hs).wf hslot key
  have hins := h.insert_slab hs ht hshape
  have heq : r.publishSlot start i key
      = { r with slabs := r.slabs.insert start (s.setKey i key), dirty := true } := by
    rw [publishSlot, hs]
  rw [heq]
  exact ⟨hins.set_marks true _, ⟨rfl, rfl, rfl, rfl, rfl⟩, rfl, rfl,
    slotAt_insert_slot hs hshape.element hslots⟩

/-- The slot found for an offset holds an extent and starts there. -/
theorem findExtent_spec (hf : r.findExtent offset = .ok (start, s, i)) :
    r.slabs.get? start = some s ∧ offset = start + i * s.elementSize ∧
      ∃ k, k ≠ freeKey ∧ s.slot i = some k := by
  unfold findExtent at hf
  split at hf
  · cases hf
  rename_i a t hfloor
  split_ifs at hf with hc
  split at hf
  · cases hf
  rename_i j hslot
  split_ifs at hf with hk
  cases hf
  obtain ⟨hget, -⟩ := floor?_eq_some hfloor
  obtain ⟨hj, hoff⟩ := slotForOffset_eq_some hslot
  rw [slotOffset, (h.slab start s hget).start_eq] at hoff
  simp only [Bool.or_eq_true, Bool.not_eq_true', beq_iff_eq, not_or, Bool.not_eq_false] at hk
  exact ⟨hget, hoff, s.getKey i, hk.2, slot_eq_some.mpr ⟨⟨hj, hk.1⟩, rfl⟩⟩

/-- **Removing.** The slot of the extent loses its key, stays allocated, and is noted for later. -/
theorem removeExtentByOffset_spec (hr : r.removeExtentByOffset offset = .ok t) :
    t.WellFormed ∧ r.SameRegion t ∧ t.dirty ∧
      ∃ p e k, offset = p.1 + p.2 * e ∧ r.slotAt p = some (e, k) ∧ k ≠ freeKey ∧
        t.pendingFrees = r.pendingFrees ++ [p] ∧
        ∀ q, t.slotAt q = if q = p then some (e, freeKey) else r.slotAt q := by
  unfold removeExtentByOffset at hr
  cases hf : r.findExtent offset with
  | error _ => rw [hf] at hr; cases hr
  | ok v =>
    obtain ⟨start, s, i⟩ := v
    rw [hf] at hr
    cases hr
    obtain ⟨hs, hoff, k, hk, hslot⟩ := findExtent_spec h hf
    obtain ⟨ht, hshape, hslots⟩ := setKey_spec (h.slab start s hs).wf hslot freeKey
    have hins := h.insert_slab hs ht hshape
    exact ⟨hins.set_marks true _, ⟨rfl, rfl, rfl, rfl, rfl⟩, rfl, (start, i), s.elementSize, k,
      hoff, slotAt_eq_some.mpr ⟨s, hs, hslot, rfl⟩, hk, rfl,
      slotAt_insert_slot hs hshape.element hslots⟩

/-- The offset of a published extent leads back to its slot, so that it can be removed. -/
theorem removeExtentByOffset_of_slotAt {p : ℕ × ℕ}
    (hp : r.slotAt p = some (e, k)) (hk : k ≠ freeKey) :
    ∃ t, r.removeExtentByOffset (p.1 + p.2 * e) = .ok t := by
  obtain ⟨s, hs, hslot, rfl⟩ := slotAt_eq_some.mp hp
  have hok := h.slab _ s hs
  have hpos := hok.wf.element_pos
  obtain ⟨⟨hi, hset⟩, rfl⟩ := slot_eq_some.mp hslot
  have hwithin := h.slot_within_slab hp
  simp only [Seg.Within, slotBytes] at hwithin
  -- the slab of the slot is the last one that starts at or before the offset
  have hfloor : r.slabs.floor? (p.1 + p.2 * s.elementSize) = some (p.1, s) := by
    refine floor?_of_greatest hs (Nat.le_add_right _ _) fun a t ht hle => ?_
    by_contra hlt
    have hdisj := h.slabs_disjoint hs ht (by omega)
    simp only [Seg.Disjoint] at hdisj
    omega
  have hoff : p.1 + p.2 * s.elementSize = s.slotOffset p.2 := by
    rw [slotOffset, hok.start_eq]
  have hcontains : s.containsOffset (p.1 + p.2 * s.elementSize) := by
    simp only [containsOffset, hok.start_eq, hok.size_eq, Bool.and_eq_true, decide_eq_true_eq]
    omega
  have hfind : r.findExtent (p.1 + p.2 * s.elementSize) = .ok (p.1, s, p.2) := by
    rw [findExtent, hfloor]
    dsimp only
    rw [hcontains, hoff, slotForOffset_slotOffset hpos hi]
    simp [hset, hk]
  exact ⟨_, by rw [removeExtentByOffset, hfind]; rfl⟩

end

theorem foldl_freeSlot_spec (ps : List (ℕ × ℕ)) (h : r.WellFormed) (hnodup : ps.Nodup)
    (hps : ∀ p ∈ ps, ∃ e k, r.slotAt p = some (e, k)) :
    r.Keeps (ps.foldl (fun r p => r.freeSlot p.1 p.2) r) ∧
      ∀ q, (ps.foldl (fun r p => r.freeSlot p.1 p.2) r).slotAt q
        = if q ∈ ps then none else r.slotAt q := by
  induction ps generalizing r with
  | nil => exact ⟨⟨h, refl r, rfl, rfl⟩, fun q => by simp⟩
  | cons p ps ih =>
    obtain ⟨hp, hnodup⟩ := nodup_cons.mp hnodup
    obtain ⟨e, k, hslot⟩ := hps p mem_cons_self
    obtain ⟨hk, hview⟩ := freeSlot_spec h hslot
    -- the other slots are still allocated
    have hrest : ∀ q ∈ ps, ∃ e k, (r.freeSlot p.1 p.2).slotAt q = some (e, k) := by
      intro q hq
      have hne : q ≠ p := fun heq => hp (heq ▸ hq)
      rw [hview, if_neg hne]
      exact hps q (mem_cons_of_mem _ hq)
    obtain ⟨hk', hview'⟩ := ih hk.wf hnodup hrest
    refine ⟨⟨hk'.wf, hk.same.trans hk'.same, hk'.dirty.trans hk.dirty,
      hk'.pending.trans hk.pending⟩, fun q => ?_⟩
    rw [foldl_cons, hview', hview]
    by_cases hq : q = p <;> simp [hq]

/-- **Flushing.** The pending slots become free. -/
theorem flushPendingFrees_spec (h : r.WellFormed) (hnodup : r.pendingFrees.Nodup)
    (hps : ∀ p ∈ r.pendingFrees, ∃ e k, r.slotAt p = some (e, k)) :
    r.flushPendingFrees.WellFormed ∧ r.SameRegion r.flushPendingFrees ∧
      r.flushPendingFrees.dirty = r.dirty ∧ r.flushPendingFrees.pendingFrees = [] ∧
      ∀ q, r.flushPendingFrees.slotAt q = if q ∈ r.pendingFrees then none else r.slotAt q := by
  obtain ⟨hk, hview⟩ := foldl_freeSlot_spec (r := { r with pendingFrees := [] }) r.pendingFrees
    (h.set_marks r.dirty []) hnodup hps
  exact ⟨hk.wf, ⟨hk.same.params, hk.same.range⟩, hk.dirty, hk.pending, hview⟩

end RegionState

end Certus.ExtentManager
