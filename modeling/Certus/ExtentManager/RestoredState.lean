import Certus.ExtentManager.DurableSlots

/-! # What a restart restores

A checkpoint that nothing else overlaps leaves all regions clean, and a restart after it rebuilds
them from the serialized ones. Extents and bitmaps come back; so do slabs that were serialized
without a published extent in them, and these keep their space.

* **`BuddyAllocator.WellFormed.totalFree_add`** — free bytes and handed out bytes make up the region.
* **`System.restart_restores`** — extents, bitmaps and free bytes after a checkpoint and a restart. -/

namespace Certus.ExtentManager

open List Option RegionState OrdMap

/-! ## Free bytes -/

namespace BuddyAllocator

/-- The bytes of the blocks in free lists of orders `k`, `k + 1`, ... -/
theorem sum_blocksFrom (u : ℕ) (fl : List (List ℕ)) (k : ℕ) :
    ((blocksFrom k fl).map fun b => span u b.1).sum
      = ((fl.zipIdx k).map fun (l, order) => l.length * (2 ^ order * u)).sum := by
  induction fl generalizing k with
  | nil => rfl
  | cons l fl ih =>
    rw [blocksFrom, map_append, sum_append, ih, zipIdx_cons, map_cons, sum_cons, List.map_map]
    congr 1
    show (l.map fun _ => span u k).sum = l.length * (2 ^ k * u)
    rw [map_const', sum_replicate_nat, span]

/-- **Free bytes.** Free blocks and blocks handed out make up the whole sectors of the region. -/
theorem WellFormed.totalFree_add {b : BuddyAllocator} {out : List Block} (h : b.WellFormed out) :
    b.totalFree + (out.map fun x => span b.sectorSize x.1).sum
      = b.totalUsableSize / b.sectorSize * b.sectorSize := by
  have hsum := h.tiling.tiles.sum_length fun x hx => by
    obtain ⟨y, -, rfl⟩ := List.mem_map.mp hx
    exact span_pos h.sector_pos y.1
  rw [List.map_map, map_append, sum_append] at hsum
  rw [← hsum]
  congr 1
  exact (sum_blocksFrom b.sectorSize b.freeLists 0).symm

end BuddyAllocator

namespace RegionState

/-- The slabs that hold a published extent. -/
def usedSlabs (r : RegionState) : List Slab := r.slabs.values.filter fun s => !s.occupied.isEmpty

/-- The bytes of the region's whole sectors. -/
def usableBytes (r : RegionState) : ℕ :=
  r.buddy.totalUsableSize / r.buddy.sectorSize * r.buddy.sectorSize

/-- Nothing but slabs with a published extent takes space. -/
def Compact (r : RegionState) : Prop :=
  r.buddy.totalFree = r.usableBytes - r.usedSlabs.length * span r.buddy.sectorSize r.slabOrder

/-- Every slab holds a published extent. -/
def Filled (r : RegionState) : Prop := ∀ s ∈ r.slabs.values, s.occupied ≠ []

instance (r : RegionState) : Decidable r.Filled :=
  inferInstanceAs (Decidable (∀ s ∈ r.slabs.values, s.occupied ≠ []))

variable {r : RegionState}

/-- **Slabs without a published extent take space.** -/
theorem compact_iff (h : r.buddy.WellFormed r.slabBlocks) : r.Compact ↔ r.Filled := by
  have hfree := h.totalFree_add
  have hblocks : (r.slabBlocks.map fun x => span r.buddy.sectorSize x.1).sum
      = r.slabs.values.length * span r.buddy.sectorSize r.slabOrder := by
    rw [slabBlocks, List.map_map]
    show (r.slabs.keys.map fun _ => span r.buddy.sectorSize r.slabOrder).sum = _
    rw [map_const', sum_replicate_nat]
    congr 1
    simp [OrdMap.keys, OrdMap.values]
  have hpos := span_pos h.sector_pos r.slabOrder
  have hle : r.usedSlabs.length ≤ r.slabs.values.length := length_filter_le _ _
  have hmul := Nat.mul_le_mul_right (span r.buddy.sectorSize r.slabOrder) hle
  have hall : r.Filled ↔ r.usedSlabs.length = r.slabs.values.length := by
    rw [Filled, usedSlabs, length_filter_eq_length_iff]
    simp
  rw [hall, Compact, usableBytes]
  rw [hblocks] at hfree
  constructor
  · intro heq
    have hsame : r.usedSlabs.length * span r.buddy.sectorSize r.slabOrder
        = r.slabs.values.length * span r.buddy.sectorSize r.slabOrder := by omega
    exact Nat.eq_of_mul_eq_mul_right hpos hsame
  · intro heq
    rw [heq]
    omega

theorem filled_iff (h : r.WellFormed) :
    r.Filled ↔ ∀ start ∈ r.slabs.keys, ∃ i v, publishedSlot (r.slotAt (start, i)) = some v := by
  constructor
  · intro hfilled start hstart
    obtain ⟨s, hs⟩ := mem_keys.mp hstart
    obtain ⟨i, hi⟩ := exists_mem_of_ne_nil _ (hfilled s (mem_values.mpr ⟨start, hs⟩))
    obtain ⟨k, hk, hne⟩ := (Slab.mem_occupied (h.slab start s hs).wf).mp hi
    exact ⟨i, (s.elementSize, k),
      publishedSlot_eq_some.mpr ⟨slotAt_eq_some.mpr ⟨s, hs, hk, rfl⟩, hne⟩⟩
  · intro hall s hmem
    obtain ⟨start, hs⟩ := mem_values.mp hmem
    obtain ⟨i, ⟨e, k⟩, hv⟩ := hall start (mem_keys.mpr ⟨s, hs⟩)
    obtain ⟨hslot, hne⟩ := publishedSlot_eq_some.mp hv
    obtain ⟨s', hs', hk, -⟩ := slotAt_eq_some.mp hslot
    rw [hs] at hs'
    cases hs'
    exact ne_nil_of_mem ((Slab.mem_occupied (h.slab start s hs).wf).mpr ⟨k, hk, hne⟩)

/-- A bit is set exactly where there is a key. -/
def BitsMatchKeys (r : RegionState) : Prop :=
  ∀ s ∈ r.slabs.values, ∀ i < s.numSlots, s.bitmap.isSet i ↔ s.getKey i ≠ freeKey

end RegionState

/-- Without reservations and pending frees the bits are those of the keys. -/
theorem Cell.Inv.bitsMatchKeys {x : Cell} (hx : x.Inv) (hheld : x.held = []) :
    x.region.BitsMatchKeys := by
  intro s hmem i hi
  obtain ⟨start, hs⟩ := mem_values.mp hmem
  constructor
  · intro hset hfree
    have hslot : x.region.slotAt (start, i) = some (s.elementSize, freeKey) :=
      slotAt_eq_some.mpr ⟨s, hs, Slab.slot_eq_some.mpr ⟨⟨hi, hset⟩, hfree⟩, rfl⟩
    have := hx.complete _ _ hslot
    rw [hheld] at this
    cases this
  · exact Slab.WellFormed.isSet_of_getKey (hx.wf.slab start s hs).wf hi

namespace System

variable {c : BlockDeviceClient} {sb : Superblock}

/-! ## Dirty regions -/

/-- Some region is dirty. -/
def AnyDirty (s : System c) : Prop := ∃ x ∈ s.cells, x.region.dirty

instance (s : System c) : Decidable s.AnyDirty :=
  inferInstanceAs (Decidable (∃ x ∈ s.cells, x.region.dirty))

variable {s t : System c} {i k : ℕ} {Q R : RegionState → Cell → Prop} {a : Action}

theorem not_anyDirty : ¬ s.AnyDirty ↔ ∀ x ∈ s.cells, x.region.dirty = false := by
  simp [AnyDirty]

/-- While the device is behind the manager, and while a checkpoint is being written, some region is
dirty. -/
structure Noted (s : System c) : Prop where
  behind : s.diskSeq ≠ s.memSeq → s.AnyDirty
  running : match s.phase with
    | .idle | .scan _ => True
    | .serialize .. | .writeCopy .. | .writeSuperblock .. => s.AnyDirty
    | .clear _ => s.diskSeq = s.memSeq

/-- When the superblock is written, its checkpoint is the durable one. -/
theorem DiskInv.durable_of_written (hl : Layout c sb) (h : DiskInv sb s) {snaps : List RegionState}
    (hphase : s.phase = .writeSuperblock [] snaps) : s.durable = ⟨s.shared.superblock, snaps⟩ := by
  have hok := h.phase
  simp only [WriteOk, hphase] at hok
  obtain ⟨-, -, m, htodo, hdur⟩ := hok
  apply hdur
  have hlen := drop_eq_nil_iff.mp htodo.symm
  have hpos := hl.superblock_pos
  rw [← (hl.length_serialize s.shared.superblock).2] at hpos
  simp only [BlockDeviceClient.sectorWrites, length_map, length_range] at hlen
  omega

theorem AnyDirty.set (h : s.AnyDirty) {x y : Cell} (hx : s.cells[i]? = some x)
    (hxy : x.region.dirty → y.region.dirty) : ∃ z ∈ s.cells.set i y, z.region.dirty := by
  obtain ⟨z, hz, hdirty⟩ := h
  obtain ⟨j, hj⟩ := mem_iff_getElem?.mp hz
  by_cases hij : i = j
  · subst hij
    rw [hx] at hj
    cases hj
    have hlt := (List.getElem?_eq_some_iff.mp hx).1
    exact ⟨y, mem_of_getElem? (getElem?_set_self hlt), hxy hdirty⟩
  · refine ⟨z, mem_of_getElem? (i := j) ?_, hdirty⟩
    rw [getElem?_set_ne hij, hj]

section

variable (hl : Layout c sb) (hgood : Good sb R Q s) (hd : DiskInv sb s) (h : s.Noted)
include hl hgood hd h

/-- **One step** keeps the note. -/
theorem Noted.step (hfind : FindsDurable s a) (hmove : Moves s a t) : t.Noted := by
  have hrun := h.running
  cases hmove with
  | @cell _ i b x y htarget hx hstep =>
    have hinv := (hgood.inv.cell i x hx).1
    have hset : s.AnyDirty → ∃ z ∈ s.cells.set i y, z.region.dirty := fun hany =>
      hany.set hx fun hdirty => by
        rcases (Cell.step_effect hinv hstep).same_or_dirty hinv with ⟨heq, -⟩ | ⟨heq, -⟩
        · rw [heq, hdirty]
        · exact heq
    refine ⟨fun hne => hset (h.behind hne), ?_⟩
    show match s.phase with
      | .idle | .scan _ => True
      | .serialize .. | .writeCopy .. | .writeSuperblock .. => _
      | .clear _ => s.diskSeq = s.memSeq
    split
    · trivial
    · trivial
    · rename_i hphase
      rw [hphase] at hrun
      exact hset hrun
    · rename_i hphase
      rw [hphase] at hrun
      exact hset hrun
    · rename_i hphase
      rw [hphase] at hrun
      exact hset hrun
    · rename_i hphase
      rw [hphase] at hrun
      exact hrun
  | nowhere => exact h
  | enter hphase | clean hphase hall | scanned hphase hx hdirty | done hphase hall | fail =>
    exact ⟨h.behind, trivial⟩
  | start hphase hx hdirty => exact ⟨h.behind, _, mem_of_getElem? hx, hdirty⟩
  | serialize hphase hx | writeCopy hphase =>
    rw [hphase] at hrun
    exact ⟨h.behind, hrun⟩
  | prepare hphase hall =>
    rw [hphase] at hrun
    obtain ⟨-, -, ⟨e, hfail⟩ | ⟨-, hprep⟩⟩ := hd.prepareCopy_cases hgood.frame hphase hall
    · rw [hfail]
      exact ⟨h.behind, trivial⟩
    · rw [hprep]
      exact ⟨h.behind, hrun⟩
  | flip hphase | writeSuperblock hphase =>
    rw [hphase] at hrun
    exact ⟨fun _ => hrun, hrun⟩
  | written hphase =>
    exact ⟨h.behind, congrArg (fun d => d.superblock.checkpointSeq.toNat)
      (hd.durable_of_written hl hphase)⟩
  | clear hphase hx =>
    rw [hphase] at hrun
    exact ⟨fun hne => absurd hrun hne, hrun⟩
  | restart hrecover =>
    have heq := hrecover.symm.trans (hfind rfl)
    cases heq
    exact ⟨fun hne => absurd rfl hne, trivial⟩

/-- With all regions clean, `recover` finds the durable checkpoint. -/
theorem Noted.recover_eq (hclean : ¬ s.AnyDirty) :
    recover c s.disk = .ok (s.durable.superblock, s.durable.regions.map describe) := by
  refine hd.recover_eq hl hgood.frame (.inr (.inl ?_))
  by_contra hne
  exact hclean (h.behind hne)

end

/-! ## A checkpoint that nothing overlaps -/

/-- The regions that are on the device after the next checkpoint: all of them are serialized if one
is dirty, and otherwise nothing is written. -/
def checkpointRegions (s : System c) : List RegionState :=
  if s.AnyDirty then s.cells.map Cell.region else s.durable.regions

/-- The regions in memory after the next checkpoint. -/
def checkpointCells (s : System c) : List Cell :=
  if s.AnyDirty then s.cells.map Cell.clear else s.cells

/-- Where a checkpoint is that was entered in `s` and runs alone. -/
def Alone (s t : System c) : Prop :=
  match t.phase with
  | .idle => t.result = some (.ok ()) →
      t.durable.regions = s.checkpointRegions ∧ t.cells = s.checkpointCells
  | .scan i => t.cells = s.cells ∧ t.durable = s.durable ∧
      ∀ x ∈ s.cells.take i, x.region.dirty = false
  | .serialize _ snaps => s.AnyDirty ∧ t.cells = s.cells ∧
      snaps = (s.cells.map Cell.region).take snaps.length
  | .writeCopy _ _ _ snaps => s.AnyDirty ∧ t.cells = s.cells ∧ snaps = s.cells.map Cell.region
  | .writeSuperblock _ snaps => s.AnyDirty ∧ t.cells = s.cells ∧ snaps = s.cells.map Cell.region
  | .clear i => s.AnyDirty ∧ t.durable.regions = s.cells.map Cell.region ∧
      ∀ j : ℕ, t.cells[j]? = s.cells[j]?.map fun x => if j < i then x.clear else x

/-- **One step** of a checkpoint that runs alone. -/
theorem Alone.step (hl : Layout c sb) {s t u : System c} (hgood : Good sb R Q t) (hd : DiskInv sb t)
    (h : Alone s t) (hmove : Moves t .next u) : Alone s u := by
  cases hmove with
  | cell htarget hx hstep => cases htarget
  | @clean i hphase hall =>
    simp only [Alone, hphase] at h
    obtain ⟨hcells, hdur, hclean⟩ := h
    rw [hcells, getElem?_eq_none_iff] at hall
    rw [take_of_length_le hall] at hclean
    have hno : ¬ s.AnyDirty := not_anyDirty.mpr hclean
    intro _
    rw [checkpointRegions, checkpointCells, if_neg hno, if_neg hno]
    exact ⟨congrArg Durable.regions hdur, hcells⟩
  | @scanned i x hphase hx hdirty =>
    simp only [Alone, hphase] at h
    obtain ⟨hcells, hdur, hclean⟩ := h
    refine ⟨hcells, hdur, fun y hy => ?_⟩
    rw [hcells] at hx
    rw [take_add_one, hx, mem_append] at hy
    rcases hy with hy | hy
    · exact hclean y hy
    · rw [toList_some, mem_singleton] at hy
      rw [hy, hdirty]
  | start hphase hx hdirty =>
    simp only [Alone, hphase] at h
    rw [h.1] at hx
    exact ⟨⟨_, mem_of_getElem? hx, hdirty⟩, h.1, by simp⟩
  | @serialize payload snaps x hphase hx =>
    simp only [Alone, hphase] at h
    obtain ⟨hany, hcells, hsnaps⟩ := h
    refine ⟨hany, hcells, ?_⟩
    rw [hcells] at hx
    rw [length_append, length_singleton, take_add_one, ← hsnaps, getElem?_map, hx]
    rfl
  | @prepare payload snaps hphase hall =>
    simp only [Alone, hphase] at h
    obtain ⟨hany, hcells, hsnaps⟩ := h
    rw [hcells, getElem?_eq_none_iff] at hall
    rw [take_of_length_le (by rwa [length_map])] at hsnaps
    rw [← getElem?_eq_none_iff, ← hcells] at hall
    obtain ⟨-, -, ⟨e, hfail⟩ | ⟨-, hprep⟩⟩ := hd.prepareCopy_cases hgood.frame hphase hall
    · rw [hfail]
      intro hok
      cases hok
    · rw [hprep]
      exact ⟨hany, hcells, hsnaps⟩
  | writeCopy hphase | flip hphase | writeSuperblock hphase =>
    simp only [Alone, hphase] at h
    exact h
  | written hphase =>
    have hdur := hd.durable_of_written hl hphase
    simp only [Alone, hphase] at h
    obtain ⟨hany, hcells, hsnaps⟩ := h
    refine ⟨hany, ?_, fun j => ?_⟩
    · show t.durable.regions = _
      rw [hdur, hsnaps]
    · show t.cells[j]? = _
      rw [hcells]
      cases s.cells[j]? with
      | none => rfl
      | some x => rw [map_some, if_neg (Nat.not_lt_zero j)]
  | @clear i x hphase hx =>
    simp only [Alone, hphase] at h
    obtain ⟨hany, hdur, hcells⟩ := h
    refine ⟨hany, hdur, fun j => ?_⟩
    by_cases hij : i = j
    · subst hij
      rw [getElem?_set_self (List.getElem?_eq_some_iff.mp hx).1]
      -- the cell is still as it was in `s`
      rw [hcells] at hx
      obtain ⟨y, hy, hxy⟩ := map_eq_some_iff.mp hx
      rw [if_neg (Nat.lt_irrefl i)] at hxy
      rw [hy, map_some, if_pos (Nat.lt_succ_self i), hxy]
    · rw [getElem?_set_ne hij, hcells]
      have hiff : j < i ↔ j < i + 1 := by omega
      simp only [hiff]
  | @done i hphase hall =>
    simp only [Alone, hphase] at h
    obtain ⟨hany, hdur, hcells⟩ := h
    intro _
    rw [checkpointRegions, checkpointCells, if_pos hany, if_pos hany]
    refine ⟨hdur, ext_getElem? fun j => ?_⟩
    have hlen : s.cells[i]? = none := by
      rw [hcells, map_eq_none_iff] at hall
      exact hall
    show t.cells[j]? = _
    rw [hcells, getElem?_map]
    cases hj : s.cells[j]? with
    | none => rfl
    | some x =>
      have hlt := (List.getElem?_eq_some_iff.mp hj).1
      have hle := getElem?_eq_none_iff.mp hlen
      rw [map_some, map_some, if_pos (lt_of_lt_of_le hlt hle)]

/-! ## Checkpoint and restart -/

/-- What every run keeps in which no extent is published or removed in the window of its region. -/
structure Tracked (sb : Superblock) (s : System c) : Prop where
  good : Good sb Cell.SamePublished (fun d x => x.region.dirty = false → Cell.SamePublished d x) s
  disk : DiskInv sb s
  noted : s.Noted

theorem Tracked.step (hl : Layout c sb) (hpow : sb.sectorSize.toNat = 2 ^ k)
    (hcount : 0 < sb.regionCount.toNat) (h : Tracked sb s) (hfits : Fits s a)
    (hquiet : Quietly Cell.SameExtents s a) (hstep : s.step a = some t) : Tracked sb t := by
  have hfind := h.disk.finds hl h.good.frame hstep
  have hmove := step_moves hstep
  exact ⟨h.good.step hl.sector_pos (same_laws hpow hcount) hquiet hfind hstep,
    h.disk.step hl h.good hfits hmove, h.noted.step hl h.good h.disk hfind hmove⟩

theorem tracked_of_run {numSectors randomId : UInt64} {params : FormatParams} {m : Manager}
    (hdev : Device c params) (hformat : format c numSectors randomId params = .ok m)
    {d : Disk c.sectorSize} {as : List Action}
    (hrun : Run System.step (fun s a => Fits s a ∧ Quietly Cell.SameExtents s a)
      (formatted d m) as s) : Tracked m.shared.superblock s := by
  have hl := layout_of_format hformat hdev
  obtain ⟨⟨k, hpow⟩, hcount⟩ := volume_of_format hformat hdev
  refine hrun.invariant (I := fun t => Tracked m.shared.superblock t) ?_
    fun t a u ht hguard hstep => ht.step hl hpow hcount hguard.1 hguard.2 hstep
  exact ⟨formatted_good hformat d (same_laws hpow hcount), formatted_diskInv hformat hl d,
    fun hne => absurd rfl hne, trivial⟩

/-- **A checkpoint that runs alone and returns `Ok`** has cleaned all regions. -/
theorem Tracked.checkpoint (hl : Layout c sb) (hpow : sb.sectorSize.toNat = 2 ^ k)
    (hcount : 0 < sb.regionCount.toNat) {s s' t : System c} (h : Tracked sb s)
    (henter : s.step .checkpoint = some s') {bs : List Action}
    (hrun : Run System.step (fun s a => Fits s a ∧ a = .next) s' bs t) (hidle : t.phase = .idle)
    (hok : t.result = some (.ok ())) :
    Tracked sb t ∧ ¬ t.AnyDirty ∧ t.durable.regions = s.checkpointRegions ∧
      t.cells = s.checkpointCells := by
  have hquiet : ∀ (u : System c) (a : Action), u.target a = none →
      Quietly Cell.SameExtents u a := fun u a ha i b x hb => by
    rw [ha] at hb
    cases hb
  have hs' := h.step hl hpow hcount (show Fits s .checkpoint from trivial) (hquiet s _ rfl) henter
  have hscan : s' = { s with phase := .scan 0 } := by
    cases step_moves henter with
    | cell htarget hx hstep => cases htarget
    | enter hphase => rfl
  obtain ⟨ht, halone⟩ := hrun.invariant (I := fun u => Tracked sb u ∧ Alone s u)
    ⟨hs', by subst hscan; exact ⟨rfl, rfl, fun x hx => by simp at hx⟩⟩
    fun u a v hu hguard hstep => by
      obtain ⟨hfits, rfl⟩ := hguard
      exact ⟨hu.1.step hl hpow hcount hfits (hquiet u _ rfl) hstep,
        hu.2.step hl hu.1.good hu.1.disk (step_moves hstep)⟩
  simp only [Alone, hidle] at halone
  obtain ⟨hdur, hcells⟩ := halone hok
  refine ⟨ht, not_anyDirty.mpr fun x hx => ?_, hdur, hcells⟩
  rw [hcells, checkpointCells] at hx
  split_ifs at hx with hany
  · obtain ⟨y, hy, rfl⟩ := mem_map.mp hx
    obtain ⟨i, hi⟩ := mem_iff_getElem?.mp hy
    exact (h.good.inv.cell i y hi).1.clear_slots.2.2.1
  · exact not_anyDirty.mp hany x hx

/-- A checkpoint does not change the extents in memory. -/
theorem Tracked.mem_checkpointCells (h : Tracked sb s) (e : Extent) :
    e ∈ s.checkpointCells.flatMap (·.region.extents) ↔ e ∈ s.getExtents := by
  rw [checkpointCells, getExtents]
  split_ifs with hany
  · refine mem_flatMap_congr (length_map _) fun i x y hx hy => ?_
    rw [getElem?_map, hy] at hx
    cases hx
    have hinv := (h.good.inv.cell i y hy).1
    exact mem_extents_congr hinv.clear_slots.1 hinv.wf hinv.clear_published e
  · rfl

theorem Tracked.restart (hl : Layout c sb) {s : System c} (h : Tracked sb s)
    (hclean : ¬ s.AnyDirty) :
    ∃ u, s.step .restart = some u ∧ u.cells = s.durable.regions.map (protocol sb).rebuild := by
  have hrec := h.noted.recover_eq hl h.good h.disk hclean
  have hcells : (initializeFrom s.durable.superblock
      (s.durable.regions.map describe)).regions.map (fun r => (⟨r, []⟩ : Cell))
        = s.durable.regions.map (protocol sb).rebuild := cells_initializeFrom h.good.frame.durable
    (h.good.inv.length_eq.trans h.good.frame.count) fun i r hr => (h.good.inv.durable i r hr).2
  have hstep : s.step .restart = some { s with
      cells := s.durable.regions.map (protocol sb).rebuild
      shared := (initializeFrom s.durable.superblock
        (s.durable.regions.map describe)).shared
      phase := .idle
      result := none } := by
    simp only [System.step, System.restart, hrec, hcells]
  exact ⟨_, hstep, rfl⟩

/-- **A rebuilt region.** -/
theorem rebuild_restores (hpow : sb.sectorSize.toNat = 2 ^ k) (hcount : 0 < sb.regionCount.toNat)
    {r : RegionState} (h : RegionOk sb i r) :
    (∀ e, e ∈ ((protocol sb).rebuild r).region.extents ↔ e ∈ r.extents) ∧
      ((protocol sb).rebuild r).region.BitsMatchKeys ∧
      (((protocol sb).rebuild r).region.Compact ↔ r.Filled) := by
  obtain ⟨⟨hinv, -⟩, -, hpend, hslots, hkeys, hblocks⟩ := rebuild_spec hpow hcount h
  have hsame : ∀ p, publishedSlot (((protocol sb).rebuild r).region.slotAt p)
      = publishedSlot (r.slotAt p) := by
    intro p
    rw [hslots, publishedSlot_idem]
  refine ⟨RegionState.mem_extents_congr hinv.wf h.1 hsame, hinv.bitsMatchKeys hpend, ?_⟩
  rw [compact_iff hblocks, filled_iff hinv.wf, filled_iff h.1]
  simp only [hkeys.mem_iff, hsame]

/-- **What a restart restores.** In a run in which no extent is published in or removed from a region
between its serialization and its clearing, let a checkpoint run alone and return `Ok`. Then a
restart succeeds. `get_extents` returns the same extents as before the checkpoint, bits are set
exactly where there are keys, and in each region the free bytes are what slabs with a published
extent leave over, exactly if every slab that the checkpoint left on the device has one. -/
theorem restart_restores {numSectors randomId : UInt64} {params : FormatParams} {m : Manager}
    (hdev : Device c params) (hformat : format c numSectors randomId params = .ok m)
    {d : Disk c.sectorSize} {as bs : List Action} {s s' t : System c}
    (hrun : Run System.step (fun s a => Fits s a ∧ Quietly Cell.SameExtents s a)
      (formatted d m) as s) (henter : s.step .checkpoint = some s')
    (hnext : Run System.step (fun s a => Fits s a ∧ a = .next) s' bs t)
    (hidle : t.phase = .idle) (hok : t.result = some (.ok ())) :
    ∃ u, t.step .restart = some u ∧ (∀ e, e ∈ u.getExtents ↔ e ∈ s.getExtents) ∧
      u.cells.length = s.checkpointRegions.length ∧
      ∀ (i : ℕ) x r, u.cells[i]? = some x → s.checkpointRegions[i]? = some r →
        x.region.BitsMatchKeys ∧ (x.region.Compact ↔ r.Filled) := by
  have hl := layout_of_format hformat hdev
  obtain ⟨⟨k, hpow⟩, hcount⟩ := volume_of_format hformat hdev
  have hs := tracked_of_run hdev hformat hrun
  obtain ⟨ht, hclean, hdur, hcells⟩ := hs.checkpoint hl hpow hcount henter hnext hidle hok
  obtain ⟨u, hu, hrebuilt⟩ := ht.restart hl hclean
  refine ⟨u, hu, fun e => ?_, ?_, fun i x r hx hr => ?_⟩
  · -- rebuilt regions, durable regions, regions after the checkpoint, regions before it
    have hdurable : e ∈ u.getExtents ↔ e ∈ t.durable.regions.flatMap RegionState.extents := by
      rw [getExtents, hrebuilt]
      refine mem_flatMap_congr (length_map _) fun i x r hx hr => ?_
      rw [getElem?_map, hr] at hx
      cases hx
      exact (rebuild_restores hpow hcount (ht.good.inv.durable i r hr)).1 e
    have hmem : e ∈ t.durable.regions.flatMap RegionState.extents ↔ e ∈ t.getExtents := by
      rw [← recordedExtents_describe]
      exact ht.good.mem_getExtents (fun i r x hr hx => ht.good.inv.kept i r x hr hx
        (not_anyDirty.mp hclean x (mem_of_getElem? hx))) e
    rw [hdurable, hmem, ← hs.mem_checkpointCells, getExtents, hcells]
  · rw [hrebuilt, length_map, hdur]
  · rw [hrebuilt, getElem?_map, hdur, hr] at hx
    cases hx
    rw [← hdur] at hr
    exact (rebuild_restores hpow hcount (ht.good.inv.durable i r hr)).2

instance : (a : Action) → Decidable (a = .next)
  | .next => isTrue rfl
  | .reserve .. | .publish .. | .abort .. | .remove _ | .checkpoint | .fail _ | .restart =>
    isFalse fun h => by cases h

/-- One extent is published. -/
def onePublished : List Action := [.reserve 0 4096, .publish 0 0]

/-- After a checkpoint of one extent and a restart the extent is there, and its slab is all that
takes space. -/
theorem one_published_restored :
    ∃ s s' t u x, Run System.step (fun s a => Fits s a ∧ Quietly Cell.SameExtents s a) smallSystem
        onePublished s ∧ s.step .checkpoint = some s' ∧
      Run System.step (fun s a => Fits s a ∧ a = .next) s' (replicate 11 .next) t ∧
      t.step .restart = some u ∧ s.getExtents = [⟨0, 0, 4096⟩] ∧
      (∀ e, e ∈ u.getExtents ↔ e ∈ s.getExtents) ∧ u.cells[0]? = some x ∧
      x.region.BitsMatchKeys ∧ x.region.Compact := by
  have hsome : ((checkedExec System.step (fun s a => Fits s a ∧ Quietly Cell.SameExtents s a)
      smallSystem onePublished).bind fun s => (s.step .checkpoint).bind fun s' =>
        (checkedExec System.step (fun s a => Fits s a ∧ a = .next) s'
          (replicate 11 .next)).map fun t =>
            (s.getExtents, decide (t.phase = .idle), t.result.bind Except.toOption,
              s.checkpointRegions.map fun r => decide r.Filled))
      = some ([⟨0, 0, 4096⟩], true, some (), [true, true]) := by decide +kernel
  obtain ⟨s, hs, hsome⟩ := bind_eq_some_iff.mp hsome
  obtain ⟨s', hs', hsome⟩ := bind_eq_some_iff.mp hsome
  obtain ⟨t, ht, heq⟩ := map_eq_some_iff.mp hsome
  simp only [Prod.mk.injEq, decide_eq_true_eq, bind_eq_some_iff] at heq
  obtain ⟨hextents, hidle, ⟨v, hv, hok⟩, hfilled⟩ := heq
  rw [ok_of_toOption hok] at hv
  have hrun := run_of_checkedExec hs
  have hnext := run_of_checkedExec ht
  obtain ⟨u, hu, hsame, hlen, hregion⟩ :=
    restart_restores smallDevice format_small hrun hs' hnext hidle hv
  -- the first region of the checkpoint
  have hcount : s.checkpointRegions.length = 2 := by
    simpa using congrArg length hfilled
  have hx := getElem?_eq_getElem (l := u.cells) (i := 0) (by omega)
  have hr := getElem?_eq_getElem (l := s.checkpointRegions) (i := 0) (by omega)
  have hfirst : decide (s.checkpointRegions[0]).Filled = true := by
    have h0 := congrArg (fun l => l[0]?) hfilled
    simp only [getElem?_map, hr, map_some] at h0
    exact some.inj h0
  obtain ⟨hbits, hcompact⟩ := hregion 0 _ _ hx hr
  exact ⟨s, s', t, u, _, hrun, hs', hnext, hu, hextents, hsame, hx, hbits,
    hcompact.mpr (of_decide_eq_true hfirst)⟩

/-- The extent is removed before the checkpoint. -/
def oneRemoved : List Action := onePublished ++ [.remove 0]

/-- **Space stays captured.** After a checkpoint and a restart there is no extent, but the slab of the
removed one still takes its two sectors. -/
theorem removed_slab_captured : ∃ s t u x, Run System.step anyStep smallSystem oneRemoved s ∧
      Run System.step anyStep s (.checkpoint :: replicate 11 .next) t ∧
      t.phase = .idle ∧ t.result = some (.ok ()) ∧ t.step .restart = some u ∧
      u.getExtents = [] ∧ u.cells[0]? = some x ∧ x.region.usedSlabs = [] ∧
      x.region.usableBytes = 32768 ∧ x.region.buddy.totalFree = 24576 := by
  have hsome : ((exec System.step smallSystem oneRemoved).bind fun s =>
      (exec System.step s (.checkpoint :: replicate 11 .next)).bind fun t =>
        (t.step .restart).bind fun u => u.cells[0]?.map fun x =>
          (decide (t.phase = .idle), t.result.bind Except.toOption, u.getExtents,
            x.region.usedSlabs.length, x.region.usableBytes, x.region.buddy.totalFree))
      = some (true, some (), [], 0, 32768, 24576) := by decide +kernel
  obtain ⟨s, hs, hsome⟩ := bind_eq_some_iff.mp hsome
  obtain ⟨t, ht, hsome⟩ := bind_eq_some_iff.mp hsome
  obtain ⟨u, hu, hsome⟩ := bind_eq_some_iff.mp hsome
  obtain ⟨x, hx, heq⟩ := map_eq_some_iff.mp hsome
  simp only [Prod.mk.injEq, decide_eq_true_eq, bind_eq_some_iff] at heq
  obtain ⟨hidle, ⟨v, hv, hok⟩, hextents, hused, husable, hfree⟩ := heq
  rw [ok_of_toOption hok] at hv
  exact ⟨s, t, u, x, run_of_exec hs, run_of_exec ht, hidle, hv, hu, hextents, hx,
    length_eq_zero_iff.mp hused, husable, hfree⟩

end System

end Certus.ExtentManager
