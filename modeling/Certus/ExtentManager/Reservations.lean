import Certus.ExtentManager.Placement
import Certus.ExtentManager.RestoredState

/-! # Reserving and finding extents

What `reserve_extent` promises its caller, and how `remove_extent` finds the region of an offset.

* **`System.reserve_total`** — in every run, for sizes whose rounding neither is zero nor wraps.
* **`System.region_of_extent_iff`** — which extents `region_for_offset` finds. -/

namespace Certus.ExtentManager

open Option RegionState

/-! ## Reserving -/

/-- Below the end of the 32-bit numbers, sizes are rounded up to whole sectors. -/
theorem toNat_alignToSectorSize {size sector : UInt32} (hpos : 0 < sector.toNat)
    (hfit : size.toNat + sector.toNat ≤ 2 ^ 32) :
    (alignToSectorSize size sector).toNat = nextMultipleOf size.toNat sector.toNat := by
  have hsum : (size + sector - 1).toNat = size.toNat + sector.toNat - 1 := by
    rw [UInt32.toNat_sub, UInt32.toNat_add, UInt32.toNat_one]
    omega
  have hle := Nat.div_mul_le_self (size.toNat + sector.toNat - 1) sector.toNat
  rw [alignToSectorSize, UInt32.toNat_mul, UInt32.toNat_div, hsum, nextMultipleOf,
    Nat.mod_eq_of_lt (by omega)]

/-- A block that is handed out and given back leaves the free bytes as they were. -/
theorem BuddyAllocator.totalFree_free_alloc {b b' : BuddyAllocator} {out : List Block}
    {size off : ℕ} (hb : b.WellFormed out) (hdvd : b.sectorSize ∣ size)
    (h : b.alloc size = some (off, b')) : (b'.free off size).totalFree = b.totalFree := by
  obtain ⟨hsame, x, rfl, hb'⟩ := alloc_spec hb h
  obtain ⟨n, rfl⟩ := hdvd
  have hpos := hb.sector_pos
  have hround : (b.sectorSize * n + b.sectorSize - 1) / b.sectorSize = n := by
    rw [Nat.add_sub_assoc hpos, Nat.mul_add_div hpos, Nat.div_eq_of_lt (by omega), Nat.add_zero]
  rw [hround, ← Nat.mul_div_cancel_left n hpos, ← hsame.sector] at hb'
  obtain ⟨hsame', hfree⟩ := free_spec hb'
  have hfirst := hb.totalFree_add
  have hlast := hfree.totalFree_add
  rw [hsame'.total, hsame'.sector, hsame.total, hsame.sector, hsame.base] at hlast
  exact Nat.add_right_cancel (hlast.trans hfirst.symm)

/-- A new slab that is refused leaves the free bytes as they were; only slots of no bytes make the
call panic. -/
theorem RegionState.allocNewSlab_fails {r t : RegionState} (h : r.WellFormed) {n : ℕ}
    {out : Outcome (ℕ × ℕ × ℕ)} (hnew : r.allocNewSlab n = (out, t)) :
    (∀ e, out = .err e → t.buddy.totalFree = r.buddy.totalFree) ∧ (out = .panicked → n = 0) := by
  unfold allocNewSlab at hnew
  dsimp only at hnew
  split at hnew
  · cases hnew
    exact ⟨fun _ _ => rfl, nofun⟩
  split at hnew
  · cases hnew
    exact ⟨fun _ _ => rfl, nofun⟩
  rename_i off b halloc
  split at hnew
  · rename_i hzero
    cases hnew
    exact ⟨nofun, fun _ => hzero⟩
  split at hnew <;> cases hnew
  · obtain ⟨leaked, hb⟩ := h.blocks
    exact ⟨fun _ _ => BuddyAllocator.totalFree_free_alloc hb (h.sector_eq ▸ h.sector_dvd) halloc,
      nofun⟩
  · exact ⟨nofun, nofun⟩

/-- A reservation that is refused leaves the free bytes as they were; only a rounded size of zero
makes the call panic. -/
theorem RegionState.allocExtent_fails {r t : RegionState} (h : r.WellFormed) {size : UInt32}
    {out : Outcome (ℕ × ℕ × ℕ)} (hall : r.allocExtent size = (out, t)) :
    (∀ e, out = .err e → t.buddy.totalFree = r.buddy.totalFree) ∧
      (out = .panicked → (alignToSectorSize size r.formatParams.sectorSize).toNat = 0) := by
  unfold allocExtent at hall
  dsimp only at hall
  revert hall
  generalize (alignToSectorSize size r.formatParams.sectorSize).toNat = n
  obtain ⟨hk, hres⟩ := allocFromClass_spec n (r.sizeClasses.getSlabs n).length h
  revert hk hres
  generalize allocFromClass n (r.sizeClasses.getSlabs n).length r = v
  obtain ⟨res, u⟩ := v
  cases res with
  | some res =>
    intro _ _ hall
    cases hall
    exact ⟨nofun, nofun⟩
  | none =>
    rintro hk ⟨-, hbuddy⟩ hall
    rw [← show u.buddy = r.buddy from hbuddy]
    exact allocNewSlab_fails hk.wf hall

/-- What a reservation of `size` bytes promises: an extent of whole sectors that is large enough, or
an error that changed neither the slots in use nor the free bytes. -/
def Cell.ReservesOrKeeps (x y : Cell) (sector size : ℕ) : Outcome WriteHandle → Prop
  | .ok h => sector ∣ h.alignedSize.toNat ∧ size ≤ h.alignedSize.toNat
  | .err _ => (∀ q, y.region.slotAt q = x.region.slotAt q) ∧
      y.region.buddy.totalFree = x.region.buddy.totalFree
  | .panicked => False

namespace System

variable {c : BlockDeviceClient}

/-- **Reservations are total and atomic on failure.** For all parameters that `format` accepts with a
power of two as sector size, in every state of every run, also across restarts from the last durable
checkpoint: a reservation of at least one byte whose rounding stays below `2 ^ 32` returns an extent
of whole sectors that is large enough, or an error without effect. -/
theorem reserve_total {numSectors randomId : UInt64} {params : FormatParams} {m : Manager} {k : ℕ}
    (hc : 0 < c.sectorSize) (hformat : format c numSectors randomId params = .ok m)
    (hpow : params.sectorSize.toNat = 2 ^ k) {d : Disk c.sectorSize} {as : List Action}
    {s : System c} (hrun : Run System.step FindsDurable (formatted d m) as s) {i : ℕ} {x : Cell}
    (hx : s.cells[i]? = some x) (key : UInt64) {size : UInt32} (hsize : 0 < size.toNat)
    (hfit : size.toNat + params.sectorSize.toNat ≤ 2 ^ 32) :
    x.ReservesOrKeeps (x.reserve key size).2 params.sectorSize.toNat size.toNat
      (x.reserve key size).1 := by
  obtain ⟨hpos, -, hcount, hsb, -, -, -, -, -⟩ := format_ok hformat
  have hpow' : m.shared.superblock.sectorSize.toNat = 2 ^ k := by rw [hsb]; exact hpow
  have hcount' : 0 < m.shared.superblock.regionCount.toNat := by rw [hsb]; exact hcount
  have hgood := good_of_run hc hformat (trivial_laws hpow' hcount')
    (fun s a h => ⟨fun _ _ _ _ _ _ => trivial, h⟩) hrun
  obtain ⟨hinv, hplaced⟩ := hgood.inv.cell i x hx
  have hsector : x.region.formatParams.sectorSize = params.sectorSize := by
    rw [hplaced.sector, hsb]
    rfl
  have halign := toNat_alignToSectorSize hpos hfit
  obtain ⟨hdvd, hle, -⟩ := @nextMultipleOf_spec size.toNat _ hpos
  obtain ⟨hkeeps, hres⟩ := allocExtent_spec hinv.wf size
  rw [Cell.reserve]
  cases hall : x.region.allocExtent size with
  | mk out r =>
    rw [hall] at hkeeps hres
    cases out with
    | ok v =>
      have hparams : r.formatParams.sectorSize = params.sectorSize := by
        rw [show r.formatParams = x.region.formatParams from hkeeps.same.params, hsector]
      show _ ∣ (alignToSectorSize size r.formatParams.sectorSize).toNat ∧
        _ ≤ (alignToSectorSize size r.formatParams.sectorSize).toNat
      rw [hparams, halign]
      exact ⟨hdvd, hle⟩
    | err e => exact ⟨hres, (RegionState.allocExtent_fails hinv.wf hall).1 e rfl⟩
    | panicked =>
      have hzero := (RegionState.allocExtent_fails hinv.wf hall).2 rfl
      rw [hsector, halign] at hzero
      omega

/-- A reservation of one byte on the small volume. -/
theorem reserve_total_one_byte : ∃ x h, smallSystem.cells[0]? = some x ∧ (x.reserve 0 1).1 = .ok h ∧
      4096 ∣ h.alignedSize.toNat ∧ 1 ≤ h.alignedSize.toNat := by
  have hsome : (smallSystem.cells[0]?.map fun x => (x.reserve 0 1).1)
      = some (.ok ⟨0, 0, 0, 0, 4096⟩) := by decide +kernel
  obtain ⟨x, hx, hok⟩ := map_eq_some_iff.mp hsome
  have h := reserve_total (k := 12) (by decide) format_small rfl (Run.nil smallSystem) hx 0
    (show 0 < (1 : UInt32).toNat by decide) (by decide)
  rw [hok] at h
  exact ⟨x, _, hx, hok, h⟩

/-- **Sizes at both ends of the range.** A reservation of no bytes, and one whose rounding wraps
around, panics after it has taken a block, which is lost. -/
theorem reserve_panics : ∃ x, smallSystem.cells[0]? = some x ∧ (x.reserve 0 0).1 = .panicked ∧
      (x.reserve 0 0xFFFFFFFF).1 = .panicked ∧
      (x.reserve 0 0).2.region.buddy.totalFree + 8192 = x.region.buddy.totalFree := by
  have hsome : (smallSystem.cells[0]?.map fun x => ((x.reserve 0 0).1, (x.reserve 0 0xFFFFFFFF).1,
      (x.reserve 0 0).2.region.buddy.totalFree + 8192 == x.region.buddy.totalFree))
      = some (.panicked, .panicked, true) := by decide +kernel
  obtain ⟨x, hx, hend⟩ := map_eq_some_iff.mp hsome
  obtain ⟨h0, hrest⟩ := Prod.mk.inj hend
  obtain ⟨h1, hfree⟩ := Prod.mk.inj hrest
  exact ⟨x, hx, h0, h1, beq_iff_eq.mp hfree⟩

/-! ## The region of an extent -/

/-- An offset at or after the start of region `i` leads to that region exactly if it lies in the
first `usable / region_count` bytes of it. -/
theorem regionForOffset_eq_ok {shared : SharedState} {n off i bytes : ℕ}
    (hbytes : bytes = (shared.formatParams.dataDiskSize
      - shared.superblock.dataStartOffset).toNat / n) (hi : i < n)
    (hle : shared.superblock.dataStartOffset.toNat + i * bytes ≤ off) :
    regionForOffset shared n off = .ok i ↔
      off < shared.superblock.dataStartOffset.toNat + (i + 1) * bytes := by
  rw [regionForOffset, ← hbytes]
  dsimp only
  rcases Nat.eq_zero_or_pos bytes with hzero | hpos
  · rw [if_pos hzero]
    constructor
    · exact nofun
    · intro h
      rw [hzero] at h hle
      omega
  rw [if_neg (Nat.pos_iff_ne_zero.mp hpos)]
  have hdiv : (off - shared.superblock.dataStartOffset.toNat) / bytes = i ↔
      off < shared.superblock.dataStartOffset.toNat + (i + 1) * bytes := by
    rw [Nat.div_eq_iff hpos, Nat.succ_mul]
    omega
  rw [← hdiv]
  split_ifs with hge
  · constructor
    · exact nofun
    · intro h
      omega
  · exact ⟨fun h => Except.ok.inj h, fun h => congrArg Except.ok h⟩

/-- Without restarts, the place of the data area does not change. -/
theorem shared_of_run {m : Manager} {d : Disk c.sectorSize} {as : List Action} {s : System c}
    (hrun : Run System.step (fun _ a => a ≠ .restart) (formatted d m) as s) :
    SameVolume m.shared.superblock s.shared.superblock ∧
      s.shared.formatParams = m.shared.formatParams := by
  refine hrun.invariant (I := fun t => SameVolume m.shared.superblock t.shared.superblock ∧
    t.shared.formatParams = m.shared.formatParams) ⟨⟨_, _, rfl⟩, rfl⟩ fun t a u ht hguard hstep => ?_
  cases step_moves hstep with
  | flip hphase =>
      obtain ⟨⟨copy, seq, hsb⟩, hparams⟩ := ht
      exact ⟨⟨_, _, by rw [flipCopy, hsb]⟩, hparams⟩
  | prepare hphase hall =>
      unfold prepareCopy
      dsimp only
      split_ifs <;> exact ht
  | restart hrecover => exact absurd rfl hguard
  | _ => exact ht

/-- **The offset of an extent leads back to its region.** In every run without restarts, for every
extent handed out: `region_for_offset` returns the region that allocated it, and the extent can be
removed if it is published, exactly if it starts in the first `usable / region_count` bytes of its
region. -/
theorem region_of_extent_iff {numSectors randomId : UInt64} {params : FormatParams} {m : Manager}
    (hformat : format c numSectors randomId params = .ok m) {d : Disk c.sectorSize}
    {as : List Action} {s : System c}
    (hrun : Run System.step (fun _ a => a ≠ .restart) (formatted d m) as s) {i : ℕ} {x : Cell}
    (hx : s.cells[i]? = some x) {p : ℕ × ℕ} {e : ℕ} {k : UInt64}
    (hp : x.region.slotAt p = some (e, k)) :
    (regionForOffset s.shared s.cells.length (p.1 + p.2 * e) = .ok i ∧
      (k ≠ freeKey → ∃ r, x.region.removeExtentByOffset (p.1 + p.2 * e) = .ok r)) ↔
    p.1 + p.2 * e < m.shared.superblock.dataStartOffset.toNat + (i + 1) *
      ((params.dataDiskSize - m.shared.superblock.dataStartOffset).toNat
        / params.regionCount.toNat) := by
  obtain ⟨-, -, -, hsb, hparams, -, -, hstart, -⟩ := format_ok hformat
  obtain ⟨hlen, hcells⟩ := placed_of_run hformat hrun
  obtain ⟨⟨copy, seq, hvolume⟩, hshared⟩ := shared_of_run hrun
  obtain ⟨hinv, hplaced⟩ := hcells i x hx
  have hi : i < s.cells.length := (List.getElem?_eq_some_iff.mp hx).1
  have hwithin := hinv.wf.slot_within hp
  rw [hplaced.base, hplaced.total] at hwithin
  have hcount : s.cells.length = params.regionCount.toNat := by rw [hlen, hsb]; rfl
  have hdata : s.shared.superblock.dataStartOffset = m.shared.superblock.dataStartOffset := by
    rw [hvolume]
  have husable : (saturatingSub m.shared.superblock.dataDiskSize
      m.shared.superblock.dataStartOffset)
      = params.dataDiskSize - m.shared.superblock.dataStartOffset := by
    rw [hsb]
    exact if_pos (UInt64.le_iff_toNat_le.mpr (le_of_lt hstart))
  have hiff := @regionForOffset_eq_ok s.shared s.cells.length (p.1 + p.2 * e) i
    ((params.dataDiskSize - m.shared.superblock.dataStartOffset).toNat / params.regionCount.toNat)
    (by rw [hshared, hparams, hdata, hcount]) hi (by
      rw [hdata]
      simp only [Seg.Within, slotBytes, Superblock.regionRange,
        ExtentManager.regionRange, husable] at hwithin
      rw [show m.shared.superblock.regionCount = params.regionCount by rw [hsb]; rfl] at hwithin
      exact hwithin.1)
  rw [hdata] at hiff
  rw [← hiff]
  exact ⟨fun h => h.1, fun h => ⟨h, removeExtentByOffset_of_slotAt hinv.wf hp⟩⟩

theorem run_of_no_restart {s t : System c} {as : List Action} (h : Run System.step anyStep s as t)
    (has : ∀ a ∈ as, a ≠ .restart) : Run System.step (fun _ a => a ≠ .restart) s as t := by
  induction h with
  | nil => exact Run.nil _
  | snoc _ _ next ih =>
      exact Run.snoc (ih fun a ha => has a (List.mem_append_left _ ha))
        (has _ (List.mem_append_right _ List.mem_cons_self)) next

/-- An extent of the second region is found and can be removed. -/
theorem region_of_extent_second :
    ∃ s x, Run System.step (fun _ a => a ≠ .restart) smallSystem [.reserve 1 4096, .publish 1 0] s ∧
      s.cells[1]? = some x ∧ x.region.slotAt (32768, 0) = some (4096, 1) ∧
      regionForOffset s.shared s.cells.length 32768 = .ok 1 ∧
      ∃ r, x.region.removeExtentByOffset 32768 = .ok r := by
  have hsome : ((exec System.step smallSystem [.reserve 1 4096, .publish 1 0]).bind fun s =>
      s.cells[1]?.bind fun x => x.region.slotAt (32768, 0)) = some (4096, 1) := by decide +kernel
  obtain ⟨s, hs, hcell⟩ := bind_eq_some_iff.mp hsome
  obtain ⟨x, hx, hslot⟩ := bind_eq_some_iff.mp hcell
  have hrun := run_of_no_restart (run_of_exec hs) (by simp)
  obtain ⟨hregion, hremove⟩ := (region_of_extent_iff format_small hrun hx hslot).mpr (by decide)
  exact ⟨s, x, hrun, hx, hslot, hregion, hremove (by decide)⟩

/-- Three sectors of one byte for two regions. -/
def unevenParams : FormatParams :=
  { smallParams with dataDiskSize := 3, slabSize := 1, maxExtentSize := 1, sectorSize := 1 }

/-- **The remainder of the last region is not found.** The second region owns the last two bytes; an
extent published in the last one is taken for one of a third region. -/
theorem last_bytes_not_found : ∃ (m : Manager) (s : System smallClient) (x : Cell),
      format smallClient 64 0 unevenParams = .ok m ∧
      Run System.step (fun _ a => a ≠ .restart) (formatted (blankDisk _) m)
        [.reserve 1 1, .reserve 1 1, .publish 1 0, .publish 1 0] s ∧
      s.cells[1]? = some x ∧ x.region.slotAt (2, 0) = some (1, 1) ∧
      regionForOffset s.shared s.cells.length 2 = .error (.offsetNotFound 2) := by
  obtain ⟨m, hm⟩ : ∃ m, format smallClient 64 0 unevenParams = .ok m := ⟨_, rfl⟩
  have hsome : ((exec System.step (formatted (c := smallClient) (blankDisk _) m)
      [.reserve 1 1, .reserve 1 1, .publish 1 0, .publish 1 0]).bind fun s => s.cells[1]?.map fun x =>
        (x.region.slotAt (2, 0), regionForOffset s.shared s.cells.length 2))
      = some (some (1, 1), .error (.offsetNotFound 2)) := by
    cases hm
    decide +kernel
  obtain ⟨s, hs, hcell⟩ := bind_eq_some_iff.mp hsome
  obtain ⟨x, hx, hslot⟩ := map_eq_some_iff.mp hcell
  obtain ⟨hslot, hregion⟩ := Prod.mk.inj hslot
  exact ⟨m, s, x, hm, run_of_no_restart (run_of_exec hs) (by simp), hx, hslot, hregion⟩

end System

end Certus.ExtentManager
