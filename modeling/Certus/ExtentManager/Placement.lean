import Certus.ExtentManager.ManagerRefinement

/-! # Extents do not overlap

The byte ranges of all slots in use, of all regions together: reserved by a handle, occupied by a
published extent, or removed and waiting to be freed.

* **`System.live_ranges_disjoint`** — in every run they are pairwise disjoint and inside the data
  area, also across restarts. -/

namespace Certus.ExtentManager

open List RegionState

namespace Cell

/-- The slots in use: reserved, pending free, or occupied. -/
def live (x : Cell) : List (ℕ × ℕ) := x.held ++ x.region.occupied

/-- The bytes of a slot. -/
def slotRange (x : Cell) (p : ℕ × ℕ) : Seg :=
  match x.region.slabs.get? p.1 with
  | some s => s.slotSeg p.2
  | none => (0, 0)

/-- The bytes of the slots in use. -/
def liveRanges (x : Cell) : List Seg := x.live.map x.slotRange

variable {x : Cell}

variable (hx : x.Inv)
include hx

theorem Inv.slotAt_of_live {p : ℕ × ℕ} (hp : p ∈ x.live) :
    ∃ e k, x.region.slotAt p = some (e, k) := by
  rcases mem_append.mp hp with hp | hp
  · obtain ⟨e, he⟩ := hx.slot p hp
    exact ⟨e, freeKey, he⟩
  · obtain ⟨e, k, he, -⟩ := (mem_occupied hx.wf).mp hp
    exact ⟨e, k, he⟩

theorem Inv.nodup_live : x.live.Nodup := by
  refine nodup_append.mpr ⟨hx.nodup, x.region.nodup_occupied, fun p hp q hq hpq => ?_⟩
  subst hpq
  obtain ⟨e, he⟩ := hx.slot p hp
  obtain ⟨e', k, hk, hne⟩ := (mem_occupied hx.wf).mp hq
  rw [he] at hk
  cases hk
  exact hne rfl

theorem Inv.slotRange_eq {p : ℕ × ℕ} {e : ℕ} {k : UInt64}
    (hp : x.region.slotAt p = some (e, k)) : x.slotRange p = slotBytes p e := by
  obtain ⟨s, hs, -, rfl⟩ := slotAt_eq_some.mp hp
  simp only [slotRange, hs, Slab.slotSeg, Slab.slotOffset, slotBytes,
    (hx.wf.slab _ s hs).start_eq]

theorem Inv.pairwise_liveRanges : x.liveRanges.Pairwise Seg.Disjoint := by
  refine pairwise_map.mpr (hx.nodup_live.imp_of_mem fun {p q} hp hq hne => ?_)
  obtain ⟨e, k, hp⟩ := hx.slotAt_of_live hp
  obtain ⟨e', k', hq⟩ := hx.slotAt_of_live hq
  rw [hx.slotRange_eq hp, hx.slotRange_eq hq]
  exact hx.wf.slots_disjoint hp hq hne

theorem Inv.liveRanges_within {g : Seg} (hg : g ∈ x.liveRanges) :
    g.Within (x.region.buddy.baseOffset, x.region.buddy.totalUsableSize) := by
  obtain ⟨p, hp, rfl⟩ := mem_map.mp hg
  obtain ⟨e, k, hp⟩ := hx.slotAt_of_live hp
  rw [hx.slotRange_eq hp]
  exact hx.wf.slot_within hp

end Cell

namespace System

variable {c : BlockDeviceClient}

/-- The bytes of the slots in use, over all regions. -/
def liveRanges (s : System c) : List Seg := s.cells.flatMap Cell.liveRanges

/-- Regions in their places do not overlap and lie in the data area. -/
theorem liveRanges_of_placed {sb : Superblock} {s : System c} (hcount : 0 < sb.regionCount.toNat)
    (hlen : s.cells.length = sb.regionCount.toNat)
    (hcells : ∀ i x, s.cells[i]? = some x → CellOk sb i x) :
    s.liveRanges.Pairwise Seg.Disjoint ∧ ∀ g ∈ s.liveRanges,
      g.Within (sb.dataStartOffset.toNat, (saturatingSub sb.dataDiskSize sb.dataStartOffset).toNat)
      := by
  have hrange := fun i => regionRange_le sb.dataStartOffset.toNat
    (saturatingSub sb.dataDiskSize sb.dataStartOffset).toNat sb.regionCount.toNat i hcount
  have hwithin : ∀ (i : ℕ) (x : Cell), s.cells[i]? = some x → ∀ g ∈ x.liveRanges,
      g.Within (sb.regionRange i) := by
    intro i x hx g hg
    obtain ⟨hinv, hplaced⟩ := hcells i x hx
    have h := hinv.liveRanges_within hg
    rwa [hplaced.base, hplaced.total] at h
  refine ⟨pairwise_flatMap.mpr ⟨fun x hx => ?_, ?_⟩, fun g hg => ?_⟩
  · obtain ⟨i, hi⟩ := mem_iff_getElem?.mp hx
    exact (hcells i x hi).1.pairwise_liveRanges
  · refine pairwise_iff_getElem.mpr fun i j hi hj hij g hg g' hg' => ?_
    have hgi := hwithin i _ (getElem?_eq_getElem hi) g hg
    have hgj := hwithin j _ (getElem?_eq_getElem hj) g' hg'
    have hsep := (hrange i).2.2.2 j hij (by omega)
    simp only [Seg.Within, Superblock.regionRange] at hgi hgj
    simp only [Seg.Disjoint]
    omega
  · obtain ⟨x, hx, hg⟩ := mem_flatMap.mp hg
    obtain ⟨i, hi⟩ := mem_iff_getElem?.mp hx
    have hlt := (List.getElem?_eq_some_iff.mp hi).1
    have hgi := hwithin i x hi g hg
    have hend := (hrange i).2.2.1 (by omega)
    have hbase := (hrange i).1
    simp only [Seg.Within, Superblock.regionRange] at hgi ⊢
    omega

/-- Without restarts, regions stay in their places for any sector size. -/
theorem placed_of_run {numSectors randomId : UInt64} {params : FormatParams} {m : Manager}
    (hformat : format c numSectors randomId params = .ok m) {d : Disk c.sectorSize}
    {as : List Action} {s : System c}
    (hrun : Run System.step (fun _ a => a ≠ .restart) (formatted d m) as s) :
    s.cells.length = m.shared.superblock.regionCount.toNat ∧
      ∀ (i : ℕ) x, s.cells[i]? = some x → CellOk m.shared.superblock i x := by
  refine hrun.invariant (I := fun t => t.cells.length = m.shared.superblock.regionCount.toNat ∧
    ∀ (i : ℕ) x, t.cells[i]? = some x → CellOk m.shared.superblock i x)
    ⟨?_, fun i x => formatted_cellOk hformat d i⟩ fun t a u ht hguard hstep => ?_
  · obtain ⟨-, -, -, hsb, -, -, -, -, hregions⟩ := format_ok hformat
    simp [formatted, hregions, hsb, Superblock.new]
  obtain ⟨hlen, hcells⟩ := ht
  -- one region is replaced by one in the same place
  have hset : ∀ (i : ℕ) y, CellOk m.shared.superblock i y →
      (t.cells.set i y).length = m.shared.superblock.regionCount.toNat ∧
        ∀ (j : ℕ) x, (t.cells.set i y)[j]? = some x → CellOk m.shared.superblock j x := by
    intro i y hy
    refine ⟨(length_set ..).trans hlen, fun j x hx => ?_⟩
    rcases Snapshot.getElem?_set_cases hx with ⟨rfl, rfl⟩ | ⟨-, hx⟩
    · exact hy
    · exact hcells j x hx
  cases step_moves hstep with
  | cell htarget hx hmove => exact hset _ _ ((hcells _ _ hx).op hmove)
  | clear hphase hx => exact hset _ _ (hcells _ _ hx).clear
  | prepare hphase hall =>
    unfold prepareCopy
    dsimp only
    split_ifs <;> exact ⟨hlen, hcells⟩
  | restart hrecover => exact absurd rfl hguard
  | _ => exact ⟨hlen, hcells⟩

/-- **Extents do not overlap, across restarts.** For all parameters that `format` accepts with a
power of two as sector size, in every run of reservations of any size, publications, aborts,
removals, checkpoints with or without device errors, and restarts from the last durable checkpoint:
the byte ranges of all slots in use are pairwise disjoint and inside the data area. -/
theorem live_ranges_disjoint {numSectors randomId : UInt64} {params : FormatParams} {m : Manager}
    {k : ℕ} (hc : 0 < c.sectorSize) (hformat : format c numSectors randomId params = .ok m)
    (hpow : params.sectorSize.toNat = 2 ^ k) {d : Disk c.sectorSize} {as : List Action}
    {s : System c} (hrun : Run System.step FindsDurable (formatted d m) as s) :
    s.liveRanges.Pairwise Seg.Disjoint ∧ ∀ g ∈ s.liveRanges,
      m.shared.superblock.dataStartOffset.toNat ≤ g.1 ∧
        g.1 + g.2 ≤ params.dataDiskSize.toNat := by
  obtain ⟨-, -, hcount, hsb, -, -, -, hstart, -⟩ := format_ok hformat
  have hpow' : m.shared.superblock.sectorSize.toNat = 2 ^ k := by rw [hsb]; exact hpow
  have hcount' : 0 < m.shared.superblock.regionCount.toNat := by rw [hsb]; exact hcount
  have hgood := good_of_run hc hformat (trivial_laws hpow' hcount')
    (fun s a h => ⟨fun _ _ _ _ _ _ => trivial, h⟩) hrun
  obtain ⟨hdisj, hin⟩ := liveRanges_of_placed hcount' hgood.frame.count hgood.inv.cell
  refine ⟨hdisj, fun g hg => ?_⟩
  have hg := hin g hg
  rw [hsb] at hg ⊢
  simp only [Seg.Within, Superblock.new, toNat_saturatingSub] at hg ⊢
  omega

/-- A run with a checkpoint and a restart: two reservations, one of them published. -/
def restartRun : List Action :=
  [.reserve 0 4096, .reserve 1 100, .publish 0 0, .checkpoint] ++ List.replicate 11 .next ++
    [.reserve 2 4096, .restart, .reserve 4 8192]

/-- After the restart the published extent and a new reservation are in use, and do not overlap. -/
theorem live_ranges_after_restart : ∃ s, Run System.step FindsDurable smallSystem restartRun s ∧
      s.liveRanges = [(8192, 8192), (0, 4096)] ∧ s.liveRanges.Pairwise Seg.Disjoint := by
  have hsome : (checkedExec System.step FindsDurable smallSystem restartRun).map liveRanges
      = some [(8192, 8192), (0, 4096)] := by decide +kernel
  obtain ⟨s, hs, hlive⟩ := Option.map_eq_some_iff.mp hsome
  have hrun := run_of_checkedExec hs
  exact ⟨s, hrun, hlive, (live_ranges_disjoint (k := 12) (by decide) format_small rfl hrun).1⟩

end System

end Certus.ExtentManager
