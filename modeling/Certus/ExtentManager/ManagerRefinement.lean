import Certus.ExtentManager.Manager
import Certus.Lib.Snapshot

/-! # The extent manager as a snapshot protocol

Seen from the regions, a checkpoint is a snapshot taken cell by cell (`Snapshot.Step`): every region
is serialized in turn, the first sector of the superblock makes the whole record durable, and the
regions are cleared in turn.

* **`System.Moves`, `System.step_moves`** — the steps of the system, one case each.
* **`System.Moves.refines`** — every step is a step of the protocol or changes nothing there.
* **`System.Placed`, `placed_laws`** — every region stays in its place, also across restarts. -/

namespace Certus.ExtentManager

open List Option ExtentManager BlockDeviceClient RegionState BuddyAllocator Cell

namespace BlockDeviceClient

/-- The sector writes of a buffer, one at a time. -/
theorem sectorWrites_drop_cons {c : BlockDeviceClient} {lba m : ℕ} {data : List UInt8}
    {w : ℕ × List UInt8} {todo : List (ℕ × List UInt8)}
    (h : (c.sectorWrites lba data).drop m = w :: todo) :
    m < c.numBlocks data.length ∧ w = (c.baseLba + lba + m, c.chunk data m) ∧
      todo = (c.sectorWrites lba data).drop (m + 1) := by
  have hlt : m < (c.sectorWrites lba data).length := by
    by_contra hge
    rw [drop_eq_nil_of_le (Nat.le_of_not_lt hge)] at h
    cases h
  rw [drop_eq_getElem_cons hlt] at h
  obtain ⟨hw, htodo⟩ := cons.inj h
  refine ⟨by simpa [sectorWrites] using hlt, ?_, htodo.symm⟩
  rw [← hw]
  simp [sectorWrites]

end BlockDeviceClient

namespace System

variable {c : BlockDeviceClient}

/-! ## The steps -/

/-- The region and the operation of a call, if it is one on a region. -/
def target (s : System c) : Action → Option (ℕ × Cell.Action)
  | .reserve key size => some (regionForKey s.cells.length key, .reserve key size)
  | .publish i n => some (i, .publish n)
  | .abort i n => some (i, .abort n)
  | .remove offset =>
    match regionForOffset s.shared s.cells.length offset with
    | .ok i => some (i, .remove offset)
    | .error _ => none
  | _ => none

/-- The steps of the system, one constructor for each thing that can happen. -/
inductive Moves (s : System c) : Action → System c → Prop
  | cell {a : Action} {i : ℕ} {b : Cell.Action} {x y : Cell} (htarget : s.target a = some (i, b))
      (hx : s.cells[i]? = some x) (hstep : Cell.step b x = some y) :
      Moves s a { s with cells := s.cells.set i y }
  | nowhere {offset : ℕ} : Moves s (.remove offset) s
  | enter (hphase : s.phase = .idle) : Moves s .checkpoint { s with phase := .scan 0 }
  | clean {i : ℕ} (hphase : s.phase = .scan i) (hall : s.cells[i]? = none) :
      Moves s .next (s.finish (.ok ()))
  | scanned {i : ℕ} {x : Cell} (hphase : s.phase = .scan i) (hx : s.cells[i]? = some x)
      (hdirty : x.region.dirty = false) : Moves s .next { s with phase := .scan (i + 1) }
  | start {i : ℕ} {x : Cell} (hphase : s.phase = .scan i) (hx : s.cells[i]? = some x)
      (hdirty : x.region.dirty = true) :
      Moves s .next { s with phase := .serialize (leBytes 4 s.cells.length) [] }
  | serialize {payload : List UInt8} {snaps : List RegionState} {x : Cell}
      (hphase : s.phase = .serialize payload snaps) (hx : s.cells[snaps.length]? = some x) :
      Moves s .next { s with
        phase := .serialize (payload ++ serializeRegion x.region) (snaps ++ [x.region]) }
  | prepare {payload : List UInt8} {snaps : List RegionState}
      (hphase : s.phase = .serialize payload snaps) (hall : s.cells[snaps.length]? = none) :
      Moves s .next (s.prepareCopy payload snaps)
  | writeCopy {w : ℕ × List UInt8} {todo : List (ℕ × List UInt8)} {copy : UInt8} {seq : UInt64}
      {snaps : List RegionState} (hphase : s.phase = .writeCopy (w :: todo) copy seq snaps) :
      Moves s .next { s with disk := s.disk.write w.1 w.2, phase := .writeCopy todo copy seq snaps }
  | flip {copy : UInt8} {seq : UInt64} {snaps : List RegionState}
      (hphase : s.phase = .writeCopy [] copy seq snaps) :
      Moves s .next { s with
        shared := s.flipCopy copy seq
        phase := .writeSuperblock
          (c.sectorWrites 0 (s.flipCopy copy seq).superblock.serialize) snaps }
  | writeSuperblock {w : ℕ × List UInt8} {todo : List (ℕ × List UInt8)}
      {snaps : List RegionState} (hphase : s.phase = .writeSuperblock (w :: todo) snaps) :
      Moves s .next { s with
        disk := s.disk.write w.1 w.2
        phase := .writeSuperblock todo snaps
        durable := if w.1 = c.baseLba then ⟨s.shared.superblock, snaps⟩ else s.durable }
  | written {snaps : List RegionState} (hphase : s.phase = .writeSuperblock [] snaps) :
      Moves s .next { s with phase := .clear 0 }
  | clear {i : ℕ} {x : Cell} (hphase : s.phase = .clear i) (hx : s.cells[i]? = some x) :
      Moves s .next { s with cells := s.cells.set i x.clear, phase := .clear (i + 1) }
  | done {i : ℕ} (hphase : s.phase = .clear i) (hall : s.cells[i]? = none) :
      Moves s .next (s.finish (.ok ()))
  | fail {e : ExtentManagerError} : Moves s (.fail e) (s.finish (.error e))
  | restart {sb : Superblock} {descs : List (List SlabDescriptor)}
      (hrecover : recover c s.disk = .ok (sb, descs)) :
      Moves s .restart { s with
        cells := (initializeFrom sb descs).regions.map fun r => ⟨r, []⟩
        shared := (initializeFrom sb descs).shared
        phase := .idle
        result := none }

variable {a : Action} {s t : System c} {quiet : Cell.Action → Cell → Prop} {k : ℕ}
  {Q R : RegionState → Cell → Prop} {m : Manager} {numSectors randomId : UInt64}
  {params : FormatParams}

theorem moves_onCell {i : ℕ} {b : Cell.Action} (ht : s.target a = some (i, b))
    (h : s.onCell i b = some t) : Moves s a t := by
  obtain ⟨y, hy, rfl⟩ := map_eq_some_iff.mp h
  obtain ⟨x, hx, hstep⟩ := bind_eq_some_iff.mp hy
  exact .cell ht hx hstep

theorem moves_checkpointStep (h : s.checkpointStep = some t) : Moves s .next t := by
  unfold checkpointStep at h
  split at h
  · cases h
  · rename_i i hphase
    split at h
    · rename_i hall
      cases h
      exact .clean hphase hall
    · rename_i x hx
      split at h
      · rename_i hdirty
        cases h
        exact .start hphase hx hdirty
      · rename_i hdirty
        cases h
        exact .scanned hphase hx (Bool.not_eq_true _ ▸ hdirty)
  · rename_i payload snaps hphase
    split at h
    · rename_i x hx
      cases h
      exact .serialize hphase hx
    · rename_i hall
      cases h
      exact .prepare hphase hall
  · rename_i hphase
    cases h
    exact .writeCopy hphase
  · rename_i hphase
    cases h
    exact .flip hphase
  · rename_i hphase
    cases h
    exact .writeSuperblock hphase
  · rename_i hphase
    cases h
    exact .written hphase
  · rename_i i hphase
    split at h
    · rename_i x hx
      cases h
      exact .clear hphase hx
    · rename_i hall
      cases h
      exact .done hphase hall

/-- **Every step is one of the moves.** -/
theorem step_moves (h : s.step a = some t) : Moves s a t := by
  cases a with
  | reserve key size | publish i n | abort i n => exact moves_onCell rfl h
  | remove offset =>
    cases hr : regionForOffset s.shared s.cells.length offset with
    | ok i =>
      simp only [step, hr] at h
      exact moves_onCell (by simp only [target, hr]) h
    | error e =>
      simp only [step, hr] at h
      cases h
      exact .nowhere
  | checkpoint =>
    cases hphase : s.phase with
    | idle =>
      simp only [step, hphase] at h
      cases h
      exact .enter hphase
    | _ =>
      simp only [step, hphase] at h
      cases h
  | next => exact moves_checkpointStep h
  | fail e =>
    simp only [step, checkpointFail] at h
    split at h <;> first | cases h; exact .fail | cases h
  | restart =>
    simp only [step, System.restart] at h
    cases hr : recover c s.disk with
    | error e =>
      rw [hr] at h
      cases h
    | ok v =>
      rw [hr] at h
      cases h
      exact .restart hr

/-! ## The snapshot protocol behind a checkpoint -/

/-- The system as a state of the snapshot protocol. The record is durable as soon as the first sector
of the superblock is written. -/
def view (s : System c) : Snapshot.State Cell RegionState where
  cells := s.cells
  phase :=
    match s.phase with
    | .idle => .idle
    | .scan _ => .idle
    | .serialize _ snaps => .taking snaps
    | .writeCopy _ _ _ snaps => .taking snaps
    | .writeSuperblock todo snaps =>
      if todo.head?.map Prod.fst = some c.baseLba then .taking snaps else .clearing 0
    | .clear i => .clearing i
  durable := s.durable.regions

/-- Region `i` was serialized and not yet cleared by the running checkpoint. -/
def InWindow (s : System c) (i : ℕ) : Prop :=
  match s.phase with
  | .idle => False
  | .scan _ => False
  | .serialize _ snaps => i < snaps.length
  | .writeCopy _ _ _ _ => True
  | .writeSuperblock _ _ => True
  | .clear k => k ≤ i

theorem inWindow_of_view {i : ℕ} (h : s.view.phase.InWindow i) : s.InWindow i := by
  unfold view at h
  unfold InWindow
  cases hphase : s.phase with
  | writeCopy todo copy seq snaps => trivial
  | writeSuperblock todo snaps => trivial
  | _ =>
    simp only [hphase] at h
    exact h

/-- What happens to one region: `sb` gives the parameters a new process reads off the superblock. -/
def protocol (sb : Superblock) : Snapshot.Protocol Cell RegionState Cell.Action where
  op := Cell.step
  snap := region
  clear := clear
  rebuild r := ⟨initRegion (initParams sb) r.buddy.baseOffset r.buddy.totalUsableSize
    sb.sectorSize.toNat r.describe, []⟩

/-- In the window of its region an operation is `quiet`. -/
def Quietly (quiet : Cell.Action → Cell → Prop) (s : System c) (a : Action) : Prop :=
  ∀ i b x, s.target a = some (i, b) → s.cells[i]? = some x → s.InWindow i → quiet b x

/-- A new process finds the last durable checkpoint. -/
def FindsDurable (s : System c) (a : Action) : Prop :=
  a = .restart →
    recover c s.disk = .ok (s.durable.superblock, s.durable.regions.map describe)

instance (s : System c) (a : Action) : Decidable (FindsDurable s a) :=
  match a with
  | .restart =>
    decidable_of_iff (recover c s.disk
      = .ok (s.durable.superblock, s.durable.regions.map describe))
      ⟨fun h _ => h, fun h => h rfl⟩
  | .reserve _ _ => isTrue fun h => by cases h
  | .publish _ _ => isTrue fun h => by cases h
  | .abort _ _ => isTrue fun h => by cases h
  | .remove _ => isTrue fun h => by cases h
  | .checkpoint => isTrue fun h => by cases h
  | .next => isTrue fun h => by cases h
  | .fail _ => isTrue fun h => by cases h

/-- Two superblocks that differ at most in the active copy and the sequence number. -/
def SameVolume (sb sb' : Superblock) : Prop :=
  ∃ copy seq, sb' = { sb with activeCopy := copy, checkpointSeq := seq }

/-- The regions of the running checkpoint and the sector writes that are left. -/
def PhaseOk (s : System c) : Prop :=
  match s.phase with
  | .serialize _ snaps => snaps.length ≤ s.cells.length
  | .writeCopy _ _ _ snaps => snaps.length = s.cells.length
  | .writeSuperblock todo snaps => snaps.length = s.cells.length ∧
      ∃ m, todo = (c.sectorWrites 0 s.shared.superblock.serialize).drop m
  | _ => True

/-- What never changes: the volume and the number of regions. -/
structure Frame (sb : Superblock) (s : System c) : Prop where
  shared : SameVolume sb s.shared.superblock
  durable : SameVolume sb s.durable.superblock
  count : s.cells.length = sb.regionCount.toNat
  phase : s.PhaseOk

/-- A region in the place and with the slab size that the superblock says. -/
structure Placed (sb : Superblock) (i : ℕ) (r : RegionState) : Prop where
  base : r.buddy.baseOffset = (sb.regionRange i).1
  total : r.buddy.totalUsableSize = (sb.regionRange i).2
  sector : r.formatParams.sectorSize = sb.sectorSize
  slabSize : r.formatParams.slabSize = sb.slabSize

/-- A new process rebuilds the regions of the durable checkpoint. -/
theorem cells_initializeFrom {sb sb' : Superblock} (hsb : SameVolume sb sb')
    {regions : List RegionState} (hlen : regions.length = sb.regionCount.toNat)
    (hplaced : ∀ i r, regions[i]? = some r → Placed sb i r) :
    (initializeFrom sb' (regions.map describe)).regions.map (fun r => (⟨r, []⟩ : Cell))
      = regions.map (protocol sb).rebuild := by
  obtain ⟨copy, seq, rfl⟩ := hsb
  refine ext_getElem? fun i => ?_
  simp only [initializeFrom, getElem?_map, List.map_map]
  by_cases hi : i < sb.regionCount.toNat
  · have hlt : i < regions.length := hlen ▸ hi
    have hr := getElem?_eq_getElem hlt
    have hp := hplaced i _ hr
    rw [getElem?_range hi, hr]
    simp only [map_some, Function.comp, protocol, getD_eq_getElem?_getD,
      getElem?_map, hr, getD_some]
    rw [hp.base, hp.total]
    rfl
  · rw [getElem?_eq_none (by simpa using hi), getElem?_eq_none (by omega)]
    rfl

/-- **Every step is a step of the snapshot protocol**, or changes nothing there. -/
theorem Moves.refines {sb : Superblock} (hc : 0 < c.sectorSize) (hs : Frame sb s)
    (hlen : s.durable.regions.length = s.cells.length)
    (hplaced : ∀ i r, s.durable.regions[i]? = some r → Placed sb i r) (hquiet : Quietly quiet s a)
    (hfind : FindsDurable s a) (h : Moves s a t) :
    Snapshot.Step (protocol sb) quiet s.view t.view ∨ t.view = s.view := by
  cases h with
  | @cell _ i b x y htarget hx hstep =>
    refine .inl (.op hx hstep fun hw => ?_)
    exact hquiet i b x htarget hx (inWindow_of_view hw)
  | nowhere => exact .inr rfl
  | enter hphase | scanned hphase hx hdirty | writeCopy hphase =>
    refine .inr ?_
    simp only [view, hphase]
  | clean hphase hall | done hphase hall | fail => exact .inl .giveUp
  | start hphase hx hdirty => exact .inl .start
  | serialize hphase hx =>
    refine .inl (.take (P := protocol sb) ?_ hx)
    simp only [view, hphase]
  | @prepare payload snaps hphase hall =>
    unfold prepareCopy
    dsimp only
    split_ifs
    · exact .inl .giveUp
    · refine .inr ?_
      simp only [view, hphase]
  | @flip copy seq snaps hphase =>
    refine .inr ?_
    -- the superblock has a first sector
    have hpos : 0 < c.numBlocks (s.flipCopy copy seq).superblock.serialize.length := by
      rw [Superblock.length_serialize, BlockDeviceClient.numBlocks]
      exact Nat.div_pos (by unfold superblockSize; omega) hc
    have hhead : (c.sectorWrites 0 (s.flipCopy copy seq).superblock.serialize).head?.map Prod.fst
        = some c.baseLba := by
      obtain ⟨n, hn⟩ := Nat.exists_eq_succ_of_ne_zero (Nat.ne_of_gt hpos)
      rw [BlockDeviceClient.sectorWrites, hn, range_succ_eq_map]
      rfl
    simp only [view, hphase, hhead, if_true]
  | @writeSuperblock w todo snaps hphase =>
    have hok := hs.phase
    simp only [PhaseOk, hphase] at hok
    obtain ⟨hsnaps, m, hm⟩ := hok
    obtain ⟨-, hw, htodo⟩ := BlockDeviceClient.sectorWrites_drop_cons hm.symm
    -- what is left does not start with the first sector
    have hrest : todo.head?.map Prod.fst ≠ some c.baseLba := by
      cases htl : todo with
      | nil => simp
      | cons w' todo' =>
        rw [htl] at htodo
        obtain ⟨-, hw', -⟩ := BlockDeviceClient.sectorWrites_drop_cons htodo.symm
        simp [hw']
    by_cases hbase : w.1 = c.baseLba
    · refine .inl ?_
      have hview : s.view.phase = .taking snaps := by
        simp [view, hphase, hbase]
      have hstep : Snapshot.Step (protocol sb) quiet s.view _ := .commit hview hsnaps
      simpa [view, hrest, hbase] using hstep
    · refine .inr ?_
      simp [view, hphase, hrest, hbase]
  | written hphase =>
    refine .inr ?_
    simp [view, hphase]
  | clear hphase hx =>
    refine .inl (.clear (P := protocol sb) ?_ hx)
    simp only [view, hphase]
  | @restart sb' descs hrecover =>
    have heq := hrecover.symm.trans (hfind rfl)
    cases heq
    refine .inl ?_
    have hcells := cells_initializeFrom hs.durable (hlen.trans hs.count) hplaced
    have hstep : Snapshot.Step (protocol sb) quiet s.view _ := .restart
    simpa only [view, hcells] using hstep

theorem Frame.step {sb : Superblock} (hs : Frame sb s) (hfind : FindsDurable s a)
    (h : Moves s a t) : Frame sb t := by
  obtain ⟨copy, seq, hshared⟩ := hs.shared
  have hok := hs.phase
  cases h with
  | @cell _ i b x y htarget hx hstep =>
    refine ⟨hs.shared, hs.durable, (length_set ..).trans hs.count, ?_⟩
    simpa only [PhaseOk, length_set] using hok
  | nowhere => exact hs
  | enter hphase | clean hphase hall | scanned hphase hx hdirty | written hphase
  | done hphase hall | fail => exact ⟨hs.shared, hs.durable, hs.count, trivial⟩
  | start hphase hx hdirty => exact ⟨hs.shared, hs.durable, hs.count, Nat.zero_le _⟩
  | serialize hphase hx =>
    refine ⟨hs.shared, hs.durable, hs.count, ?_⟩
    have hlt := (List.getElem?_eq_some_iff.mp hx).1
    simp only [PhaseOk, length_append, length_singleton]
    omega
  | @prepare payload snaps hphase hall =>
    simp only [PhaseOk, hphase] at hok
    have hge := List.getElem?_eq_none_iff.mp hall
    unfold prepareCopy
    dsimp only
    split_ifs
    · exact ⟨hs.shared, hs.durable, hs.count, trivial⟩
    · exact ⟨hs.shared, hs.durable, hs.count, Nat.le_antisymm hok hge⟩
  | writeCopy hphase =>
    simp only [PhaseOk, hphase] at hok
    exact ⟨hs.shared, hs.durable, hs.count, hok⟩
  | @flip copy' seq' snaps hphase =>
    simp only [PhaseOk, hphase] at hok
    exact ⟨⟨copy', seq', by rw [flipCopy, hshared]⟩, hs.durable, hs.count, hok, 0, rfl⟩
  | @writeSuperblock w todo snaps hphase =>
    simp only [PhaseOk, hphase] at hok
    obtain ⟨hsnaps, m, hm⟩ := hok
    obtain ⟨-, -, htodo⟩ := BlockDeviceClient.sectorWrites_drop_cons hm.symm
    refine ⟨hs.shared, ?_, hs.count, hsnaps, m + 1, htodo⟩
    dsimp only
    split_ifs
    · exact hs.shared
    · exact hs.durable
  | clear hphase hx =>
    exact ⟨hs.shared, hs.durable, (length_set ..).trans hs.count, trivial⟩
  | @restart sb' descs hrecover =>
    have heq := hrecover.symm.trans (hfind rfl)
    cases heq
    obtain ⟨copy', seq', hdurable⟩ := hs.durable
    refine ⟨hs.durable, hs.durable, ?_, trivial⟩
    simp [initializeFrom, hdurable]

/-! ## Regions stay in place -/

/-- The invariant of a cell, in its place. -/
def CellOk (sb : Superblock) (i : ℕ) (x : Cell) : Prop := x.Inv ∧ Placed sb i x.region

/-- The invariant of a recorded region, in its place. -/
def RegionOk (sb : Superblock) (i : ℕ) (r : RegionState) : Prop := r.WellFormed ∧ Placed sb i r

variable {sb : Superblock} {i : ℕ}

theorem Placed.same {r t : RegionState} (h : Placed sb i r) (hs : r.SameRegion t) : Placed sb i t :=
  ⟨hs.range.base.trans h.base, hs.range.total.trans h.total, by rw [hs.params, h.sector],
    by rw [hs.params, h.slabSize]⟩

theorem CellOk.op {x y : Cell} {a : Cell.Action} (h : CellOk sb i x)
    (hstep : Cell.step a x = some y) : CellOk sb i y := by
  have heff := step_effect h.1 hstep
  exact ⟨h.1.effect heff, h.2.same heff.same⟩

theorem CellOk.clear {x : Cell} (h : CellOk sb i x) : CellOk sb i x.clear :=
  ⟨h.1.clear, h.2.same h.1.clear_slots.2.1⟩

theorem regionRange_le (a u n i : ℕ) (hn : 0 < n) :
    a ≤ (regionRange a u n i).1 ∧ (regionRange a u n i).2 ≤ u ∧
      (i < n → (regionRange a u n i).1 + (regionRange a u n i).2
        ≤ a + u) ∧
      ∀ j, i < j → j < n → (regionRange a u n i).1
        + (regionRange a u n i).2 ≤ (regionRange a u n j).1 := by
  have hmul : n * (u / n) ≤ u := Nat.mul_div_le u n
  have hone : u / n ≤ u := Nat.div_le_self u n
  simp only [regionRange]
  generalize u / n = b at hmul hone
  refine ⟨Nat.le_add_right _ _, ?_, fun hi => ?_, fun j hij hj => ?_⟩
  · split_ifs <;> omega
  · split_ifs with h
    · have := Nat.mul_le_mul_right b (show i + 1 ≤ n by omega)
      rw [Nat.succ_mul] at this
      omega
    · have : i = n - 1 := by omega
      subst this
      have := Nat.mul_le_mul_right b (show n - 1 ≤ n by omega)
      omega
  · rw [if_pos (by omega)]
    have := Nat.mul_le_mul_right b (show i + 1 ≤ j by omega)
    rw [Nat.succ_mul] at this
    omega

section

variable (hpow : sb.sectorSize.toNat = 2 ^ k) (hcount : 0 < sb.regionCount.toNat)
include hpow hcount

/-- **A rebuilt region.** It has the occupied slots of the recorded one and no others. -/
theorem rebuild_spec {r : RegionState} (h : RegionOk sb i r) :
    CellOk sb i ((protocol sb).rebuild r) ∧ ((protocol sb).rebuild r).region.dirty = false ∧
      ((protocol sb).rebuild r).region.pendingFrees = [] ∧
      (∀ p, ((protocol sb).rebuild r).region.slotAt p = publishedSlot (r.slotAt p)) ∧
      ((protocol sb).rebuild r).region.slabs.keys.Perm r.slabs.keys ∧
      ((protocol sb).rebuild r).region.buddy.WellFormed
        ((protocol sb).rebuild r).region.slabBlocks := by
  obtain ⟨hwf, hplaced⟩ := h
  have hsector : r.buddy.sectorSize = sb.sectorSize.toNat := by
    rw [hwf.sector_eq, hplaced.sector]
  have htotal : r.buddy.totalUsableSize < 2 ^ 64 := by
    rw [hplaced.total]
    exact lt_of_le_of_lt (regionRange_le _ _ _ i hcount).2.1 (UInt64.toNat_lt _)
  have hspec := @initRegion_spec r hwf (initParams sb) k hplaced.sector.symm
    hplaced.slabSize.symm (hsector.trans hpow) htotal
  rw [hsector] at hspec
  obtain ⟨ht, hparams, hrange, hdirty, hpend, hslots, hkeys, hblocks⟩ := hspec
  have hnone : ∀ p e, publishedSlot (r.slotAt p) ≠ some (e, freeKey) := by
    intro p e hp
    obtain ⟨v, -, hif⟩ := bind_eq_some_iff.mp hp
    split_ifs at hif with hv
    cases hif
    exact hv rfl
  have hheld : ((protocol sb).rebuild r).held = [] := hpend
  refine ⟨⟨⟨ht, ?_, fun p hp => ?_, fun p e hp => ?_, fun h hh => ?_⟩, ?_⟩, hdirty, hpend, hslots,
    hkeys, hblocks⟩
  · rw [hheld]
    exact nodup_nil
  · rw [hheld] at hp
    cases hp
  · exact absurd ((hslots p).symm.trans hp) (hnone p e)
  · cases hh
  · exact ⟨hrange.base.trans hplaced.base, hrange.total.trans hplaced.total,
      congrArg FormatParams.sectorSize hparams, congrArg FormatParams.slabSize hparams⟩

/-- Laws for any two relations between records and cells, on top of the places. -/
theorem placed_laws (record_snap : ∀ x : Cell, x.Inv → R x.region x)
    (record_op : ∀ {a d x y}, Cell.Inv x → R d x → Cell.Effect x y a → quiet a x → R d y)
    (durable_op : ∀ {a d x y}, Cell.Inv x → Q d x → Cell.Effect x y a → Q d y)
    (durable_record : ∀ {d x}, Cell.Inv x → R d x → Q d x)
    (durable_clear : ∀ {d x}, Cell.Inv x → R d x → Q d x.clear)
    (durable_rebuild : ∀ {d x}, (∀ p, x.region.slotAt p = publishedSlot (d.slotAt p)) → Q d x) :
    Snapshot.Laws (protocol sb) quiet (CellOk sb) (RegionOk sb) R Q where
  op_keeps := fun hx hop => hx.op hop
  clear_keeps := fun hx => hx.clear
  snap_keeps := fun hx => ⟨hx.1.wf, hx.2⟩
  rebuild_keeps := fun hd => (rebuild_spec hpow hcount hd).1
  record_snap := fun hx => record_snap _ hx.1
  record_op := fun hx hR hop hq => record_op hx.1 hR (Cell.step_effect hx.1 hop) hq
  durable_op := fun hx hQ hop => durable_op hx.1 hQ (Cell.step_effect hx.1 hop)
  durable_record := fun hx hR => durable_record hx.1 hR
  durable_clear := fun hx hR => durable_clear hx.1 hR
  durable_rebuild := fun hd => durable_rebuild (rebuild_spec hpow hcount hd).2.2.2.1

/-- Nothing is asked of records: the laws of the places alone. -/
theorem trivial_laws :
    Snapshot.Laws (protocol sb) (fun _ _ => True) (CellOk sb) (RegionOk sb) (fun _ _ => True)
      (fun _ _ => True) := by
  apply placed_laws hpow hcount <;> intros <;> trivial

end

/-! ## Whole runs -/

/-- The frame, and the invariant of the snapshot protocol. -/
structure Good (sb : Superblock) (R Q : RegionState → Cell → Prop) (s : System c) : Prop where
  frame : Frame sb s
  inv : Snapshot.Inv (CellOk sb) (RegionOk sb) R Q s.view

theorem Good.step (hc : 0 < c.sectorSize)
    (hlaws : Snapshot.Laws (protocol sb) quiet (CellOk sb) (RegionOk sb) R Q) (hs : Good sb R Q s)
    (hquiet : Quietly quiet s a) (hfind : FindsDurable s a) (h : s.step a = some t) :
    Good sb R Q t := by
  have hmove := step_moves h
  refine ⟨hs.frame.step hfind hmove, ?_⟩
  rcases hmove.refines hc hs.frame hs.inv.length_eq (fun i r hr => (hs.inv.durable i r hr).2)
    hquiet hfind with hstep | hsame
  · exact hs.inv.step hlaws hstep
  · rw [hsame]
    exact hs.inv

variable (h : format c numSectors randomId params = .ok m)
include h

/-- What `format` checks, and the manager it makes. -/
theorem format_ok : 0 < params.sectorSize.toNat ∧ params.sectorSize.toNat ∣ params.slabSize.toNat ∧
      0 < params.regionCount.toNat ∧
      m.shared.superblock = Superblock.new params.dataDiskSize params.sectorSize params.slabSize
        params.maxExtentSize params.regionCount (checkpointRegionOffset params.metadataAlignment)
        (checkpointRegionSize params (numSectors * UInt64.ofNat c.sectorSize))
        (params.instanceId.getD randomId) params.metadataDiskNsId
        (dataStartOffset params (numSectors * UInt64.ofNat c.sectorSize)) ∧
      m.shared.formatParams = params ∧ m.shared.checkpointSeq = 0 ∧
      checkpointRegionSize params (numSectors * UInt64.ofNat c.sectorSize) ≠ 0 ∧
      (dataStartOffset params (numSectors * UInt64.ofNat c.sectorSize)).toNat
        < params.dataDiskSize.toNat ∧
      m.regions = (range params.regionCount.toNat).map fun i =>
        new (new (m.shared.superblock.regionRange i).1
          (m.shared.superblock.regionRange i).2 params.sectorSize.toNat) params := by
  unfold format at h
  dsimp only at h
  split_ifs at h with h₁ h₂ h₃ h₄ h₅ h₆
  cases h
  have hsec : 0 < params.sectorSize.toNat :=
    Nat.pos_of_ne_zero fun h0 => h₁ (UInt32.toNat.inj h0)
  have hcount : 0 < params.regionCount.toNat :=
    Nat.pos_of_ne_zero fun h0 => h₄ (.inl (UInt32.toNat.inj h0))
  have husable : 0 < (saturatingSub params.dataDiskSize
      (dataStartOffset params (numSectors * UInt64.ofNat c.sectorSize))).toNat :=
    Nat.pos_of_ne_zero fun h0 => h₆ (UInt64.toNat.inj h0)
  rw [toNat_saturatingSub] at husable
  refine ⟨hsec, ?_, hcount, rfl, rfl, rfl, h₅, by omega, rfl⟩
  have hmod := congrArg UInt64.toNat (not_not.mp h₂)
  exact Nat.dvd_of_mod_eq_zero (by simpa using hmod)

omit h in
theorem inv_new {base size sector : ℕ} (hsector : params.sectorSize.toNat = sector)
    (hpos : 0 < sector) (hdvd : params.sectorSize.toNat ∣ params.slabSize.toNat) :
    (⟨RegionState.new (new base size sector) params, []⟩ : Cell).Inv := by
  have hslot : ∀ p, (new (new base size sector) params).slotAt p
      = none := fun p => rfl
  refine ⟨⟨hsector.symm, hdvd, (fun a s hs => by cases hs), ⟨[], ?_⟩, fun e a ha => by cases ha⟩,
    nodup_nil, (fun p hp => by cases hp), fun p e hp => ?_, fun h hh => by cases hh⟩
  · exact new_wellFormed hpos
  · rw [hslot] at hp
    cases hp

theorem formatted_cellOk (d : Disk c.sectorSize)
    (i : ℕ) {x : Cell} (hx : (formatted d m).cells[i]? = some x) :
    CellOk m.shared.superblock i x := by
  obtain ⟨hsec, hdvd, hcount, hsb, -, -, -, -, hregions⟩ := format_ok h
  simp only [formatted, hregions, List.map_map, getElem?_map] at hx
  obtain ⟨j, hj, rfl⟩ := map_eq_some_iff.mp hx
  obtain ⟨hlt, rfl⟩ := List.getElem?_eq_some_iff.mp hj
  rw [getElem_range]
  refine ⟨inv_new rfl hsec hdvd, rfl, rfl, ?_, ?_⟩ <;> rw [hsb] <;> rfl

/-- The system right after `format`. -/
theorem formatted_good (d : Disk c.sectorSize)
    (hlaws : Snapshot.Laws (protocol m.shared.superblock) quiet (CellOk m.shared.superblock)
      (RegionOk m.shared.superblock) R Q) : Good m.shared.superblock R Q (formatted d m) := by
  obtain ⟨hsec, hdvd, hcount, hsb, -, -, -, -, hregions⟩ := format_ok h
  have hcell := fun (i : ℕ) (x : Cell) (hx : (formatted d m).cells[i]? = some x) =>
    formatted_cellOk h d i hx
  have hpair : ∀ (i : ℕ) (r : RegionState) (x : Cell), m.regions[i]? = some r →
      (formatted d m).cells[i]? = some x → x.region = r := by
    intro i r x hr hx
    simp only [formatted, getElem?_map, hr] at hx
    cases hx
    rfl
  have hregion : ∀ (i : ℕ) (r : RegionState), m.regions[i]? = some r →
      RegionOk m.shared.superblock i r := by
    intro i r hr
    have hx : (formatted d m).cells[i]? = some ⟨r, []⟩ := by
      simp [formatted, hr]
    obtain ⟨hinv, hplaced⟩ := hcell i _ hx
    exact ⟨hinv.wf, hplaced⟩
  refine ⟨⟨⟨_, _, rfl⟩, ⟨_, _, rfl⟩, ?_, trivial⟩, ⟨?_, Nat.zero_le _, hcell, hregion,
    (fun i r hr => by cases hr), fun i r x hr hx => ?_, fun i r x hw => hw.elim⟩⟩
  · simp [formatted, hregions, hsb, Superblock.new]
  · simp [view, formatted]
  · have hR := hlaws.record_snap (hcell i x hx)
    have hQ := hlaws.durable_record (hcell i x hx) hR
    rw [← hpair i r x hr hx]
    exact hQ

omit h

/-- **Every run of the manager keeps the invariant.** -/
theorem good_of_run {ok : System c → Action → Prop} (hc : 0 < c.sectorSize)
    (h : format c numSectors randomId params = .ok m) {d : Disk c.sectorSize}
    (hlaws : Snapshot.Laws (protocol m.shared.superblock) quiet (CellOk m.shared.superblock)
      (RegionOk m.shared.superblock) R Q)
    (hok : ∀ s a, ok s a → Quietly quiet s a ∧ FindsDurable s a) {as : List Action}
    (hrun : Run System.step ok (formatted d m) as s) : Good m.shared.superblock R Q s :=
  hrun.invariant (formatted_good h d hlaws) fun t a _ ht hguard hstep =>
    ht.step hc hlaws (hok t a hguard).1 (hok t a hguard).2 hstep

end System

end Certus.ExtentManager
