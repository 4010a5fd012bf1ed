import Certus.ExtentManager.Copies

/-! # What is on the device

The device always holds the superblock of the last durable checkpoint, and the copy that the manager
last completed. `write_checkpoint` moves on in memory before the superblock is written, so after an
error the device can be behind; then the copy that its superblock points to is the next one to be
overwritten.

* **`System.DiskInv.recover_cases`** — `recover` returns the last durable checkpoint or fails.
* **`System.recover_after_errors`** — it does not fail as long as no copy is overwritten while the
  superblock on the device is behind. -/

namespace Certus.ExtentManager

open List Option BlockDeviceClient RegionState
open UInt64 (toNat toNat_add ofNat toNat_mul toNat_div)

namespace System

variable {c : BlockDeviceClient} {sb : Superblock}

/-- The sequence number that the manager is at. -/
def memSeq (s : System c) : ℕ := s.shared.superblock.checkpointSeq.toNat

/-- The sequence number in the superblock on the device. -/
def diskSeq (s : System c) : ℕ := s.durable.superblock.checkpointSeq.toNat

/-- What the running checkpoint has written so far. -/
def WriteOk (sb : Superblock) (s : System c) : Prop :=
  match s.phase with
  | .serialize payload snaps =>
    payload = leBytes 4 s.cells.length ++ snaps.flatMap serializeRegion
  | .writeCopy todo copy seq snaps =>
    copy = s.inactiveCopy ∧ seq.toNat = s.memSeq + 1 ∧ Writable sb snaps ∧
      ∃ m, todo = (c.sectorWrites (copyLba c sb copy) (copyImage c seq.toNat snaps)).drop m ∧
        c.Wrote s.disk (copyLba c sb copy) (copyImage c seq.toNat snaps) m
  | .writeSuperblock todo snaps =>
    1 ≤ s.memSeq ∧
      IsCopy c s.disk sb s.shared.superblock.activeCopy s.memSeq snaps ∧
      ∃ m, todo = (c.sectorWrites 0 s.shared.superblock.serialize).drop m ∧
        (0 < m → s.durable = ⟨s.shared.superblock, snaps⟩)
  | _ => True

/-- The device: the superblock of the last durable checkpoint; in the active copy of the manager its
last complete checkpoint; in the other copy the one before, or the start of the next one. -/
structure DiskInv (sb : Superblock) (s : System c) : Prop where
  active : IsIndex s.shared.superblock.activeCopy
  seq : s.shared.superblock.checkpointSeq = s.shared.checkpointSeq
  head : HasSuperblock c s.disk s.durable.superblock
  durableActive : IsIndex s.durable.superblock.activeCopy
  le : s.diskSeq ≤ s.memSeq
  same : s.diskSeq = s.memSeq → s.durable.superblock.activeCopy = s.shared.superblock.activeCopy
  prev : s.diskSeq + 1 = s.memSeq → s.durable.superblock.activeCopy = s.inactiveCopy
  zero : s.diskSeq = 0 → s.durable.regions.map describe
    = replicate sb.regionCount.toNat []
  current : 1 ≤ s.memSeq → ∃ regions,
    IsCopy c s.disk sb s.shared.superblock.activeCopy s.memSeq regions ∧
      (s.diskSeq = s.memSeq → s.durable.regions = regions)
  other : 2 ≤ s.memSeq → copySeq c s.disk (copyOffset sb s.inactiveCopy) = s.memSeq + 1 ∨
    ∃ regions, IsCopy c s.disk sb s.inactiveCopy (s.memSeq - 1) regions ∧
      (s.diskSeq + 1 = s.memSeq → s.durable.regions = regions)
  phase : s.WriteOk sb

/-- The payload of the checkpoint that is about to be written has less than `2 ^ 32` bytes, and its
sequence number does not overflow. -/
def Fits (s : System c) (a : Action) : Prop :=
  match a, s.phase with
  | .next, .serialize payload snaps =>
    s.cells.length ≤ snaps.length →
      payload.length < 2 ^ 32 ∧ s.shared.checkpointSeq.toNat + 1 < 2 ^ 64
  | _, _ => True

theorem memSeq_lt (s : System c) : s.memSeq < 2 ^ 64 := UInt64.toNat_lt _

/-! ## What `recover` returns -/

/-- The superblock on the device is at most one checkpoint behind, and the copy that it points to is
not being overwritten. -/
def CopyKept (sb : Superblock) (s : System c) : Prop :=
  s.diskSeq = s.memSeq ∨ (s.diskSeq + 1 = s.memSeq ∧
    copySeq c s.disk (copyOffset sb s.inactiveCopy) ≠ s.memSeq + 1)

namespace DiskInv

variable {s t : System c} (hl : Layout c sb) (hframe : Frame sb s) (h : DiskInv sb s)

include h

/-- The copy that the superblock on the device points to, if it is still there. -/
theorem durable_copy (h0 : s.diskSeq ≠ 0) (hkept : CopyKept sb s) :
    IsCopy c s.disk sb s.durable.superblock.activeCopy s.diskSeq s.durable.regions := by
  rcases hkept with heq | ⟨hone, hne⟩
  · obtain ⟨regions, hcur, hreg⟩ := h.current (by omega)
    rw [h.same heq, heq, hreg heq]
    exact hcur
  · rcases h.other (by omega) with hseq | ⟨regions, hprev, hreg⟩
    · exact absurd hseq hne
    · rw [h.prev hone, hreg hone, show s.diskSeq = s.memSeq - 1 by omega]
      exact hprev

include hl

/-- If the copy is not kept, both copies are newer than the superblock. -/
theorem newer (h0 : s.diskSeq ≠ 0) (hlost : ¬CopyKept sb s) (copy : UInt8) (hcopy : IsIndex copy) :
    s.diskSeq < copySeq c s.disk (copyOffset sb copy) := by
  simp only [CopyKept, not_or, not_and, not_not] at hlost
  have hlt := lt_of_le_of_ne h.le hlost.1
  obtain ⟨regions, hcur, -⟩ := h.current (by omega)
  have hcurSeq := hcur.copySeq_eq hl s.memSeq_lt
  rcases h.active.cases hcopy with rfl | rfl
  · omega
  · change s.diskSeq < copySeq c s.disk (copyOffset sb s.inactiveCopy)
    rcases h.other (by omega) with hseq | ⟨regions', hprev, -⟩
    · omega
    · have hprevSeq := hprev.copySeq_eq hl (by have := s.memSeq_lt; omega)
      by_cases hone : s.diskSeq + 1 = s.memSeq
      · have := hlost.2 hone
        omega
      · omega

include hframe

/-- `recover` finds the durable checkpoint when its copy is still there. -/
theorem recover_eq (hsafe : s.diskSeq = 0 ∨ CopyKept sb s) :
    recover c s.disk = .ok (s.durable.superblock, s.durable.regions.map describe) := by
  have hl' := hl.volume hframe.durable
  obtain ⟨copy, seq, hdur⟩ := hframe.durable
  by_cases h0 : s.diskSeq = 0
  · have hcount : s.durable.superblock.regionCount = sb.regionCount := by rw [hdur]
    rw [recover_of_zero hl' h.head (toNat.inj h0), h.zero h0, hcount]
  · have hcopy := h.durable_copy h0 (hsafe.resolve_left h0)
    exact recover_of_isCopy hl' h.head (fun h0' => h0 (congrArg toNat h0'))
      (hcopy.volume hframe.durable)

/-- `recover` fails when the copy was overwritten. -/
theorem recover_fails (h0 : s.diskSeq ≠ 0) (hlost : ¬CopyKept sb s) :
    ∃ e, recover c s.disk = .error e := by
  obtain ⟨copy, seq, hdur⟩ := hframe.durable
  have hnewer := h.newer hl h0 hlost
  refine recover_of_newer (hl.volume hframe.durable) h.head
    (fun h0' => h0 (congrArg toNat h0')) h.durableActive fun copy' hcopy' => ?_
  have := hnewer copy' hcopy'
  rw [diskSeq, hdur] at this
  rw [hdur]
  exact this

/-- **`recover` returns the last durable checkpoint or fails.** -/
theorem recover_cases : recover c s.disk
        = .ok (s.durable.superblock, s.durable.regions.map describe) ∨
      ∃ e, recover c s.disk = .error e := by
  by_cases hsafe : s.diskSeq = 0 ∨ CopyKept sb s
  · exact .inl (h.recover_eq hl hframe hsafe)
  · obtain ⟨h0, hlost⟩ := not_or.mp hsafe
    exact .inr (h.recover_fails hl hframe h0 hlost)

theorem finds {a : Action} (hstep : s.step a = some t) : FindsDurable s a := by
  rintro rfl
  rcases h.recover_cases hl hframe with hok | ⟨e, he⟩
  · exact hok
  · simp only [step, System.restart, he] at hstep
    cases hstep

end DiskInv

/-! ## Every step keeps it -/

theorem Layout.length_serialize (hl : Layout c sb) (sb' : Superblock) :
    sb'.serialize.length = superblockSize / c.sectorSize * c.sectorSize ∧
      c.numBlocks sb'.serialize.length = superblockSize / c.sectorSize := by
  have hlen : sb'.serialize.length = superblockSize / c.sectorSize * c.sectorSize := by
    rw [Superblock.length_serialize, Nat.div_mul_cancel hl.sector_dvd]
  exact ⟨hlen, by rw [hlen, numBlocks_mul hl.sector_pos]⟩

theorem Layout.superblock_pos (hl : Layout c sb) : 0 < superblockSize / c.sectorSize :=
  Nat.div_pos (Nat.le_of_dvd (by decide) hl.sector_dvd) hl.sector_pos

variable {d : Disk c.sectorSize} {m : Manager} {numSectors randomId : UInt64}
  {params : FormatParams} {as : List Action}

/-- The first sector of the superblock holds its fields. -/
theorem hasSuperblock_of_wrote (hl : Layout c sb) {sb' : Superblock} {m : ℕ} (hm : 0 < m)
    (h : c.Wrote d 0 sb'.serialize m) : HasSuperblock c d sb' := by
  have h0 := h 0 hm
  have h96 : 96 ≤ c.sectorSize := le_trans (by decide) hl.sector_ge
  rw [BlockDeviceClient.chunk, Nat.zero_mul, drop_zero, Nat.add_zero] at h0
  rw [HasSuperblock, h0, take_take, min_eq_left h96, Superblock.serialize,
    take_append_of_le_length (by simp), take_of_length_le (by simp)]

namespace DiskInv

variable {s t : System c} (h : DiskInv sb s)

include h

theorem congr (hshared : t.shared = s.shared) (hdisk : t.disk = s.disk)
    (hdurable : t.durable = s.durable) (hphase : t.WriteOk sb) : DiskInv sb t := by
  obtain ⟨cells, shared, disk, phase, result, durable⟩ := t
  subst hshared hdisk hdurable
  exact ⟨h.active, h.seq, h.head, h.durableActive, h.le, h.same, h.prev, h.zero, h.current,
    h.other, hphase⟩

theorem writeCopy (hl : Layout c sb) {w : ℕ × List UInt8}
    {todo : List (ℕ × List UInt8)} {copy : UInt8} {seq : UInt64} {snaps : List RegionState}
    (hphase : s.phase = .writeCopy (w :: todo) copy seq snaps) :
    DiskInv sb { s with disk := s.disk.write w.1 w.2, phase := .writeCopy todo copy seq snaps } ∧
      copySeq c (s.disk.write w.1 w.2) (copyOffset sb s.inactiveCopy) = s.memSeq + 1 := by
  have hok := h.phase
  simp only [WriteOk, hphase] at hok
  obtain ⟨rfl, hseq, hwritable, m, htodo, hwrote⟩ := hok
  obtain ⟨hm, rfl, hrest⟩ := sectorWrites_drop_cons htodo.symm
  have hpos := hl.sector_pos
  have hnext := hwrote.next (length_copyImage hpos seq.toNat snaps)
    (by rw [numBlocks_copyImage hpos] at hm; exact hm)
  have hm' : m < copyBlocks c sb := by
    rw [numBlocks_copyImage hpos] at hm
    exact lt_of_lt_of_le hm (hl.numBlocks_le hwritable.fits)
  have hnewSeq : copySeq c (s.disk.write (c.baseLba + copyLba c sb s.inactiveCopy + m)
      (c.chunk (copyImage c seq.toNat snaps) m)) (copyOffset sb s.inactiveCopy) = s.memSeq + 1 := by
    rw [← hseq]
    exact copySeq_of_wrote hl seq.toNat_lt (Nat.succ_pos m) hnext
  refine ⟨⟨h.active, h.seq, ?_, h.durableActive, h.le, h.same, h.prev, h.zero, fun h1 => ?_,
    fun _ => .inl hnewSeq, rfl, hseq, hwritable, m + 1, hrest, hnext⟩, hnewSeq⟩
  · have hne := hl.copy_above h.active.other hl.superblock_pos m
    rw [HasSuperblock, Disk.sector_write_of_ne _ _ (by rw [add_zero] at hne; exact Ne.symm hne)]
    exact h.head
  · obtain ⟨regions, hcur, hreg⟩ := h.current h1
    exact ⟨regions, hcur.write hl _ fun i hi => hl.copies_apart h.active hi hm', hreg⟩

theorem flip {copy : UInt8} {seq : UInt64}
    {snaps : List RegionState} (hphase : s.phase = .writeCopy [] copy seq snaps) :
    DiskInv sb { s with
      shared := s.flipCopy copy seq
      phase := .writeSuperblock
        (c.sectorWrites 0 (s.flipCopy copy seq).superblock.serialize) snaps } := by
  have hok := h.phase
  simp only [WriteOk, hphase] at hok
  obtain ⟨rfl, hseq, hwritable, m, htodo, hwrote⟩ := hok
  -- nothing is left to write
  have hall : c.numBlocks (copyImage c seq.toNat snaps).length ≤ m := by
    have := drop_eq_nil_iff.mp htodo.symm
    simpa [sectorWrites] using this
  have hnew : IsCopy c s.disk sb s.inactiveCopy seq.toNat snaps :=
    ⟨hwritable, fun i hi => hwrote i (lt_of_lt_of_le hi hall)⟩
  have hle := h.le
  set t : System c := { s with
    shared := s.flipCopy s.inactiveCopy seq
    phase := .writeSuperblock
      (c.sectorWrites 0 (s.flipCopy s.inactiveCopy seq).superblock.serialize) snaps } with ht
  have hmem : t.memSeq = s.memSeq + 1 := hseq
  have hdisk : t.diskSeq = s.diskSeq := rfl
  have hback : t.inactiveCopy = s.shared.superblock.activeCopy := h.active.other_other
  refine ⟨h.active.other, rfl, h.head, h.durableActive, by omega, fun heq => by omega,
    fun heq => ?_, h.zero, fun _ => ⟨snaps, hnew, fun heq => by omega⟩, fun h2 => .inr ?_, ?_⟩
  · rw [hback]
    exact h.same (by omega)
  · obtain ⟨regions, hcur, hreg⟩ := h.current (by omega)
    refine ⟨regions, ?_, fun heq => hreg (by omega)⟩
    rw [hback, hmem, Nat.add_sub_cancel]
    exact hcur
  · exact ⟨by omega, hnew, 0, rfl, fun h0 => absurd h0 (lt_irrefl 0)⟩

/-- After a sector of the superblock the checkpoint is durable. -/
theorem durable_written {w : ℕ × List UInt8} {todo : List (ℕ × List UInt8)}
    {snaps : List RegionState} (hphase : s.phase = .writeSuperblock (w :: todo) snaps) :
    (if w.1 = c.baseLba then ⟨s.shared.superblock, snaps⟩ else s.durable)
      = (⟨s.shared.superblock, snaps⟩ : Durable) := by
  have hok := h.phase
  simp only [WriteOk, hphase] at hok
  obtain ⟨-, -, m, htodo, hdur⟩ := hok
  obtain ⟨-, rfl, -⟩ := sectorWrites_drop_cons htodo.symm
  split_ifs with hbase
  · rfl
  · exact hdur (by simp only at hbase; omega)

/-- The next sector of the superblock; the first one makes the checkpoint durable. -/
theorem writeSuperblock (hl : Layout c sb) {w : ℕ × List UInt8}
    {todo : List (ℕ × List UInt8)} {snaps : List RegionState}
    (hphase : s.phase = .writeSuperblock (w :: todo) snaps) :
    DiskInv sb { s with
      disk := s.disk.write w.1 w.2
      phase := .writeSuperblock todo snaps
      durable := if w.1 = c.baseLba then ⟨s.shared.superblock, snaps⟩ else s.durable } := by
  rw [h.durable_written hphase]
  have hok := h.phase
  simp only [WriteOk, hphase] at hok
  obtain ⟨hone, hcopy, m, htodo, hdur⟩ := hok
  obtain ⟨hm, rfl, hrest⟩ := sectorWrites_drop_cons htodo.symm
  obtain ⟨hlen, hblocks⟩ := hl.length_serialize s.shared.superblock
  rw [hblocks] at hm
  -- neither copy is touched
  have hkeep : ∀ copy seq regions, IsIndex copy → IsCopy c s.disk sb copy seq regions →
      IsCopy c (s.disk.write (c.baseLba + 0 + m) (c.chunk s.shared.superblock.serialize m)) sb copy
        seq regions :=
    fun copy seq regions hi hc => hc.write hl _ fun i _ => hl.copy_above hi hm i
  have hseqKeep : copySeq c (s.disk.write (c.baseLba + 0 + m)
      (c.chunk s.shared.superblock.serialize m)) (copyOffset sb s.inactiveCopy)
        = copySeq c s.disk (copyOffset sb s.inactiveCopy) :=
    copySeq_write _ (hl.copy_above h.active.other hm 0)
  refine ⟨h.active, h.seq, ?_, h.active, le_refl _, fun _ => rfl, fun heq => ?_, fun h0 => ?_,
    fun _ => ⟨snaps, hkeep _ _ _ h.active hcopy, fun _ => rfl⟩, fun h2 => ?_,
    ⟨hone, hkeep _ _ _ h.active hcopy, m + 1, hrest, fun _ => rfl⟩⟩
  · rcases eq_zero_or_pos m with rfl | hmpos
    · exact hasSuperblock_of_wrote hl one_pos
        (BlockDeviceClient.Wrote.next hlen hm fun i hi => absurd hi (Nat.not_lt_zero i))
    · rw [HasSuperblock, Disk.sector_write_of_ne _ _ (by omega)]
      have hhead := h.head
      rw [hdur hmpos] at hhead
      exact hhead
  · exact absurd heq (Nat.succ_ne_self _)
  · exact absurd h0 (ne_of_gt hone)
  · rcases h.other h2 with hseq | ⟨regions, hprev, -⟩
    · exact .inl (hseqKeep.trans hseq)
    · exact .inr ⟨regions, hkeep _ _ _ h.active.other hprev,
        fun heq => absurd heq (Nat.succ_ne_self _)⟩

theorem restart (hl : Layout c sb) (hframe : Frame sb s) {sb' : Superblock}
    {descs : List (List SlabDescriptor)} (hrecover : recover c s.disk = .ok (sb', descs)) :
    DiskInv sb { s with
      cells := (initializeFrom sb' descs).regions.map fun r => ⟨r, []⟩
      shared := (initializeFrom sb' descs).shared
      phase := .idle
      result := none } := by
  -- the active copy of the superblock is still there, or there would be nothing to read
  have hsafe : s.diskSeq ≠ 0 → CopyKept sb s := by
    intro h0
    by_contra hlost
    obtain ⟨e, he⟩ := h.recover_fails hl hframe h0 hlost
    rw [hrecover] at he
    cases he
  have hsb : sb' = s.durable.superblock := by
    rcases h.recover_cases hl hframe with hok | ⟨e, he⟩
    · rw [hrecover] at hok
      cases hok
      rfl
    · rw [hrecover] at he
      cases he
  subst hsb
  refine ⟨h.durableActive, rfl, h.head, h.durableActive, le_refl _, fun _ => rfl,
    fun heq => absurd heq (Nat.succ_ne_self _), h.zero, fun h1 => ?_, fun h2 => ?_, trivial⟩
  · exact ⟨_, h.durable_copy (ne_of_gt h1) (hsafe (ne_of_gt h1)), fun _ => rfl⟩
  · change 2 ≤ s.diskSeq at h2
    change copySeq c s.disk (copyOffset sb (1 - s.durable.superblock.activeCopy)) = s.diskSeq + 1 ∨
      ∃ regions, IsCopy c s.disk sb (1 - s.durable.superblock.activeCopy) (s.diskSeq - 1) regions ∧
        (s.diskSeq + 1 = s.diskSeq → s.durable.regions = regions)
    rcases hsafe (by omega) with heq | ⟨hone, -⟩
    · rw [h.same heq, heq]
      rcases h.other (by omega) with hseq | ⟨regions, hprev, -⟩
      · exact .inl hseq
      · exact .inr ⟨regions, hprev, fun heq => absurd heq (Nat.succ_ne_self _)⟩
    · obtain ⟨regions, hcur, -⟩ := h.current (by omega)
      have hback : 1 - s.inactiveCopy = s.shared.superblock.activeCopy := h.active.other_other
      rw [h.prev hone, hback, hone]
      exact .inl (hcur.copySeq_eq hl s.memSeq_lt)

/-- The payload is complete: it is too large, or the writes of the copy are prepared. -/
theorem prepareCopy_cases (hframe : Frame sb s) {payload : List UInt8}
    {snaps : List RegionState} (hphase : s.phase = .serialize payload snaps)
    (hall : s.cells[snaps.length]? = none) :
    snaps.length = s.cells.length ∧ payload = checkpointPayload snaps ∧
      ((∃ e, s.prepareCopy payload snaps = s.finish (.error e)) ∨
        (checkpointHeaderSize + payload.length ≤ sb.checkpointRegionSize.toNat ∧
          s.prepareCopy payload snaps = { s with
            phase := .writeCopy (c.sectorWrites (copyLba c sb s.inactiveCopy)
              (copyImage c (s.shared.checkpointSeq + 1).toNat snaps)) s.inactiveCopy
              (s.shared.checkpointSeq + 1) snaps })) := by
  have hge := getElem?_eq_none_iff.mp hall
  have hle := hframe.phase
  have hok := h.phase
  simp only [PhaseOk, hphase] at hle
  simp only [WriteOk, hphase] at hok
  have hlen : snaps.length = s.cells.length := le_antisymm hle hge
  have hpayload : payload = checkpointPayload snaps := by rw [hok, checkpointPayload, hlen]
  obtain ⟨copy, seq, hshared⟩ := hframe.shared
  have hsize : s.shared.superblock.checkpointRegionSize = sb.checkpointRegionSize := by rw [hshared]
  have hoffset : copyOffset s.shared.superblock s.inactiveCopy = copyOffset sb s.inactiveCopy := by
    rw [copyOffset, hshared]
    rfl
  refine ⟨hlen, hpayload, ?_⟩
  unfold prepareCopy
  dsimp only
  rw [hsize, hoffset]
  split_ifs with hbig
  · exact .inl ⟨_, rfl⟩
  · refine .inr ⟨Nat.le_of_not_lt hbig, ?_⟩
    rw [hpayload]
    rfl

theorem prepare (hframe : Frame sb s) (hsnaps : ∀ i r, s.view.record[i]? = some r → RegionOk sb i r)
    {payload : List UInt8} {snaps : List RegionState} (hphase : s.phase = .serialize payload snaps)
    (hall : s.cells[snaps.length]? = none) (hfits : Fits s .next) :
    DiskInv sb (s.prepareCopy payload snaps) := by
  obtain ⟨hlen, hpayload, ⟨e, hfail⟩ | ⟨hsize, hprep⟩⟩ := h.prepareCopy_cases hframe hphase hall
  · rw [hfail]
    exact h.congr rfl rfl rfl trivial
  · simp only [Fits, hphase] at hfits
    obtain ⟨hshort, hwrap⟩ := hfits (le_of_eq hlen.symm)
    have hrecord : s.view.record = snaps := by simp only [Snapshot.State.record, view, hphase]
    rw [hrecord] at hsnaps
    rw [hpayload] at hsize hshort
    have hseq : (s.shared.checkpointSeq + 1).toNat = s.memSeq + 1 := by
      rw [memSeq, h.seq, toNat_add]
      exact Nat.mod_eq_of_lt hwrap
    rw [hprep]
    exact h.congr rfl rfl rfl ⟨rfl, hseq, writable_of_ok hsnaps (hlen.trans hframe.count) hsize
      hshort, 0, rfl, fun i hi => absurd hi (Nat.not_lt_zero i)⟩

/-- **Every step keeps what is on the device.** -/
theorem step {R Q : RegionState → Cell → Prop} (hl : Layout c sb) (hgood : Good sb R Q s)
    {a : Action} (hfits : Fits s a) (hmove : Moves s a t) : DiskInv sb t := by
  cases hmove with
  | @cell _ i b x y htarget hx hstep =>
    refine h.congr rfl rfl rfl ?_
    have hok := h.phase
    unfold WriteOk at hok ⊢
    cases hphase : s.phase with
    | serialize payload snaps =>
      simp only [hphase, length_set] at hok ⊢
      exact hok
    | writeCopy todo copy seq snaps | writeSuperblock todo snaps =>
      simp only [hphase] at hok ⊢
      exact hok
    | _ => trivial
  | nowhere => exact h
  | enter hphase | clean hphase hall | scanned hphase hx hdirty | written hphase
  | clear hphase hx | done hphase hall | fail => exact h.congr rfl rfl rfl trivial
  | start hphase hx hdirty => exact h.congr rfl rfl rfl (by simp [WriteOk])
  | @serialize payload snaps x hphase hx =>
    have hok := h.phase
    simp only [WriteOk, hphase] at hok
    refine h.congr rfl rfl rfl ?_
    simp [WriteOk, hok]
  | prepare hphase hall =>
    exact h.prepare hgood.frame hgood.inv.record hphase hall hfits
  | writeCopy hphase => exact (h.writeCopy hl hphase).1
  | flip hphase => exact h.flip hphase
  | writeSuperblock hphase => exact h.writeSuperblock hl hphase
  | restart hrecover => exact h.restart hl hgood.frame hrecover

end DiskInv

/-! ## A formatted device -/

/-- The device right after `format`. -/
theorem formatted_diskInv (h : format c numSectors randomId params = .ok m)
    (hl : Layout c m.shared.superblock) (d : Disk c.sectorSize) :
    DiskInv m.shared.superblock (formatted d m) := by
  obtain ⟨-, -, -, hsb, -, hseq, -, -, hregions⟩ := format_ok h
  obtain ⟨hlen, hblocks⟩ := hl.length_serialize m.shared.superblock
  have hactive : m.shared.superblock.activeCopy = 0 := by rw [hsb]; rfl
  have hzero : m.shared.superblock.checkpointSeq = 0 := by rw [hsb]; rfl
  have hmem : (formatted d m).memSeq = 0 := congrArg toNat hzero
  refine ⟨.inl hactive, hzero.trans hseq.symm, ?_, .inl hactive, le_refl _, fun _ => rfl,
    fun heq => absurd heq (Nat.succ_ne_self _), fun _ => ?_, fun h1 => ?_, fun h2 => ?_, trivial⟩
  · exact hasSuperblock_of_wrote hl hl.superblock_pos (wrote_foldl hlen hblocks)
  · have hcount : m.shared.superblock.regionCount = params.regionCount := by rw [hsb]; rfl
    simp only [formatted, hregions, hcount, List.map_map]
    exact eq_replicate_iff.mpr ⟨by simp, fun r hr => by
      obtain ⟨i, -, rfl⟩ := List.mem_map.mp hr
      rfl⟩
  · rw [hmem] at h1
    exact absurd h1 (by decide)
  · rw [hmem] at h2
    exact absurd h2 (by decide)

/-- What is asked of the device and the parameters: sectors of 512 to 4096 bytes that divide the
sector size of the volume, a power of two, and an alignment for which the offset of the first copy
does not overflow. -/
structure Device (c : BlockDeviceClient) (params : FormatParams) : Prop where
  sector_ge : 512 ≤ c.sectorSize
  sector_dvd : c.sectorSize ∣ superblockSize
  volume_dvd : c.sectorSize ∣ params.sectorSize.toNat
  volume_pow : ∃ k, params.sectorSize.toNat = 2 ^ k
  alignment : superblockSize + params.metadataAlignment.toNat < 2 ^ 64

theorem le_checkpointRegionOffset {alignment : UInt64}
    (h : superblockSize + alignment.toNat < 2 ^ 64) :
    superblockSize ≤ (checkpointRegionOffset alignment).toNat := by
  unfold checkpointRegionOffset
  split_ifs with h0
  · decide
  · have hpos : 0 < alignment.toNat := pos_of_ne_zero fun hz => h0 (toNat.inj hz)
    have hsize : (ofNat superblockSize).toNat = superblockSize := by decide
    have h4096 : superblockSize = 4096 := rfl
    have hsum : (ofNat superblockSize + alignment - 1).toNat
        = superblockSize + alignment.toNat - 1 := by
      have hadd : (ofNat superblockSize + alignment).toNat
          = superblockSize + alignment.toNat := by
        rw [toNat_add, hsize, Nat.mod_eq_of_lt h]
      have hone : (1 : UInt64).toNat = 1 := rfl
      have hle : (1 : UInt64) ≤ ofNat superblockSize + alignment :=
        UInt64.le_iff_toNat_le.mpr (by omega)
      rw [UInt64.toNat_sub_of_le _ _ hle, hadd, hone]
    have hmul := Nat.div_mul_le_self (superblockSize + alignment.toNat - 1) alignment.toNat
    have hmod := Nat.div_add_mod' (superblockSize + alignment.toNat - 1) alignment.toNat
    have hlt := Nat.mod_lt (superblockSize + alignment.toNat - 1) hpos
    rw [toNat_mul, toNat_div, hsum, Nat.mod_eq_of_lt (by omega)]
    omega

/-- The size of a copy: whole sectors of the volume, twice within what is left of the device. -/
theorem checkpointRegionSize_spec {metadataDiskSize : UInt64}
    (h : checkpointRegionSize params metadataDiskSize ≠ 0) :
    params.sectorSize.toNat ∣ (checkpointRegionSize params metadataDiskSize).toNat ∧
      (checkpointRegionOffset params.metadataAlignment).toNat
        + 2 * (checkpointRegionSize params metadataDiskSize).toNat ≤ metadataDiskSize.toNat := by
  have heff : (if params.metadataRegionSize > 0 then min metadataDiskSize params.metadataRegionSize
      else metadataDiskSize).toNat ≤ metadataDiskSize.toNat := by
    split_ifs
    · exact UInt64.le_iff_toNat_le.mp (min_le_left _ _)
    · exact le_rfl
  have hpos : 0 < (checkpointRegionSize params metadataDiskSize).toNat :=
    pos_of_ne_zero fun hz => h (toNat.inj hz)
  revert hpos heff
  unfold checkpointRegionSize
  dsimp only
  generalize (if params.metadataRegionSize > 0 then min metadataDiskSize params.metadataRegionSize
    else metadataDiskSize) = effective
  generalize checkpointRegionOffset params.metadataAlignment = offset
  have hlt := effective.toNat_lt
  have hmul := Nat.div_mul_le_self ((effective.toNat - offset.toNat) / 2) params.sectorSize.toNat
  have htwo : (toNat 2) = 2 := rfl
  rw [toNat_mul, toNat_div, toNat_div, toNat_saturatingSub, htwo,
    UInt32.toNat_toUInt64, Nat.mod_eq_of_lt (by omega)]
  intro heff hpos
  exact ⟨Nat.dvd_mul_left _ _, by omega⟩

theorem layout_of_format (h : format c numSectors randomId params = .ok m)
    (hdev : Device c params) : Layout c m.shared.superblock := by
  obtain ⟨-, -, -, hsb, -, -, hsize, -⟩ := format_ok h
  rw [hsb]
  obtain ⟨hdvd, hend⟩ := checkpointRegionSize_spec hsize
  exact ⟨hdev.sector_ge, hdev.sector_dvd, le_checkpointRegionOffset hdev.alignment,
    hdev.volume_dvd.trans hdvd, lt_of_le_of_lt hend (UInt64.toNat_lt _), rfl⟩

/-- **Every run in which checkpoints fit** keeps the regions in place and the copies on the
device. -/
theorem durably_of_run {quiet : Cell.Action → Cell → Prop} {R Q : RegionState → Cell → Prop}
    {ok : System c → Action → Prop} (hdev : Device c params)
    (h : format c numSectors randomId params = .ok m)
    (hlaws : Snapshot.Laws (protocol m.shared.superblock) quiet (CellOk m.shared.superblock)
      (RegionOk m.shared.superblock) R Q) (hok : ∀ s a, ok s a → Quietly quiet s a ∧ Fits s a)
    {s : System c} (hrun : Run System.step ok (formatted d m) as s) :
    Good m.shared.superblock R Q s ∧ DiskInv m.shared.superblock s := by
  have hl := layout_of_format h hdev
  refine hrun.invariant
    (I := fun t => Good m.shared.superblock R Q t ∧ DiskInv m.shared.superblock t)
    ⟨formatted_good h d hlaws, formatted_diskInv h hl d⟩ fun t a u ht hguard hstep => ?_
  obtain ⟨hquiet, hfits⟩ := hok t a hguard
  exact ⟨ht.1.step hl.sector_pos hlaws hquiet (ht.2.finds hl ht.1.frame hstep) hstep,
    ht.2.step hl ht.1 hfits (step_moves hstep)⟩

/-- The sector size and the number of regions of a formatted volume. -/
theorem volume_of_format (h : format c numSectors randomId params = .ok m)
    (hdev : Device c params) :
    (∃ k, m.shared.superblock.sectorSize.toNat = 2 ^ k) ∧
      0 < m.shared.superblock.regionCount.toNat := by
  obtain ⟨-, -, hcount, hsb, -⟩ := format_ok h
  rw [hsb]
  exact ⟨hdev.volume_pow, hcount⟩

/-! ## Checkpoints that fail -/

/-- A copy is about to be written while the superblock on the device is behind the manager: an
earlier superblock write failed, and none succeeded since. (Before the first durable checkpoint there
is nothing to lose.) -/
def Behind (s : System c) (a : Action) : Prop :=
  match a, s.phase with
  | .next, .writeCopy (_ :: _) _ _ _ => s.diskSeq ≠ 0 ∧ s.diskSeq ≠ s.memSeq
  | _, _ => False

/-- The copy that the superblock on the device points to is there, and if the running checkpoint has
started on its copy, the superblock is not behind. -/
structure Covered (sb : Superblock) (s : System c) : Prop where
  copy : s.diskSeq = 0 ∨ s.diskSeq = s.memSeq ∨ (s.diskSeq + 1 = s.memSeq ∧
    copySeq c s.disk (copyOffset sb s.inactiveCopy) ≠ s.memSeq + 1)
  started : ∀ todo copy seq snaps, s.phase = .writeCopy todo copy seq snaps →
    (s.diskSeq = 0 ∨ s.diskSeq = s.memSeq) ∨
      todo = c.sectorWrites (copyLba c sb copy) (copyImage c seq.toNat snaps)

namespace Covered

variable {s t : System c}

theorem congr (h : Covered sb s) (hshared : t.shared = s.shared) (hdisk : t.disk = s.disk)
    (hdurable : t.durable = s.durable)
    (hphase : ∀ todo copy seq snaps, t.phase = .writeCopy todo copy seq snaps →
      (s.diskSeq = 0 ∨ s.diskSeq = s.memSeq) ∨
        todo = c.sectorWrites (copyLba c sb copy) (copyImage c seq.toNat snaps)) :
    Covered sb t := by
  obtain ⟨cells, shared, disk, phase, result, durable⟩ := t
  subst hshared hdisk hdurable
  exact ⟨h.copy, hphase⟩

/-- The superblock on the device is not behind. -/
theorem of_current (h : t.diskSeq = 0 ∨ t.diskSeq = t.memSeq) : Covered sb t :=
  ⟨by
    rcases h with h | h
    · exact .inl h
    · exact .inr (.inl h), fun _ _ _ _ _ => .inl h⟩

/-- The manager moves on: the copy that was active stays complete. -/
theorem flip (hl : Layout c sb) (hd : DiskInv sb s) (h : Covered sb s) {copy : UInt8}
    {seq : UInt64} {snaps : List RegionState} (hphase : s.phase = .writeCopy [] copy seq snaps) :
    Covered sb { s with
      shared := s.flipCopy copy seq
      phase := .writeSuperblock
        (c.sectorWrites 0 (s.flipCopy copy seq).superblock.serialize) snaps } := by
  have hok := hd.phase
  simp only [WriteOk, hphase] at hok
  obtain ⟨rfl, hseq, hwritable, -⟩ := hok
  have hcur : s.diskSeq = 0 ∨ s.diskSeq = s.memSeq := by
    rcases h.started _ _ _ _ hphase with hcur | hnil
    · exact hcur
    · -- a copy has at least one sector
      have hpos := numBlocks_pos hl.header_le (checkpointPayload snaps).length
      rw [← numBlocks_copyImage hl.sector_pos seq.toNat] at hpos
      have hlen := congrArg length hnil
      simp only [sectorWrites, length_nil, length_map, length_range] at hlen
      omega
  refine ⟨?_, fun _ _ _ _ hp => by cases hp⟩
  set t : System c := { s with
    shared := s.flipCopy s.inactiveCopy seq
    phase := .writeSuperblock
      (c.sectorWrites 0 (s.flipCopy s.inactiveCopy seq).superblock.serialize) snaps } with ht
  have hmem : t.memSeq = s.memSeq + 1 := hseq
  have hback : t.inactiveCopy = s.shared.superblock.activeCopy := hd.active.other_other
  by_cases h0 : s.diskSeq = 0
  · exact .inl h0
  · have heq := hcur.resolve_left h0
    obtain ⟨regions, hcopy, -⟩ := hd.current (by omega)
    have hold := hcopy.copySeq_eq hl s.memSeq_lt
    refine .inr (.inr ⟨by rw [hmem, ← heq]; rfl, ?_⟩)
    rw [hback, hmem]
    change copySeq c s.disk _ ≠ _
    omega

/-- **One step** with a superblock that is not behind keeps the durable checkpoint. -/
theorem step (hl : Layout c sb) (hframe : Frame sb s) (hd : DiskInv sb s) (h : Covered sb s)
    {a : Action} (hb : ¬ Behind s a) (hfind : FindsDurable s a) (hmove : Moves s a t) : Covered sb t := by
  cases hmove with
  | cell htarget hx hstep => exact h.congr rfl rfl rfl h.started
  | nowhere => exact h
  | enter hphase | clean hphase hall | scanned hphase hx hdirty | start hphase hx hdirty
  | serialize hphase hx | written hphase | clear hphase hx | done hphase hall | fail =>
    exact h.congr rfl rfl rfl fun _ _ _ _ hp => by cases hp
  | prepare hphase hall =>
    obtain ⟨-, -, ⟨e, hfail⟩ | ⟨-, hprep⟩⟩ := hd.prepareCopy_cases hframe hphase hall
    · rw [hfail]
      exact h.congr rfl rfl rfl fun _ _ _ _ hp => by cases hp
    · rw [hprep]
      exact h.congr rfl rfl rfl fun _ _ _ _ hp => by
        cases hp
        exact .inr rfl
  | @writeCopy w todo copy seq snaps hphase =>
    simp only [Behind, hphase, not_and, not_not] at hb
    refine of_current ?_
    by_cases h0 : s.diskSeq = 0
    · exact .inl h0
    · exact .inr (hb h0)
  | flip hphase => exact h.flip hl hd hphase
  | writeSuperblock hphase =>
    rw [hd.durable_written hphase]
    exact of_current (.inr rfl)
  | restart hrecover =>
    have heq := hrecover.symm.trans (hfind rfl)
    cases heq
    exact of_current (.inr rfl)

end Covered

/-- **A failed checkpoint does not endanger the durable one, as long as no copy is written behind the
superblock.** In every run with device errors, crashes and restarts at any point, in which no copy is
written while the superblock on the device is behind: `recover` returns the last checkpoint whose
superblock is on the device, and no copy that this superblock points to is overwritten. -/
theorem recover_after_errors {numSectors randomId : UInt64} {params : FormatParams} {m : Manager}
    (hdev : Device c params) (hformat : format c numSectors randomId params = .ok m)
    {d : Disk c.sectorSize} {as : List Action} {s : System c}
    (hrun : Run System.step (fun s a => Fits s a ∧ ¬ Behind s a) (formatted d m) as s) :
    recover c s.disk = .ok (s.durable.superblock, s.durable.regions.map describe) ∧
      ∀ w todo copy seq snaps, s.phase = .writeCopy (w :: todo) copy seq snaps →
        ¬ Behind s .next → s.diskSeq = 0 ∨ copy ≠ s.durable.superblock.activeCopy := by
  have hl := layout_of_format hformat hdev
  obtain ⟨⟨k, hpow⟩, hcount⟩ := volume_of_format hformat hdev
  have hlaws := trivial_laws hpow hcount
  obtain ⟨hgood, hd, hcov⟩ := hrun.invariant
    (I := fun t => Good m.shared.superblock (fun _ _ => True) (fun _ _ => True) t ∧
      DiskInv m.shared.superblock t ∧ Covered m.shared.superblock t)
    ⟨formatted_good hformat d hlaws, formatted_diskInv hformat hl d, Covered.of_current (.inr rfl)⟩
    fun t a u ht hguard hstep => by
      obtain ⟨hg, hd, hcov⟩ := ht
      have hfind := hd.finds hl hg.frame hstep
      have hmove := step_moves hstep
      exact ⟨hg.step hl.sector_pos hlaws (fun _ _ _ _ _ _ => trivial) hfind hstep,
        hd.step hl hg hguard.1 hmove, hcov.step hl hg.frame hd hguard.2 hfind hmove⟩
  refine ⟨hd.recover_eq hl hgood.frame hcov.copy, fun w todo copy seq snaps hphase hb => ?_⟩
  simp only [Behind, hphase, not_and, not_not] at hb
  have hok := hd.phase
  simp only [WriteOk, hphase] at hok
  by_cases h0 : s.diskSeq = 0
  · exact .inl h0
  · refine .inr ?_
    rw [hok.1, hd.same (hb h0), inactiveCopy]
    rcases hd.active with hz | hone
    · rw [hz]; decide
    · rw [hone]; decide

/-- **A copy written behind the superblock loses the durable checkpoint.** -/
theorem recover_fails_behind (hdev : Device c params)
    (hformat : format c numSectors randomId params = .ok m) {s t : System c}
    (hrun : Run System.step Fits (formatted d m) as s) (hb : Behind s .next)
    (hstep : s.step .next = some t) : ∃ e, recover c t.disk = .error e := by
  have hl := layout_of_format hformat hdev
  obtain ⟨⟨k, hpow⟩, hcount⟩ := volume_of_format hformat hdev
  have hlaws := trivial_laws hpow hcount
  obtain ⟨hgood, hd⟩ := durably_of_run hdev hformat hlaws
    (fun _ _ h => ⟨fun _ _ _ _ _ _ => trivial, h⟩) hrun
  cases hphase : s.phase with
  | writeCopy todo copy seq snaps =>
    cases todo with
    | nil => simp [Behind, hphase] at hb
    | cons w todo =>
      simp only [Behind, hphase] at hb
      simp only [step, checkpointStep, hphase] at hstep
      cases hstep
      obtain ⟨hd', hseq⟩ := hd.writeCopy hl hphase
      refine hd'.recover_fails hl ?_ hb.1 fun hkept => hkept.elim hb.2 fun h => h.2 hseq
      exact hgood.frame.step (fun h => by cases h) (.writeCopy hphase)
  | _ => simp [Behind, hphase] at hb

instance (s : System c) (a : Action) : Decidable (Fits s a) := by
  unfold Fits
  split <;> infer_instance

instance (s : System c) (a : Action) : Decidable (Behind s a) := by
  unfold Behind
  split <;> infer_instance

theorem smallDevice : Device smallClient smallParams :=
  ⟨by decide, by decide, by decide, ⟨12, rfl⟩, by decide⟩

/-- One extent is published and a checkpoint written; then a second one is published. -/
def twoPublished : List Action :=
  [.reserve 0 4096, .publish 0 0, .checkpoint] ++ replicate 11 .next ++
    [.reserve 2 4096, .publish 0 0]

/-- A checkpoint whose copy cannot be written. -/
def copyError : List Action :=
  [.checkpoint] ++ replicate 4 .next ++ [.fail (.ioError "write")]

/-- After a failed copy write the first checkpoint is found. -/
theorem recover_after_copy_error :
    ∃ s, Run System.step (fun s a => Fits s a ∧ ¬ Behind s a) smallSystem
        (twoPublished ++ copyError) s ∧ s.diskSeq = 1 ∧
      recover smallClient s.disk
        = .ok (s.durable.superblock, s.durable.regions.map describe) := by
  have hsome : (checkedExec System.step (fun s a => Fits s a ∧ ¬ Behind s a) smallSystem
      (twoPublished ++ copyError)).map diskSeq = some 1 := by decide +kernel
  obtain ⟨s, hs, hseq⟩ := map_eq_some_iff.mp hsome
  have hrun := run_of_checkedExec hs
  exact ⟨s, hrun, hseq, (recover_after_errors smallDevice format_small hrun).1⟩

/-- A checkpoint whose superblock cannot be written, and the first copy sector of the next one. -/
def superblockError : List Action :=
  [.checkpoint] ++ replicate 6 .next ++ [.fail (.ioError "write"), .checkpoint] ++
    replicate 5 .next

/-- The last of these steps writes behind the superblock. -/
theorem recover_fails_behind_error :
    ∃ s, Run System.step Fits smallSystem (twoPublished ++ superblockError.dropLast) s ∧
      ∃ t, s.step .next = some t ∧ ∃ e, recover smallClient t.disk = .error e := by
  refine exists_run_and_of_checkedExec
    (fun s => decide (Behind s .next) && (s.step .next).isSome) (by decide +kernel)
    fun hrun hw => ?_
  obtain ⟨hb, hnext⟩ := Bool.and_eq_true_iff.mp hw
  obtain ⟨t, ht⟩ := isSome_iff_exists.mp hnext
  exact ⟨t, ht, recover_fails_behind smallDevice format_small hrun (of_decide_eq_true hb) ht⟩

/-- **An error on the superblock loses the durable checkpoint.** The checkpoint with sequence number
`1` is durable; the second one fails at the superblock; the third one overwrites the copy of the
first. Then `recover` fails. -/
theorem checkpoint_lost_after_superblock_error :
    ∃ s, Run System.step anyStep smallSystem (twoPublished ++ superblockError) s ∧ s.diskSeq = 1 ∧
      ∃ e, recover smallClient s.disk = .error e := by
  have hsome : (exec System.step smallSystem (twoPublished ++ superblockError)).map
      (fun s => (s.diskSeq, (recover smallClient s.disk).toOption.isNone)) = some (1, true) := by
    decide +kernel
  obtain ⟨s, hs, heq⟩ := map_eq_some_iff.mp hsome
  obtain ⟨hseq, hnone⟩ := Prod.mk.inj heq
  refine ⟨s, run_of_exec hs, hseq, ?_⟩
  cases hr : recover smallClient s.disk with
  | error e => exact ⟨e, rfl⟩
  | ok v =>
    rw [hr] at hnone
    cases hnone

end System

end Certus.ExtentManager
