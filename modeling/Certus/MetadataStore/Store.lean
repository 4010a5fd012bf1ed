import Certus.Lib.History
import Certus.Lib.Run
import Certus.MetadataStore.Format

/-! # Flushes and restarts of the extended metadata store

`flush.rs`, `recovery.rs` and `initialize_from_client` over a device whose sector reads and writes may
fail, and that may lose power after any sector write.

* **`flushToDisk`**, **`recoverFromDisk`**, **`initializeFromClient`** — the code.
* **`World`**, **`World.step`** — flushes, restarts and crashes, with a log.
* **`World.snapshot_recovered`** — every recovery returns a candidate and a candidate stays
  recoverable, if the active region can be read at every start and no flush follows one whose
  superblock did not reach the device. -/

namespace Certus.MetadataStore

open List Superblock

open Sectors hiding count

/-- The sectors of the partition. -/
abbrev Disk := ℕ → List UInt8

/-! ## Block I/O -/

/-- The block device client. Sectors hold at least 512 bytes. -/
structure BlockDeviceClient where
  sectorSize : UInt32
  baseLba : UInt64
  sectorSize_ge : 512 ≤ sectorSize.toNat

open BlockDeviceClient

/-- What becomes of a sector write; one that is not reported as done may have landed. -/
inductive WriteResult where
  | done
  | failed (message : String) (landed : Bool)
  | crashed (landed : Bool)
  deriving DecidableEq

/-- How a call that writes ends. -/
inductive Outcome where
  | ok
  | err (message : String)
  | crashed
  deriving DecidableEq

namespace BlockDeviceClient

variable (client : BlockDeviceClient)

/-- The size of a sector. -/
abbrev size : ℕ := client.sectorSize.toNat

/-- The loop of `read_sectors`: up to the first sector that cannot be read. -/
def readLoop (disk : Disk) (fault : ℕ → Option String) (lba i : ℕ) : ℕ → Except String (List UInt8)
  | 0 => .ok []
  | count + 1 =>
    match fault i with
    | some e =>
      .error ("ReadSync error at LBA " ++ toString (client.baseLba.toNat + lba + i) ++ ": " ++ e)
    | none =>
      match readLoop disk fault lba (i + 1) count with
      | .ok rest => .ok (fit client.size (disk (lba + i)) ++ rest)
      | .error e => .error e

def readSectors (disk : Disk) (fault : ℕ → Option String) (lba count : ℕ) :
    Except String (List UInt8) :=
  client.readLoop disk fault lba 0 count

/-- The loop of `write_sectors`: up to the first sector that cannot be written. -/
def writeLoop (result : ℕ → WriteResult) : ℕ → List (ℕ × List UInt8) → Disk → Outcome × Disk
  | _, [], disk => (.ok, disk)
  | i, w :: ws, disk =>
    match result i with
    | .done => writeLoop result (i + 1) ws (write disk w)
    | .failed e landed =>
      (.err ("WriteSync error at LBA " ++ toString (client.baseLba.toNat + w.1) ++ ": " ++ e),
        if landed then write disk w else disk)
    | .crashed landed => (.crashed, if landed then write disk w else disk)

def writeSectors (result : ℕ → WriteResult) (disk : Disk) (lba : ℕ) (data : List UInt8) :
    Outcome × Disk :=
  client.writeLoop result 0 (writes client.size lba data) disk

def writeSuperblock (result : WriteResult) (disk : Disk) (sb : Superblock) : Outcome × Disk :=
  client.writeSectors (fun _ => result) disk 0 (sb.serialize client.size)

def readSuperblock (disk : Disk) (fault : Option String) : Except String (Option Superblock) :=
  match client.readSectors disk (fun _ => fault) 0 1 with
  | .ok data => .ok (deserialize data)
  | .error e => .error e

/-- The superblock on the device. -/
def superblockOn (disk : Disk) : Option Superblock :=
  deserialize (read client.size disk 0 1)

variable {client}

theorem size_pos (client : BlockDeviceClient) : 0 < client.size :=
  Nat.lt_of_lt_of_le (by decide) client.sectorSize_ge

variable {disk : Disk} {fault : ℕ → Option String} {result : ℕ → WriteResult}
  {ws : List (ℕ × List UInt8)}

theorem readLoop_of_ok {lba : ℕ} (count i : ℕ) (h : ∀ j, j < i + count → fault j = none) :
    client.readLoop disk fault lba i count = .ok (read client.size disk (lba + i) count) := by
  induction count generalizing i with
  | zero => rfl
  | succ count ih =>
    rw [readLoop, h i (by omega)]
    dsimp only
    rw [ih (i + 1) fun j hj => h j (by omega), read_succ]
    rfl

theorem readSectors_of_ok {lba count : ℕ} (h : ∀ i < count, fault i = none) :
    client.readSectors disk fault lba count = .ok (read client.size disk lba count) :=
  readLoop_of_ok count 0 fun j hj => h j (by omega)

theorem readSuperblock_none (disk : Disk) :
    client.readSuperblock disk none = .ok (client.superblockOn disk) := by
  unfold readSuperblock
  rfl

theorem writeLoop_of_not_mem {l : ℕ} (h : ∀ w ∈ ws, l ≠ w.1) (i : ℕ) (disk : Disk) :
    (client.writeLoop result i ws disk).2 l = disk l := by
  induction ws generalizing i disk with
  | nil => rfl
  | cons w ws ih =>
    have hw : write disk w l = disk l := if_neg (h w (mem_cons_self ..))
    rw [writeLoop]
    cases result i with
    | done => exact (ih (fun w' hw' => h w' (mem_cons_of_mem _ hw')) _ _).trans hw
    | failed e landed | crashed landed => cases landed <;> [rfl; exact hw]

theorem writeLoop_of_ok {i : ℕ} (h : (client.writeLoop result i ws disk).1 = .ok) :
    (client.writeLoop result i ws disk).2 = ws.foldl write disk := by
  induction ws generalizing i disk with
  | nil => rfl
  | cons w ws ih =>
    rw [writeLoop] at h ⊢
    cases hresult : result i with
    | done =>
      rw [hresult] at h
      exact ih h
    | failed e landed | crashed landed =>
      rw [hresult] at h
      exact nomatch h

/-- A superblock is written as a whole or not at all. -/
theorem writeSuperblock_cases (client : BlockDeviceClient) (result : WriteResult) (disk : Disk)
    (sb : Superblock) :
    ((client.writeSuperblock result disk sb).1 ≠ .ok ∧
        (client.writeSuperblock result disk sb).2 = disk) ∨
      (client.writeSuperblock result disk sb).2
        = Sectors.write disk (0, sb.serialize client.size) := by
  have hlen : (sb.serialize client.size).length = (0 + 1) * client.size := by simp
  have hws : writes client.size 0 (sb.serialize client.size) = [(0, sb.serialize client.size)] := by
    rw [writes_cons client.size_pos hlen, take_of_length_le (by simp), drop_of_length_le (by simp)]
    simp [writes, Sectors.count, Nat.div_eq_of_lt (Nat.sub_one_lt client.size_pos.ne')]
  unfold writeSuperblock writeSectors
  rw [hws, writeLoop]
  cases result with
  | done => exact .inr rfl
  | failed e landed | crashed landed => cases landed <;> simp

/-- The superblock that was written is the one on the device. -/
theorem superblockOn_write {sb : Superblock} (disk : Disk) (hmagic : sb.magic = superblockMagic)
    (hversion : sb.version = formatVersion) :
    client.superblockOn (write disk (0, sb.serialize client.size)) = some sb := by
  have hself : write disk (0, sb.serialize client.size) 0 = sb.serialize client.size :=
    if_pos rfl
  have hsize : 84 ≤ client.size := Nat.le_trans (by decide) client.sectorSize_ge
  rw [superblockOn, read_one, hself, fit_of_length (length_serialize ..),
    deserialize_serialize hsize hmagic hversion]

/-- The superblock on the device is what the first sector says. -/
theorem superblockOn_congr {disk disk' : Disk} (h : disk' 0 = disk 0) :
    client.superblockOn disk' = client.superblockOn disk := by
  rw [superblockOn, superblockOn, read_one, read_one, h]

end BlockDeviceClient

/-! ## Flush -/

/-- The results of the writes of a flush. -/
structure FlushWrites where
  region : ℕ → WriteResult
  superblock : WriteResult

/-- The superblock after a flush. -/
def Superblock.flushed (sb : Superblock) (entries : List KvEntry) : Superblock :=
  { sb with
    activeRegion := if sb.activeRegion = 0 then 1 else 0
    flushSeq := sb.flushSeq + 1
    entryCount := .ofNat entries.length }

section

variable (client : BlockDeviceClient)

/-- `flush_to_disk`: how it ends, the superblock in memory and the device. The superblock in memory is
advanced before it is written. -/
def flushToDisk (results : FlushWrites) (disk : Disk)
    (superblock : Superblock) (entries : List KvEntry) : Outcome × Superblock × Disk :=
  let newSeq := superblock.flushSeq + 1
  let regionData := serializeRegion entries newSeq client.size
  let regionSectors := bytesToSectors regionData.length client.size
  let maxRegionSectors := superblock.regionASize.toNat
  if regionSectors > maxRegionSectors then
    (.err ("region data (" ++ toString regionSectors ++ " sectors) exceeds region capacity (" ++
      toString maxRegionSectors ++ " sectors)"), superblock, disk)
  else
    match client.writeSectors results.region disk superblock.inactiveRegionOffset.toNat regionData with
    | (.ok, disk) =>
      let superblock := superblock.flushed entries
      let (outcome, disk) := client.writeSuperblock results.superblock disk superblock
      (outcome, superblock, disk)
    | (outcome, disk) => (outcome, superblock, disk)

/-! ## Recovery -/

/-- The errors of the reads of a recovery. -/
structure ReadFaults where
  superblock : Option String
  active : ℕ → Option String
  inactive : ℕ → Option String

/-- All reads succeed. -/
def ReadFaults.none : ReadFaults := ⟨.none, fun _ => .none, fun _ => .none⟩

structure RecoveryResult where
  superblock : Superblock
  entries : List KvEntry
  warnings : List String

/-- `format_fresh`. The sector it reads is not looked at. -/
def formatFresh : RecoveryResult where
  superblock := .new client.sectorSize 0
  entries := []
  warnings := ["fresh format: no valid data on partition"]

def tryReadRegion (disk : Disk) (fault : ℕ → Option String)
    (offsetSectors maxSectors : UInt64) : Except String (RegionHeader × List KvEntry) :=
  match client.readSectors disk fault offsetSectors.toNat maxSectors.toNat with
  | .error e => .error e
  | .ok data =>
    match deserializeRegion data client.size with
    | some region => .ok region
    | none => .error "region header corrupt or invalid"

/-- The second half of `recover_from_disk`: the inactive region, whatever its sequence number. -/
def recoverInactive (faults : ReadFaults) (disk : Disk)
    (sb : Superblock) (warning : String) : RecoveryResult :=
  match tryReadRegion client disk faults.inactive sb.inactiveRegionOffset sb.regionASize with
  | .ok (_, entries) =>
    { superblock := sb
      entries
      warnings := [warning, "recovered from inactive region (previous checkpoint)"] }
  | .error _ => formatFresh client

def recoverFromDisk (faults : ReadFaults) (disk : Disk) : Except String RecoveryResult :=
  match client.readSuperblock disk faults.superblock with
  | .error e => .error e
  | .ok none => .ok (formatFresh client)
  | .ok (some sb) =>
    if sb.flushSeq = 0 then .ok ⟨sb, [], []⟩
    else
      match tryReadRegion client disk faults.active sb.activeRegionOffset sb.regionASize with
      | .ok (header, entries) =>
        if header.flushSeq = sb.flushSeq then .ok ⟨sb, entries, []⟩
        else
          .ok (recoverInactive client faults disk sb
            "active region flush_seq mismatch, trying inactive")
      | .error e =>
        .ok (recoverInactive client faults disk sb
          ("active region corrupt: " ++ e ++ ", trying inactive"))

/-- `initialize_from_client`: how it ends, the device and, if it succeeds, the superblock and the
entries. -/
def initializeFromClient (faults : ReadFaults) (result : WriteResult)
    (disk : Disk) (totalSectors : UInt64) : Outcome × Disk × Option (Superblock × List KvEntry) :=
  match recoverFromDisk client faults disk with
  | .error e => (.err e, disk, none)
  | .ok recovered =>
    if recovered.superblock.partitionSectors = 0 then
      let sb := new client.sectorSize totalSectors
      match client.writeSuperblock result disk sb with
      | (.ok, disk) => (.ok, disk, some (sb, recovered.entries))
      | (outcome, disk) => (outcome, disk, none)
    else (.ok, disk, some (recovered.superblock, recovered.entries))

end

/-! ## Runs -/

/-- What a store has been seen to do: a flush, with whether its superblock write was completed, and a
start. -/
inductive Act where
  | flushed (entries : List KvEntry) (completed : Bool)
  | recovered (entries : List KvEntry)
  deriving DecidableEq

/-- A store on its partition. -/
structure Store where
  client : BlockDeviceClient
  totalSectors : UInt64

/-- The device, the superblock of the store while it is running, and the log, newest first. -/
structure World where
  disk : Disk
  running : Option Superblock
  log : List Act

/-- One step. -/
inductive Event where
  | start (faults : ReadFaults) (result : WriteResult)
  | flush (results : FlushWrites) (entries : List KvEntry)
  | crash

namespace World

/-- A partition on which nothing was flushed yet. -/
def fresh (disk : Disk) : World := ⟨disk, none, []⟩

/-- A start of the store. -/
def start (store : Store) (w : World) (faults : ReadFaults) (result : WriteResult) : World :=
  match initializeFromClient store.client faults result w.disk store.totalSectors with
  | (_, disk, some (sb, entries)) => ⟨disk, some sb, .recovered entries :: w.log⟩
  | (_, disk, none) => { w with disk }

/-- A flush of the running store. -/
def flush (store : Store) (w : World) (sb : Superblock) (results : FlushWrites)
    (entries : List KvEntry) : World :=
  match flushToDisk store.client results w.disk sb entries with
  | (outcome, sb, disk) =>
    { disk
      running := if outcome = .crashed then none else some sb
      log := .flushed entries (outcome = .ok) :: w.log }

def step (store : Store) (w : World) : Event → Option World
  | .start faults result =>
    match w.running with
    | none => some (w.start store faults result)
    | some _ => none
  | .flush results entries =>
    match w.running with
    | some sb => some (w.flush store sb results entries)
    | none => none
  | .crash => some { w with running := none }

end World

/-- The entries of the last flush that was completed or of a later one; none before the first. -/
def Candidate : List Act → List KvEntry → Prop
  | [], entries => entries = []
  | .recovered _ :: past, entries => Candidate past entries
  | .flushed flushed true :: _, entries => entries = flushed
  | .flushed flushed false :: past, entries => entries = flushed ∨ Candidate past entries

instance (log : List Act) (entries : List KvEntry) : Decidable (Candidate log entries) := by
  induction log with
  | nil => exact inferInstanceAs (Decidable (entries = []))
  | cons act past ih =>
    cases act with
    | recovered _ => exact ih
    | flushed flushed completed =>
      cases completed with
      | true => exact inferInstanceAs (Decidable (entries = flushed))
      | false => exact inferInstanceAs (Decidable (entries = flushed ∨ Candidate past entries))

/-- A recovery returns the entries of one flush, and of none that a completed one replaced. -/
def OneSnapshot (past : List Act) : Act → Prop
  | .recovered entries => Candidate past entries
  | .flushed _ _ => True

/-- A recovery without read errors would return such entries now. -/
def Recoverable (store : Store) (w : World) : Prop :=
  match recoverFromDisk store.client .none w.disk with
  | .ok recovered => Candidate w.log recovered.entries
  | .error _ => False

/-- The steps for which the design works: the active region can be read at a start, and a flush
begins with the superblock of the device in memory. The other conditions say that lengths and the
sequence number fit their fields. -/
def Careful (store : Store) (w : World) : Event → Prop
  | .start faults _ =>
    match store.client.superblockOn w.disk with
    | some sb => sb.flushSeq ≠ 0 → ∀ i < sb.regionASize.toNat, faults.active i = none
    | none => True
  | .flush _ entries =>
    w.running = store.client.superblockOn w.disk ∧ Storable entries ∧
      ∀ sb ∈ w.running, sb.flushSeq + 1 ≠ 0
  | .crash => True

instance (store : Store) (w : World) (e : Event) : Decidable (Careful store w e) := by
  cases e with
  | start faults result =>
    unfold Careful
    cases store.client.superblockOn w.disk <;> infer_instance
  | flush results entries =>
    unfold Careful
    infer_instance
  | crash => exact inferInstanceAs (Decidable True)

/-! ## The invariant -/

section Invariant

variable {store : Store} {w : World} {sb : Superblock} {entries : List KvEntry}

/-- A superblock of the store: the one it was formatted with, but for what a flush changes. -/
def Superblock.Of (store : Store) (sb : Superblock) : Prop :=
  ∃ active seq count, sb = { new store.client.sectorSize store.totalSectors with
    activeRegion := active, flushSeq := seq, entryCount := count }

/-- The device holds a snapshot that may be recovered: none was flushed, or the active region is the
image of a candidate. -/
def Holds (store : Store) (disk : Disk) (log : List Act) (sb : Superblock) : Prop :=
  (sb.flushSeq = 0 ∧ Candidate log []) ∨
    (sb.flushSeq ≠ 0 ∧ ∃ entries rest, Storable entries ∧ Candidate log entries ∧
      read store.client.size disk sb.activeRegionOffset.toNat sb.regionASize.toNat
        = serializeRegion entries sb.flushSeq store.client.size ++ rest)

/-- What every careful step keeps. -/
structure Sound (store : Store) (w : World) : Prop where
  throughout : Throughout OneSnapshot w.log
  holds : (store.client.superblockOn w.disk = none ∧ Candidate w.log []) ∨
    ∃ sb, store.client.superblockOn w.disk = some sb ∧ sb.Of store ∧ Holds store w.disk w.log sb

namespace Superblock.Of

theorem magic_eq (h : sb.Of store) : sb.magic = superblockMagic := by
  obtain ⟨_, _, _, rfl⟩ := h
  rfl

theorem version_eq (h : sb.Of store) : sb.version = formatVersion := by
  obtain ⟨_, _, _, rfl⟩ := h
  rfl

theorem partitionSectors_eq (h : sb.Of store) : sb.partitionSectors = store.totalSectors := by
  obtain ⟨_, _, _, rfl⟩ := h
  rfl

theorem new (store : Store) : (new store.client.sectorSize store.totalSectors).Of store :=
  ⟨_, _, _, rfl⟩

theorem flushed (h : sb.Of store) (entries : List KvEntry) : (sb.flushed entries).Of store := by
  obtain ⟨_, _, _, rfl⟩ := h
  exact ⟨_, _, _, rfl⟩

/-- The regions lie behind the superblock and beside each other. -/
theorem regions (h : sb.Of store) (hsize : 0 < sb.regionASize.toNat) :
    0 < sb.inactiveRegionOffset.toNat ∧
      (sb.activeRegionOffset.toNat + sb.regionASize.toNat ≤ sb.inactiveRegionOffset.toNat ∨
        sb.inactiveRegionOffset.toNat + sb.regionASize.toNat ≤ sb.activeRegionOffset.toNat) := by
  obtain ⟨active, seq, count, rfl⟩ := h
  simp only [Superblock.new, activeRegionOffset, inactiveRegionOffset] at hsize ⊢
  by_cases ht : store.totalSectors > 1
  · rw [if_pos ht] at hsize ⊢
    have hone : (1 : UInt64).toNat = 1 := rfl
    have hlt := UInt64.lt_iff_toNat_lt.mp ht
    have hregion : ((store.totalSectors - 1) / 2).toNat = (store.totalSectors.toNat - 1) / 2 := by
      rw [UInt64.toNat_div, UInt64.toNat_sub_of_le _ _ (UInt64.le_of_lt ht)]
      rfl
    have hsum : (1 + (store.totalSectors - 1) / 2).toNat
        = 1 + (store.totalSectors.toNat - 1) / 2 := by
      have := store.totalSectors.toNat_lt
      rw [UInt64.toNat_add, hregion]
      exact Nat.mod_eq_of_lt (by omega)
    split_ifs <;> omega
  · rw [if_neg ht] at hsize
    exact absurd hsize (by decide)

end Superblock.Of

variable {log : List Act} {disk : Disk} {faults : ReadFaults} {result : WriteResult}

theorem Candidate.attempt {flushed : List KvEntry} (h : Candidate log entries) :
    Candidate (.flushed flushed false :: log) entries :=
  .inr h

theorem Candidate.self (log : List Act) (completed : Bool) :
    Candidate (.flushed entries completed :: log) entries := by
  cases completed with
  | true => exact rfl
  | false => exact .inl rfl

theorem Holds.mono {disk disk' : Disk} {log log' : List Act} (h : Holds store disk log sb)
    (hlog : ∀ entries, Candidate log entries → Candidate log' entries)
    (hdisk : ∀ l, sb.activeRegionOffset.toNat ≤ l →
      l < sb.activeRegionOffset.toNat + sb.regionASize.toNat → disk' l = disk l) :
    Holds store disk' log' sb := by
  rcases h with ⟨hseq, hnil⟩ | ⟨hseq, entries, rest, hfit, hcand, hread⟩
  · exact .inl ⟨hseq, hlog _ hnil⟩
  · exact .inr ⟨hseq, entries, rest, hfit, hlog _ hcand, by rw [read_congr hdisk, hread]⟩

/-- The snapshot is recovered if the active region can be read. -/
theorem Holds.recoverFromDisk (h : Holds store disk log sb)
    (hon : store.client.superblockOn disk = some sb) (hread : faults.superblock = none)
    (hactive : sb.flushSeq ≠ 0 → ∀ i < sb.regionASize.toNat, faults.active i = none) :
    ∃ entries, recoverFromDisk store.client faults disk = .ok ⟨sb, entries, []⟩ ∧
      Candidate log entries := by
  unfold MetadataStore.recoverFromDisk
  rw [hread, readSuperblock_none, hon]
  dsimp only
  rcases h with ⟨hseq, hnil⟩ | ⟨hseq, entries, rest, hfit, hcand, hregion⟩
  · exact ⟨[], if_pos hseq, hnil⟩
  · refine ⟨entries, ?_, hcand⟩
    have hsize : 20 ≤ store.client.size := Nat.le_trans (by decide) store.client.sectorSize_ge
    have htry : tryReadRegion store.client disk faults.active sb.activeRegionOffset sb.regionASize
        = .ok (regionHeader entries sb.flushSeq store.client.size, entries) := by
      unfold tryReadRegion
      rw [readSectors_of_ok (hactive hseq), hregion]
      dsimp only
      rw [deserializeRegion_serializeRegion hsize hfit]
    rw [if_neg hseq, htry]
    exact if_pos rfl

/-! ## Steps -/

theorem Sound.fresh (h : store.client.superblockOn disk = none) : Sound store (.fresh disk) :=
  ⟨trivial, .inl ⟨h, rfl⟩⟩

theorem Sound.recoverable (h : Sound store w) : Recoverable store w := by
  unfold Recoverable
  rcases h.holds with ⟨hnone, hnil⟩ | ⟨sb, hon, -, hholds⟩
  · unfold recoverFromDisk
    rw [show ReadFaults.none.superblock = none from rfl, readSuperblock_none, hnone]
    exact hnil
  · obtain ⟨entries, hrec, hcand⟩ := hholds.recoverFromDisk hon
      (show ReadFaults.none.superblock = none from rfl) fun _ _ _ => rfl
    rw [hrec]
    exact hcand

theorem Sound.recovered (h : Sound store w) (hcand : Candidate w.log entries)
    (running : Option Superblock) : Sound store ⟨w.disk, running, .recovered entries :: w.log⟩ :=
  ⟨⟨hcand, h.throughout⟩, h.holds⟩

theorem Sound.format (h : Sound store w) (hnil : Candidate w.log []) (result : WriteResult) :
    Sound store { w with disk := (store.client.writeSuperblock result w.disk
      (.new store.client.sectorSize store.totalSectors)).2 } := by
  rcases store.client.writeSuperblock_cases result w.disk
    (.new store.client.sectorSize store.totalSectors) with ⟨-, hsame⟩ | hwritten
  · rw [hsame]
    exact h
  · rw [hwritten]
    exact ⟨h.throughout, .inr ⟨_, superblockOn_write _ rfl rfl, .new store,
      .inl ⟨rfl, hnil⟩⟩⟩

/-- An empty partition holds no flush. -/
theorem Holds.nil_of_totalSectors (h : Holds store disk log sb) (hof : sb.Of store)
    (htotal : store.totalSectors = 0) : Candidate log [] := by
  rcases h with ⟨-, hnil⟩ | ⟨-, entries, rest, -, -, hread⟩
  · exact hnil
  · obtain ⟨active, seq, count, rfl⟩ := hof
    obtain ⟨n, hn⟩ := length_serializeRegion store.client.size_pos entries seq
    have hlen := congrArg List.length hread
    rw [length_read, length_append, hn] at hlen
    have hzero : (new store.client.sectorSize store.totalSectors).regionASize.toNat = 0 := by
      rw [htotal]
      rfl
    have := store.client.size_pos
    rw [show ∀ k, (n + 1) * store.client.size + k = n * store.client.size + store.client.size + k
      from fun k => by rw [Nat.succ_mul], hzero, Nat.zero_mul] at hlen
    omega

variable (h : Sound store w)
include h

/-- What a careful start recovers; it formats nothing that was flushed. -/
theorem Sound.recover (hcareful : Careful store w (.start faults result))
    (hread : faults.superblock = none) :
    ∃ recovered, recoverFromDisk store.client faults w.disk = .ok recovered ∧
      Candidate w.log recovered.entries ∧
        (recovered.superblock.partitionSectors = 0 → Candidate w.log []) := by
  rcases h.holds with ⟨hnone, hnil⟩ | ⟨sb, hon, hof, hholds⟩
  · refine ⟨formatFresh store.client, ?_, hnil, fun _ => hnil⟩
    unfold recoverFromDisk
    rw [hread, readSuperblock_none, hnone]
  · have hactive : sb.flushSeq ≠ 0 → ∀ i < sb.regionASize.toNat, faults.active i = none := by
      unfold Careful at hcareful
      rw [hon] at hcareful
      exact hcareful
    obtain ⟨entries, hrec, hcand⟩ := hholds.recoverFromDisk hon hread hactive
    refine ⟨_, hrec, hcand, fun hzero => hholds.nil_of_totalSectors hof ?_⟩
    rw [← hof.partitionSectors_eq, hzero]

theorem Sound.start (hcareful : Careful store w (.start faults result)) :
    Sound store (w.start store faults result) := by
  unfold World.start initializeFromClient
  cases hread : faults.superblock with
  | some e =>
    have herr : ∃ e', recoverFromDisk store.client faults w.disk = .error e' := by
      unfold recoverFromDisk readSuperblock readSectors
      rw [hread]
      exact ⟨_, rfl⟩
    obtain ⟨e', he'⟩ := herr
    rw [he']
    exact h
  | none =>
    obtain ⟨recovered, hrec, hcand, hnil⟩ := h.recover hcareful hread
    rw [hrec]
    dsimp only
    by_cases hzero : recovered.superblock.partitionSectors = 0
    · rw [if_pos hzero]
      have hformat := h.format (hnil hzero) result
      rcases hwrite : store.client.writeSuperblock result w.disk
        (.new store.client.sectorSize store.totalSectors) with ⟨outcome, disk⟩
      rw [hwrite] at hformat
      cases outcome with
      | ok => exact hformat.recovered hcand _
      | err e | crashed => exact hformat
    · rw [if_neg hzero]
      exact h.recovered hcand _

/-- A flush that did not get to its superblock leaves the device with what it held. -/
theorem Sound.attempt (hon : store.client.superblockOn w.disk = some sb)
    (hzero : disk 0 = w.disk 0) (hdisk : ∀ l, sb.activeRegionOffset.toNat ≤ l →
      l < sb.activeRegionOffset.toNat + sb.regionASize.toNat → disk l = w.disk l)
    (running : Option Superblock) :
    Sound store ⟨disk, running, .flushed entries false :: w.log⟩ := by
  rcases h.holds with ⟨hnone, -⟩ | ⟨sb', hon', hof, hholds⟩
  · exact nomatch hnone.symm.trans hon
  · cases hon.symm.trans hon'
    exact ⟨⟨trivial, h.throughout⟩, .inr ⟨sb, (superblockOn_congr hzero).trans hon,
      hof, hholds.mono (fun _ => Candidate.attempt) hdisk⟩⟩

theorem Sound.commit {rest : List UInt8} (hof : sb.Of store)
    (hfit : Storable entries) (hseq : sb.flushSeq + 1 ≠ 0)
    (hregion : read store.client.size disk sb.inactiveRegionOffset.toNat
      sb.regionASize.toNat = serializeRegion entries (sb.flushSeq + 1) store.client.size ++ rest)
    (hactive : 0 < sb.inactiveRegionOffset.toNat) (running : Option Superblock) (completed : Bool) :
    Sound store ⟨Sectors.write disk (0, (sb.flushed entries).serialize store.client.size), running,
      .flushed entries completed :: w.log⟩ := by
  have hof' := hof.flushed entries
  have hoffset : (sb.flushed entries).activeRegionOffset = sb.inactiveRegionOffset := by
    unfold flushed activeRegionOffset inactiveRegionOffset
    dsimp only
    by_cases hsb : sb.activeRegion = 0
    · rw [if_pos hsb, if_pos hsb, if_neg (by decide)]
    · rw [if_neg hsb, if_neg hsb, if_pos rfl]
  refine ⟨⟨trivial, h.throughout⟩, .inr ⟨_, superblockOn_write _ hof'.magic_eq
    hof'.version_eq, hof', .inr ⟨hseq, entries, rest, hfit, .self _ _, ?_⟩⟩⟩
  rw [hoffset]
  refine (read_congr fun l hl _ => ?_).trans hregion
  exact if_neg (by simp only; omega)

theorem Sound.flush {results : FlushWrites} (hrunning : w.running = some sb)
    (hcareful : Careful store w (.flush results entries)) :
    Sound store (w.flush store sb results entries) := by
  obtain ⟨hsame, hfit, hseq⟩ := hcareful
  have hon : store.client.superblockOn w.disk = some sb := hsame.symm.trans hrunning
  have hnext := hseq sb hrunning
  obtain ⟨n, hn⟩ := length_serializeRegion store.client.size_pos entries (sb.flushSeq + 1)
  have hcount := bytesToSectors_mul store.client.size_pos (n + 1)
  rw [← hn] at hcount
  unfold World.flush flushToDisk
  dsimp only
  rw [hcount]
  by_cases hcap : n + 1 > sb.regionASize.toNat
  · rw [if_pos hcap]
    exact h.attempt hon rfl (fun _ _ _ => rfl) _
  · rw [if_neg hcap]
    rcases h.holds with ⟨hnone, -⟩ | ⟨sb', hon', hof, hholds⟩
    · exact nomatch hnone.symm.trans hon
    cases hon.symm.trans hon'
    obtain ⟨hinactive, hbeside⟩ := hof.regions (by omega)
    -- the writes of the region touch neither the superblock nor the active region
    have hframe : ∀ l, (l < sb.inactiveRegionOffset.toNat ∨
        sb.inactiveRegionOffset.toNat + sb.regionASize.toNat ≤ l) →
        (store.client.writeSectors results.region w.disk sb.inactiveRegionOffset.toNat
          (serializeRegion entries (sb.flushSeq + 1) store.client.size)).2 l = w.disk l := by
      intro l hl
      refine writeLoop_of_not_mem (fun w' hw' => ?_) _ _
      have hmem := mem_writes hw'
      rw [hn, count_mul store.client.size_pos] at hmem
      omega
    rcases hwrite : store.client.writeSectors results.region w.disk sb.inactiveRegionOffset.toNat
      (serializeRegion entries (sb.flushSeq + 1) store.client.size) with ⟨outcome, disk⟩
    rw [hwrite] at hframe
    have hattempt : ∀ running, Sound store ⟨disk, running, .flushed entries false :: w.log⟩ :=
      h.attempt hon (hframe 0 (by omega)) fun l hl hl' => hframe l (by omega)
    cases outcome with
    | err e | crashed => exact hattempt _
    | ok =>
      dsimp only
      have hdisk : disk = (writes store.client.size sb.inactiveRegionOffset.toNat
          (serializeRegion entries (sb.flushSeq + 1) store.client.size)).foldl write
            w.disk := by
        have := writeLoop_of_ok (congrArg Prod.fst hwrite)
        rw [← this]
        exact (congrArg Prod.snd hwrite).symm
      have hregion : read store.client.size disk sb.inactiveRegionOffset.toNat
          sb.regionASize.toNat = serializeRegion entries (sb.flushSeq + 1) store.client.size ++
            read store.client.size disk (sb.inactiveRegionOffset.toNat + (n + 1))
              (sb.regionASize.toNat - (n + 1)) := by
        conv_lhs => rw [show sb.regionASize.toNat = (n + 1) + (sb.regionASize.toNat - (n + 1)) by
          omega, read_add]
        rw [hdisk, read_writes store.client.size_pos hn]
      rcases store.client.writeSuperblock_cases
        results.superblock disk (sb.flushed entries) with ⟨hfailed, hlost⟩ | hwritten
      · rw [hlost, decide_eq_false hfailed]
        exact hattempt _
      · rw [hwritten]
        exact h.commit hof hfit hnext hregion hinactive _ _

/-- **The step lemma.** -/
theorem Sound.step {e : Event} {w' : World} (hcareful : Careful store w e)
    (hstep : w.step store e = some w') : Sound store w' := by
  cases e with
  | crash =>
    cases hstep
    exact ⟨h.throughout, h.holds⟩
  | start faults result =>
    unfold World.step at hstep
    cases hrunning : w.running with
    | some sb => rw [hrunning] at hstep; exact nomatch hstep
    | none =>
      rw [hrunning] at hstep
      cases hstep
      exact h.start hcareful
  | flush results entries =>
    unfold World.step at hstep
    cases hrunning : w.running with
    | none => rw [hrunning] at hstep; exact nomatch hstep
    | some sb =>
      rw [hrunning] at hstep
      cases hstep
      exact h.flush hrunning hcareful

end Invariant

namespace World

/-- **One whole snapshot.** If every start can read the active region and every flush begins with the
superblock of the device, then every recovery returns the entries of one flush, the last that was
completed or a later one, and after every step such a snapshot can be recovered. -/
theorem snapshot_recovered (store : Store) (disk : Disk)
    (hblank : store.client.superblockOn disk = none) (events : List Event) (w : World)
    (hrun : Run (step store) (Careful store) (fresh disk) events w) :
    Throughout OneSnapshot w.log ∧ Recoverable store w := by
  have hsound : Sound store w :=
    hrun.invariant (Sound.fresh hblank) fun _ _ _ h hcareful hstep => h.step hcareful hstep
  exact ⟨hsound.throughout, hsound.recoverable⟩

/-- A store with two regions of two sectors. -/
def sampleStore : Store := ⟨⟨512, 0, by decide⟩, 5⟩

/-- A flush of one entry. -/
def sampleEntries : List KvEntry := [(⟨[107], by decide⟩, [1])]

/-- All writes succeed. -/
def allWritten : FlushWrites := ⟨fun _ => .done, .done⟩

theorem snapshot_recovered_flush : ∃ w, Run (step sampleStore) (Careful sampleStore)
    (fresh fun _ => []) [.start .none .done, .flush allWritten sampleEntries, .crash,
      .start .none .done] w ∧
    w.log = [.recovered sampleEntries, .flushed sampleEntries true, .recovered []] ∧
    Throughout OneSnapshot w.log ∧ Recoverable sampleStore w := by
  refine exists_run_and_of_checkedExec (fun w => decide (w.log = [.recovered sampleEntries,
    .flushed sampleEntries true, .recovered []])) (by decide +kernel) fun hrun hlog => ?_
  exact ⟨of_decide_eq_true hlog, snapshot_recovered sampleStore _ (by decide +kernel) _ _ hrun⟩

/-- **A read error formats the partition.** After a completed flush, the first sector of the active
region cannot be read at the next start: the store starts empty, and the snapshot is gone. -/
theorem formatted_on_read_error : ∃ events w, Run (step sampleStore) anyStep (fresh fun _ => [])
    events w ∧ ¬ Throughout OneSnapshot w.log ∧ ¬ Recoverable sampleStore w := by
  obtain ⟨w, hrun, hw⟩ := exists_run_of_exec (show (exec (step sampleStore) (fresh fun _ => [])
    [.start .none .done, .flush allWritten sampleEntries, .crash,
      .start ⟨none, fun _ => some "media error", fun _ => none⟩ .done]).any (fun w =>
        decide (w.log = [.recovered [], .flushed sampleEntries true, .recovered []]) &&
        match recoverFromDisk sampleStore.client .none w.disk with
        | .ok recovered => decide (¬ Candidate w.log recovered.entries)
        | .error _ => false) by decide +kernel)
  rw [Bool.and_eq_true, decide_eq_true_eq] at hw
  refine ⟨_, w, hrun, fun h => ?_, fun h => ?_⟩
  · rw [hw.1] at h
    have hcand : Candidate [.flushed sampleEntries true, .recovered []] [] := h.1
    exact absurd hcand (by decide)
  · unfold Recoverable at h
    cases hrec : recoverFromDisk sampleStore.client .none w.disk with
    | ok recovered =>
      rw [hrec] at h hw
      exact absurd h (of_decide_eq_true hw.2)
    | error e =>
      rw [hrec] at h
      exact h

end World

end Certus.MetadataStore
