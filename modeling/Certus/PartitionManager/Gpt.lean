import Certus.ExtentManager.Superblock
import Certus.PartitionManager.Layout

/-! # Reading and writing the partition table

`gpt.rs` and `lib.rs` of the partition manager. The table is kept twice, behind a primary header in
the second sector and in front of a backup header in the last one; both headers and the entry arrays
carry checksums. Every sector is one command to the device, and every command may fail. -/

namespace Certus.PartitionManager

open List

open ExtentManager (crc32)

/-! ## The device -/

/-- How a call ends without a result: it returns an error, or it panics. -/
inductive Failure where
  | error (e : PartitionTableError)
  | panicked
  deriving DecidableEq, Repr

/-- `isize::MAX`, the most bytes of a `Vec`. -/
def isizeMax : ℕ := 2 ^ 63 - 1

/-- What the device and the operating system answer. -/
structure Env where
  /-- The block device is wired up. -/
  connected : Bool := true
  sectorSize : Except String UInt32
  numSectors : Except String UInt64
  /-- The error of `connect_client`, when it is called to read and when it is called to write. -/
  connectToRead : Option String := none
  connectToWrite : Option String := none
  /-- The error of each command, in the order in which they are issued. -/
  fault : ℕ → Option String := fun _ => none
  /-- Random identifiers: that of the disk and those of the partitions. -/
  diskGuid : List UInt8 := replicate 16 0
  uniqueGuid : ℕ → List UInt8 := fun _ => replicate 16 0

/-- The sectors of the disk, the commands issued so far and the addresses written to. -/
structure Io where
  disk : UInt64 → List UInt8
  issued : ℕ := 0
  written : List UInt64 := []

/-- The bytes from `start` up to `stop`. -/
def slice (bs : List UInt8) (start stop : ℕ) : List UInt8 := (bs.drop start).take (stop - start)

/-- A sector as a buffer of the given size. -/
def sectorOf (size : ℕ) (bs : List UInt8) : List UInt8 := (bs ++ replicate size 0).take size

/-! ## The format -/

/-- `EFI PART` -/
def gptSignature : ℕ := 0x5452415020494645

def gptRevision : ℕ := 0x00010000

def gptHeaderSize : ℕ := 92

/-- The header of a copy. -/
structure GptHeader where
  signature : ℕ
  revision : ℕ
  headerSize : ℕ
  headerCrc32 : ℕ
  myLba : ℕ
  alternateLba : ℕ
  firstUsableLba : ℕ
  lastUsableLba : ℕ
  diskGuid : List UInt8
  partitionEntryLba : ℕ
  numPartitionEntries : ℕ
  partitionEntrySize : ℕ
  partitionEntryCrc32 : ℕ
  deriving DecidableEq, Repr

/-- The partition table as callers see it. -/
structure PartitionTable where
  partitions : List PartitionInfo
  sectorSize : UInt32
  deriving DecidableEq, Repr

/-- The disk to be laid out. Sectors are not empty: the source divides by their size. -/
structure PartitionConfig where
  sectorSize : UInt32
  totalSectors : UInt64
  partitions : List PartitionSpec
  sectorSize_pos : 0 < sectorSize.toNat

/-- `{:#x}` -/
def hex (n : ℕ) : String := "0x" ++ String.ofList (Nat.toDigits 16 n)

/-- `String::from_utf16_lossy` -/
def fromUtf16Lossy : List ℕ → List Char
  | [] => []
  | [u] => [if u < 0xD800 ∨ 0xE000 ≤ u then Char.ofNat u else Char.ofNat 0xFFFD]
  | u :: v :: us =>
    if u < 0xD800 ∨ 0xE000 ≤ u then Char.ofNat u :: fromUtf16Lossy (v :: us)
    else if u < 0xDC00 ∧ 0xDC00 ≤ v ∧ v < 0xE000 then
      Char.ofNat (0x10000 + (u - 0xD800) * 0x400 + (v - 0xDC00)) :: fromUtf16Lossy us
    else Char.ofNat 0xFFFD :: fromUtf16Lossy (v :: us)

/-- `str::encode_utf16` -/
def encodeUtf16 (name : String) : List ℕ :=
  name.toList.flatMap fun c =>
    if c.toNat < 0x10000 then [c.toNat]
    else [0xD800 + (c.toNat - 0x10000) / 0x400, 0xDC00 + (c.toNat - 0x10000) % 0x400]

def decodeUtf16leName (data : List UInt8) : String :=
  String.ofList (fromUtf16Lossy (((range 36).map fun i =>
    leNat (slice data (i * 2) (i * 2 + 2))).takeWhile fun c => decide (c ≠ 0)))

def encodeUtf16leName (name : String) : List UInt8 :=
  let units := (encodeUtf16 name).take 36
  units.flatMap (leBytes 2) ++ replicate (72 - 2 * units.length) 0

/-- The number of sectors of a buffer. -/
def numBlocks (size len : ℕ) : ℕ := (len + size - 1) / size

/-- What the loop of `read_bytes` collects from the disk: `remaining` bytes in `blocks` sectors. -/
def blocksAt (disk : UInt64 → List UInt8) (size : ℕ) : ℕ → UInt64 → ℕ → List UInt8
  | 0, _, _ => []
  | blocks + 1, lba, remaining =>
    (sectorOf size (disk lba)).take (min remaining size) ++
      blocksAt disk size blocks (lba + 1) (remaining - min remaining size)

namespace GptManager

variable (g : GptManager) (env : Env)

/-! ### Reading -/

/-- The loop of `read_bytes`, with the commands issued so far. -/
def readBlocks (disk : UInt64 → List UInt8) :
    ℕ → UInt64 → ℕ → ℕ → Except PartitionTableError (List UInt8) × ℕ
  | 0, _, _, issued => (.ok [], issued)
  | blocks + 1, lba, remaining, issued =>
    match env.fault issued with
    | some msg => (.error (.ioError msg), issued + 1)
    | none =>
      let toCopy := min remaining g.sectorSize.toNat
      match readBlocks disk blocks (lba + 1) (remaining - toCopy) (issued + 1) with
      | (.ok rest, issued) =>
        (.ok ((sectorOf g.sectorSize.toNat (disk lba)).take toCopy ++ rest), issued)
      | (.error e, issued) => (.error e, issued)

section

variable (disk : UInt64 → List UInt8)

/-- `read_bytes`: `Vec::with_capacity` panics where the buffer would be too large. -/
def readBytes (lba : UInt64) (numBytes issued : ℕ) : Except Failure (List UInt8) × ℕ :=
  if isizeMax < numBytes then (.error .panicked, issued)
  else
    match g.readBlocks env disk (numBlocks g.sectorSize.toNat numBytes) lba numBytes issued with
    | (.ok bytes, issued) => (.ok bytes, issued)
    | (.error e, issued) => (.error (.error e), issued)

def readSector (lba : UInt64) (issued : ℕ) : Except Failure (List UInt8) × ℕ :=
  g.readBytes env disk lba g.sectorSize.toNat issued

variable (data : List UInt8)

def parseHeader : Except PartitionTableError GptHeader :=
  if data.length < gptHeaderSize then .error (.corruptTable "header too short")
  else
    let signature := leNat (slice data 0 8)
    if signature ≠ gptSignature then
      .error (.noPartitionTable ("invalid GPT signature: " ++ hex signature))
    else
      .ok {
        signature
        revision := leNat (slice data 8 12)
        headerSize := leNat (slice data 12 16)
        headerCrc32 := leNat (slice data 16 20)
        myLba := leNat (slice data 24 32)
        alternateLba := leNat (slice data 32 40)
        firstUsableLba := leNat (slice data 40 48)
        lastUsableLba := leNat (slice data 48 56)
        diskGuid := slice data 56 72
        partitionEntryLba := leNat (slice data 72 80)
        numPartitionEntries := leNat (slice data 80 84)
        partitionEntrySize := leNat (slice data 84 88)
        partitionEntryCrc32 := leNat (slice data 88 92) }

/-- The checksum of a header, with the field that holds it taken as zero. -/
def headerCrc : ℕ :=
  (crc32 (slice data 0 16 ++ replicate 4 0 ++ slice data 20 gptHeaderSize)).toNat

/-- A header sector: the signature is looked for and the checksum compared. -/
def checkHeader : Except PartitionTableError GptHeader :=
  match parseHeader data with
  | .error e => .error e
  | .ok header =>
    if headerCrc data ≠ header.headerCrc32 then
      .error (.corruptTable ("header CRC mismatch: expected " ++ hex header.headerCrc32 ++
        ", got " ++ hex (headerCrc data)))
    else .ok header

/-- The entries in a buffer. -/
def parseEntries (count : ℕ) : List GptEntry :=
  ((range count).map fun i => slice data (i * gptEntrySize) (i * gptEntrySize + gptEntrySize))
    |>.takeWhile (fun entry => decide (entry.length = gptEntrySize))
    |>.map fun entry =>
      ⟨slice entry 0 16, UInt64.ofNat (leNat (slice entry 32 40)),
        UInt64.ofNat (leNat (slice entry 40 48)), decodeUtf16leName (slice entry 56 128)⟩

/-- An array of entries: the checksum is compared. -/
def checkEntries (header : GptHeader) (data : List UInt8) :
    Except PartitionTableError PartitionTable :=
  if (crc32 data).toNat ≠ header.partitionEntryCrc32 then
    .error (.corruptTable ("partition entry CRC mismatch: expected " ++
      hex header.partitionEntryCrc32 ++ ", got " ++ hex (crc32 data).toNat))
  else .ok ⟨partitionInfos (parseEntries data header.numPartitionEntries), g.sectorSize⟩

/-- The bytes of the entry array a header announces. -/
def entryBytes (header : GptHeader) : ℕ := header.numPartitionEntries * header.partitionEntrySize

/-- Read one copy of the table. -/
def tryReadGptAt (headerLba entryLba : UInt64) (issued : ℕ) :
    Except Failure PartitionTable × ℕ :=
  match g.readSector env disk headerLba issued with
  | (.error e, issued) => (.error e, issued)
  | (.ok headerData, issued) =>
    match checkHeader headerData with
    | .error e => (.error (.error e), issued)
    | .ok header =>
      match g.readBytes env disk entryLba (entryBytes header) issued with
      | (.error e, issued) => (.error e, issued)
      | (.ok entryData, issued) => ((g.checkEntries header entryData).mapError .error, issued)

def backupLba : UInt64 := g.numSectors - 1

def backupEntryLba : UInt64 := g.backupLba - UInt64.ofNat g.entrySectors

/-- Read the table: the backup copy where the primary one is found invalid. -/
def readGpt (issued : ℕ) : Except Failure PartitionTable × ℕ :=
  let backup (issued : ℕ) :=
    match g.tryReadGptAt env disk g.backupLba g.backupEntryLba issued with
    | (.error (.error _), issued) =>
      (.error (.error (.noPartitionTable "neither primary nor backup GPT header is valid")), issued)
    | r => r
  match g.tryReadGptAt env disk 1 2 issued with
  | (.error (.error (.corruptTable _)), issued) => backup issued
  | (.error (.error (.noPartitionTable _)), issued) => backup issued
  | r => r

end

/-! ### Writing -/

/-- The sector writes of `write_bytes`; the last sector is filled up with zeros. -/
def sectorWrites (lba : UInt64) (data : List UInt8) : List (UInt64 × List UInt8) :=
  (range (numBlocks g.sectorSize.toNat data.length)).map fun i =>
    (lba + UInt64.ofNat i, sectorOf g.sectorSize.toNat (data.drop (i * g.sectorSize.toNat)))

/-- Sector writes, up to the first that fails. -/
def writeBlocks : List (UInt64 × List UInt8) → Io → Except PartitionTableError Unit × Io
  | [], io => (.ok (), io)
  | (lba, data) :: rest, io =>
    let issued : Io := { io with issued := io.issued + 1, written := io.written ++ [lba] }
    match env.fault io.issued with
    | some msg => (.error (.ioError msg), issued)
    | none => writeBlocks rest { issued with disk := fun l => if l = lba then data else io.disk l }

def serializeHeaderWithCrc (h : GptHeader) : List UInt8 :=
  let front := leBytes 8 h.signature ++ leBytes 4 h.revision ++ leBytes 4 h.headerSize
  let back := leBytes 4 0 ++ leBytes 8 h.myLba ++ leBytes 8 h.alternateLba ++
    leBytes 8 h.firstUsableLba ++ leBytes 8 h.lastUsableLba ++ h.diskGuid ++
    leBytes 8 h.partitionEntryLba ++ leBytes 4 h.numPartitionEntries ++
    leBytes 4 h.partitionEntrySize ++ leBytes 4 h.partitionEntryCrc32
  let crc := crc32 (front ++ leBytes 4 0 ++ back)
  sectorOf g.sectorSize.toNat (front ++ leBytes 4 crc.toNat ++ back)

/-- The entry array; unused entries have no identifier. -/
def serializeEntries (entries : List GptEntry) : List UInt8 :=
  entries.zipIdx.flatMap fun e =>
    e.1.typeGuid ++ (if e.1.typeGuid = zeroGuid then zeroGuid else env.uniqueGuid e.2) ++
      leBytes 8 e.1.startingLba.toNat ++ leBytes 8 e.1.endingLba.toNat ++ leBytes 8 0 ++
      encodeUtf16leName e.1.name

def protectiveMbr : List UInt8 :=
  let size := min (g.numSectors - 1).toNat 0xFFFFFFFF
  sectorOf g.sectorSize.toNat (replicate 446 0 ++
    [0x00, 0x00, 0x02, 0x00, 0xEE, 0xFF, 0xFF, 0xFF] ++ leBytes 4 1 ++ leBytes 4 size ++
    replicate 48 0 ++ [0x55, 0xAA])

/-- The sector writes of a new table, in the order of the source: the protective boot record, the
primary header and entries, the backup entries and header. -/
def tableWrites (entries : List GptEntry) : List (UInt64 × List UInt8) :=
  let entryData := serializeEntries env entries
  let primary : GptHeader := {
    signature := gptSignature
    revision := gptRevision
    headerSize := gptHeaderSize
    headerCrc32 := 0
    myLba := 1
    alternateLba := (g.numSectors - 1).toNat
    firstUsableLba := g.firstUsableLba.toNat
    lastUsableLba := g.lastUsableLba.toNat
    diskGuid := env.diskGuid
    partitionEntryLba := 2
    numPartitionEntries := gptMaxEntries
    partitionEntrySize := gptEntrySize
    partitionEntryCrc32 := (crc32 entryData).toNat }
  let backupEntryLba := g.lastUsableLba + 1
  let backup : GptHeader := { primary with
    myLba := (g.numSectors - 1).toNat
    alternateLba := 1
    partitionEntryLba := backupEntryLba.toNat }
  g.sectorWrites 0 g.protectiveMbr ++ g.sectorWrites 1 (g.serializeHeaderWithCrc primary) ++
    g.sectorWrites 2 entryData ++ g.sectorWrites backupEntryLba entryData ++
    g.sectorWrites (g.numSectors - 1) (g.serializeHeaderWithCrc backup)

/-- The entries of a new table. -/
def newEntries (specs : List PartitionSpec) : Except PartitionTableError (List GptEntry) :=
  if g.firstUsableLba ≥ g.lastUsableLba then .error (.layoutError "device too small for GPT")
  else g.computePartitionLayout specs g.firstUsableLba g.lastUsableLba

/-- Write a new table. -/
def writeGpt (specs : List PartitionSpec) (io : Io) :
    Except PartitionTableError PartitionTable × Io :=
  match g.newEntries specs with
  | .error e => (.error e, io)
  | .ok entries =>
    match writeBlocks env (g.tableWrites env entries) io with
    | (.error e, io) => (.error e, io)
    | (.ok (), io) => (.ok ⟨partitionInfos entries, g.sectorSize⟩, io)

end GptManager

/-! ## The component -/

/-- The device as the caller describes it. -/
def PartitionConfig.device (config : PartitionConfig) : GptManager :=
  ⟨config.sectorSize, config.totalSectors⟩

/-- The partition manager: the table it has read or written, and the device. -/
structure DiskPartitionManager where
  state : Option PartitionTable := none
  io : Io

namespace DiskPartitionManager

variable (env : Env)

/-- The device as `initialize` finds it. -/
def device : Except PartitionTableError GptManager :=
  if env.connected then
    match env.sectorSize with
    | .error msg => .error (.ioError msg)
    | .ok sectorSize =>
      match env.numSectors with
      | .error msg => .error (.ioError msg)
      | .ok numSectors =>
        match env.connectToRead with
        | some msg => .error (.ioError msg)
        | none => .ok ⟨sectorSize, numSectors⟩
  else .error (.notInitialized "block device not connected")

variable (m : DiskPartitionManager)

/-- Read the table. -/
def initializeTable : Except Failure PartitionTable × DiskPartitionManager :=
  match device env with
  | .error e => (.error (.error e), m)
  | .ok g =>
    match g.readGpt env m.io.disk m.io.issued with
    | (.error e, issued) => (.error e, { m with io := { m.io with issued } })
    | (.ok table, issued) => (.ok table, { state := some table, io := { m.io with issued } })

/-- Write a new table. -/
def format (config : PartitionConfig) :
    Except PartitionTableError PartitionTable × DiskPartitionManager :=
  if env.connected then
    match env.connectToWrite with
    | some msg => (.error (.ioError msg), m)
    | none =>
      match (config.device).writeGpt env config.partitions m.io with
      | (.error e, io) => (.error e, { m with io })
      | (.ok table, io) => (.ok table, { state := some table, io })
  else (.error (.notInitialized "block device not connected"), m)

/-- Read the table, or write one where none is found; the flag tells that it is a new one. -/
def initializeOrFormat (forceFormat : Bool) (config : PartitionConfig) :
    Except Failure (PartitionTable × Bool) × DiskPartitionManager :=
  let reformat (m : DiskPartitionManager) :=
    match m.format env config with
    | (.error e, m) => (.error (.error e), m)
    | (.ok table, m) => (.ok (table, true), m)
  if forceFormat then reformat m
  else
    match m.initializeTable env with
    | (.ok table, m) => (.ok (table, false), m)
    | (.error (.error (.noPartitionTable _)), m) => reformat m
    | (.error (.error (.corruptTable _)), m) => reformat m
    | (.error e, m) => (.error e, m)

/-- What the dispatcher does with the table of a data drive: with three partitions or more, it
formats the extent manager of a new table and recovers that of an old one. A panic goes through. -/
def openDrive (i : ℕ) (formatOnInit : Bool) (config : PartitionConfig) :
    Option (Except String Bool) × DiskPartitionManager :=
  match m.initializeOrFormat env formatOnInit config with
  | (.error .panicked, m) => (none, m)
  | (.error (.error e), m) =>
    (some (.error ("failed to initialize partition table for data drive " ++ toString i ++ ": " ++
      e.toString)), m)
  | (.ok (table, formatted), m) =>
    if table.partitions.length < 3 then
      (some (.error ("data drive " ++ toString i ++ " has an incompatible partition table: expected " ++
        "3 Certus partitions (metadata, extended metadata, data) but found " ++
        toString table.partitions.length ++ ". The disk has a valid GPT that is not a Certus " ++
        "layout; re-run with format_on_init to (destructively) format it.")), m)
    else (some (.ok formatted), m)

end DiskPartitionManager

/-! ## What is on the disk -/

namespace GptManager

/-- The header sector of a copy, read without errors. -/
def headerOn (g : GptManager) (disk : UInt64 → List UInt8) (headerLba : UInt64) :
    Except PartitionTableError GptHeader :=
  checkHeader (blocksAt disk g.sectorSize.toNat (numBlocks g.sectorSize.toNat g.sectorSize.toNat)
    headerLba g.sectorSize.toNat)

/-- **A copy of the table, read without errors.** -/
def gptOn (g : GptManager) (disk : UInt64 → List UInt8) (headerLba entryLba : UInt64) :
    Except PartitionTableError PartitionTable :=
  match g.headerOn disk headerLba with
  | .error e => .error e
  | .ok header =>
    g.checkEntries header (blocksAt disk g.sectorSize.toNat
      (numBlocks g.sectorSize.toNat (entryBytes header)) entryLba (entryBytes header))

/-- The header of a copy is valid, and announces more bytes of entries than a buffer can have. -/
def overruns (g : GptManager) (disk : UInt64 → List UInt8) (headerLba : UInt64) : Bool :=
  match g.headerOn disk headerLba with
  | .error _ => false
  | .ok header => isizeMax < entryBytes header

/-- The reads of a copy: the header, and the entries if the header is valid and there is a buffer. -/
def readCount (g : GptManager) (disk : UInt64 → List UInt8) (headerLba : UInt64) : ℕ :=
  numBlocks g.sectorSize.toNat g.sectorSize.toNat +
    match g.headerOn disk headerLba with
    | .error _ => 0
    | .ok header => if isizeMax < entryBytes header then 0
      else numBlocks g.sectorSize.toNat (entryBytes header)

end GptManager

/-- One of `count` commands from `start` on fails. -/
def Env.Fails (env : Env) (start count : ℕ) : Prop :=
  ∃ i < count, (env.fault (start + i)).isSome

instance (env : Env) (start count : ℕ) : Decidable (env.Fails start count) := by
  unfold Env.Fails
  infer_instance

theorem Env.fails_succ {env : Env} {start count : ℕ} :
    env.Fails start (count + 1) ↔ (env.fault start).isSome ∨ env.Fails (start + 1) count := by
  rw [Env.Fails, Nat.exists_lt_succ_left]
  simp [Env.Fails, Nat.add_assoc, Nat.add_comm 1]

theorem Env.fails_add {env : Env} {start k count : ℕ} :
    env.Fails start (k + count) ↔ env.Fails start k ∨ env.Fails (start + k) count := by
  constructor
  · rintro ⟨i, hi, hsome⟩
    by_cases hik : i < k
    · exact .inl ⟨i, hik, hsome⟩
    · exact .inr ⟨i - k, by omega, by rwa [Nat.add_assoc, Nat.add_sub_cancel' (by omega)]⟩
  · rintro (⟨i, hi, hsome⟩ | ⟨i, hi, hsome⟩)
    · exact ⟨i, by omega, hsome⟩
    · exact ⟨k + i, by omega, by rwa [← Nat.add_assoc]⟩

/-- A copy was found invalid, by its signature, a checksum or its size. -/
def invalid {α : Type} : Except PartitionTableError α → Bool
  | .error (.noPartitionTable _) | .error (.corruptTable _) => true
  | _ => false

theorem error_of_invalid {α : Type} {r : Except PartitionTableError α} (h : invalid r) :
    ∃ e, r = .error e := by
  cases r with
  | ok a => cases h
  | error e => exact ⟨e, rfl⟩

namespace GptManager

variable {g : GptManager} {env : Env} {disk : UInt64 → List UInt8}

/-! ### The read loop -/

section

variable (g : GptManager) (env : Env) (disk : UInt64 → List UInt8)

/-- Reads of which one fails give an I/O error, others what is on the disk. -/
theorem readBlocks_spec (blocks : ℕ) (lba : UInt64) (remaining issued : ℕ) :
    (env.Fails issued blocks ∧
      ∃ msg n, g.readBlocks env disk blocks lba remaining issued = (.error (.ioError msg), n)) ∨
    ¬env.Fails issued blocks ∧ g.readBlocks env disk blocks lba remaining issued
      = (.ok (blocksAt disk g.sectorSize.toNat blocks lba remaining), issued + blocks) := by
  induction blocks generalizing lba remaining issued with
  | zero => exact .inr ⟨by simp [Env.Fails], rfl⟩
  | succ blocks ih =>
    rw [readBlocks, Env.fails_succ]
    cases env.fault issued with
    | some msg => exact .inl ⟨.inl rfl, msg, issued + 1, rfl⟩
    | none =>
      rcases ih (lba + 1) (remaining - min remaining g.sectorSize.toNat) (issued + 1) with
        ⟨hfails, msg, n, hread⟩ | ⟨hfine, hread⟩
      · exact .inl ⟨.inr hfails, msg, n, by simp [hread]⟩
      · refine .inr ⟨by simpa using hfine, ?_⟩
        simp only [hread, blocksAt]
        rw [Nat.add_assoc, Nat.add_comm 1 blocks]

/-! ### One copy -/

/-- **A copy is read as it is on the disk, or not at all**: a read fails, or the buffer for the entries
is too large. -/
theorem tryReadGptAt_spec (headerLba entryLba : UInt64) (issued : ℕ) :
    (env.Fails issued (g.readCount disk headerLba) ∧ ∃ msg n,
      g.tryReadGptAt env disk headerLba entryLba issued = (.error (.error (.ioError msg)), n)) ∨
    ¬env.Fails issued (g.readCount disk headerLba) ∧
      (g.overruns disk headerLba ∧ (∃ n,
        g.tryReadGptAt env disk headerLba entryLba issued = (.error .panicked, n)) ∨
      g.overruns disk headerLba = false ∧ g.tryReadGptAt env disk headerLba entryLba issued
        = ((g.gptOn disk headerLba entryLba).mapError .error,
            issued + g.readCount disk headerLba)) := by
  have hsector : ¬ isizeMax < g.sectorSize.toNat := by
    have hlt := g.sectorSize.toNat_lt
    unfold isizeMax
    omega
  unfold tryReadGptAt readSector readBytes readCount gptOn overruns
  rw [if_neg hsector]
  set k := numBlocks g.sectorSize.toNat g.sectorSize.toNat with hk
  rcases readBlocks_spec g env disk k headerLba g.sectorSize.toNat issued with
    ⟨hheader, msg, n, hread⟩ | ⟨hheader, hread⟩
  · rw [hread]
    exact .inl ⟨Env.fails_add.mpr (.inl hheader), msg, n, rfl⟩
  · rw [hread]
    have hon : checkHeader (blocksAt disk g.sectorSize.toNat k headerLba g.sectorSize.toNat)
        = g.headerOn disk headerLba := rfl
    simp only [hon]
    cases g.headerOn disk headerLba with
    | error e => exact .inr ⟨hheader, .inr ⟨rfl, rfl⟩⟩
    | ok header =>
      dsimp only
      split_ifs with hlarge
      · exact .inr ⟨hheader, .inl ⟨decide_eq_true hlarge, _, rfl⟩⟩
      rcases readBlocks_spec g env disk (numBlocks g.sectorSize.toNat (entryBytes header)) entryLba
        (entryBytes header) (issued + k) with ⟨hentries, msg, n, hread⟩ | ⟨hentries, hread⟩
      · rw [hread]
        exact .inl ⟨Env.fails_add.mpr (.inr hentries), msg, n, rfl⟩
      · rw [hread, ← Nat.add_assoc]
        exact .inr ⟨fun h => (Env.fails_add.mp h).elim hheader hentries,
          .inr ⟨decide_eq_false hlarge, rfl⟩⟩

end

theorem checkHeader_cases (data : List UInt8) : (∃ header, checkHeader data = .ok header) ∨
      ∃ e, checkHeader data = .error e ∧ invalid (.error e : Except _ PartitionTable) := by
  unfold checkHeader
  cases hparse : parseHeader data with
  | ok header =>
    dsimp only
    split_ifs
    · exact .inr ⟨_, rfl, rfl⟩
    · exact .inl ⟨header, rfl⟩
  | error e =>
    unfold parseHeader at hparse
    dsimp only at hparse
    split_ifs at hparse
    · cases hparse
      exact .inr ⟨_, rfl, rfl⟩
    · cases hparse
      exact .inr ⟨_, rfl, rfl⟩

/-- A copy on the disk is valid, or found invalid. -/
theorem gptOn_cases (g : GptManager) (disk : UInt64 → List UInt8) (headerLba entryLba : UInt64) :
    (∃ table, g.gptOn disk headerLba entryLba = .ok table) ∨
      invalid (g.gptOn disk headerLba entryLba) := by
  unfold gptOn headerOn
  obtain ⟨header, hok⟩ | ⟨e, herr, hinv⟩ := checkHeader_cases
    (blocksAt disk g.sectorSize.toNat (numBlocks g.sectorSize.toNat g.sectorSize.toNat)
      headerLba g.sectorSize.toNat)
  · rw [hok]
    dsimp only
    unfold checkEntries
    split_ifs
    · exact .inr rfl
    · exact .inl ⟨_, rfl⟩
  · rw [herr]
    exact .inr hinv

/-! ### Both copies -/

/-- The table is one of the copies on the disk. -/
def ValidOn (g : GptManager) (disk : UInt64 → List UInt8) (table : PartitionTable) : Prop :=
  g.gptOn disk 1 2 = .ok table ∨ g.gptOn disk g.backupLba g.backupEntryLba = .ok table

/-- A read of the primary copy fails. -/
def PrimaryFails (g : GptManager) (env : Env) (io : Io) : Prop :=
  env.Fails io.issued (g.readCount io.disk 1)

/-- A read of the backup copy, after those of the primary one, fails. -/
def BackupFails (g : GptManager) (env : Env) (io : Io) : Prop :=
  env.Fails (io.issued + g.readCount io.disk 1) (g.readCount io.disk g.backupLba)

/-- The primary copy is read and found invalid. -/
def PrimaryInvalid (g : GptManager) (env : Env) (io : Io) : Prop :=
  ¬g.PrimaryFails env io ∧ g.overruns io.disk 1 = false ∧ invalid (g.gptOn io.disk 1 2)

/-- A copy that is to be read announces a buffer that is too large. -/
def Panics (g : GptManager) (env : Env) (io : Io) : Prop :=
  ¬g.PrimaryFails env io ∧ g.overruns io.disk 1 ∨
    g.PrimaryInvalid env io ∧ ¬g.BackupFails env io ∧ g.overruns io.disk g.backupLba

section

variable {io : Io}

/-- Where the primary copy is invalid, the backup copy decides. -/
theorem readGpt_of_primaryInvalid (h : g.PrimaryInvalid env io) :
    g.readGpt env io.disk io.issued
      = match g.tryReadGptAt env io.disk g.backupLba g.backupEntryLba
          (io.issued + g.readCount io.disk 1) with
        | (.error (.error _), issued) => (.error (.error
            (.noPartitionTable "neither primary nor backup GPT header is valid")), issued)
        | r => r := by
  obtain ⟨hfine, hsmall, hinv⟩ := h
  have hprimary : g.tryReadGptAt env io.disk 1 2 io.issued
      = ((g.gptOn io.disk 1 2).mapError .error, io.issued + g.readCount io.disk 1) := by
    rcases tryReadGptAt_spec g env io.disk 1 2 io.issued with
      ⟨hfails, -⟩ | ⟨-, ⟨hover, -⟩ | ⟨-, hread⟩⟩
    · exact absurd hfails hfine
    · cases hover.symm.trans hsmall
    · exact hread
  unfold readGpt
  rw [hprimary]
  revert hinv
  generalize g.gptOn io.disk 1 2 = r
  intro hinv
  unfold invalid at hinv
  split at hinv
  · rfl
  · rfl
  · cases hinv

/-- A buffer that is too large ends the call. -/
theorem readGpt_of_panics (h : g.Panics env io) :
    ∃ n, g.readGpt env io.disk io.issued = (.error .panicked, n) := by
  rcases h with ⟨hfine, hover⟩ | ⟨hinv, hfine, hover⟩
  · rcases tryReadGptAt_spec g env io.disk 1 2 io.issued with
      ⟨hfails, -⟩ | ⟨-, ⟨-, n, hread⟩ | ⟨hsmall, -⟩⟩
    · exact absurd hfails hfine
    · unfold readGpt
      rw [hread]
      exact ⟨n, rfl⟩
    · cases hover.symm.trans hsmall
  · rw [readGpt_of_primaryInvalid hinv]
    rcases tryReadGptAt_spec g env io.disk g.backupLba g.backupEntryLba
      (io.issued + g.readCount io.disk 1) with ⟨hfails, -⟩ | ⟨-, ⟨-, n, hread⟩ | ⟨hsmall, -⟩⟩
    · exact absurd hfails hfine
    · rw [hread]
      exact ⟨n, rfl⟩
    · cases hover.symm.trans hsmall

/-- **What `read_gpt` finds**, if all buffers can be had: a copy that is on the disk; an I/O error of
the primary copy; or no table, where the primary copy is invalid and the backup copy is invalid too or
cannot be read. -/
theorem readGpt_spec (h : ¬g.Panics env io) :
    (∃ table n, g.readGpt env io.disk io.issued = (.ok table, n) ∧ g.ValidOn io.disk table ∧
      (invalid (g.gptOn io.disk 1 2) = false ∨ ¬g.BackupFails env io)) ∨
    (∃ msg n, g.readGpt env io.disk io.issued = (.error (.error (.ioError msg)), n) ∧
      g.PrimaryFails env io) ∨
    ∃ msg n, g.readGpt env io.disk io.issued = (.error (.error (.noPartitionTable msg)), n) ∧
      g.PrimaryInvalid env io ∧ (g.BackupFails env io ∨ ¬g.BackupFails env io ∧
        invalid (g.gptOn io.disk g.backupLba g.backupEntryLba)) := by
  rcases tryReadGptAt_spec g env io.disk 1 2 io.issued with
    ⟨hfails, msg, n, hprimary⟩ | ⟨hfine, ⟨hover, -⟩ | ⟨hsmall, hprimary⟩⟩
  · refine .inr (.inl ⟨msg, n, ?_, hfails⟩)
    unfold readGpt
    rw [hprimary]
  · exact absurd (.inl ⟨hfine, hover⟩) h
  rcases gptOn_cases g io.disk 1 2 with ⟨table, hok⟩ | hinv
  · refine .inl ⟨table, io.issued + g.readCount io.disk 1, ?_, .inl hok, .inl ?_⟩
    · unfold readGpt
      rw [hprimary, hok]
      rfl
    · rw [hok]
      rfl
  · have hinvalid : g.PrimaryInvalid env io := ⟨hfine, hsmall, hinv⟩
    rw [readGpt_of_primaryInvalid hinvalid]
    rcases tryReadGptAt_spec g env io.disk g.backupLba g.backupEntryLba
      (io.issued + g.readCount io.disk 1) with
      ⟨hfails, msg, n, hb⟩ | ⟨hfine', ⟨hover, -⟩ | ⟨-, hb⟩⟩
    · rw [hb]
      exact .inr (.inr ⟨_, n, rfl, hinvalid, .inl hfails⟩)
    · exact absurd (.inr ⟨hinvalid, hfine', hover⟩) h
    · rw [hb]
      rcases gptOn_cases g io.disk g.backupLba g.backupEntryLba with ⟨table, hok⟩ | hinv'
      · rw [hok]
        exact .inl ⟨table, _, rfl, .inr hok, .inr hfine'⟩
      · obtain ⟨e, he⟩ := error_of_invalid hinv'
        rw [he] at hinv' ⊢
        exact .inr (.inr ⟨_, _, rfl, hinvalid, .inr ⟨hfine', hinv'⟩⟩)

end

/-! ### Writing -/

theorem writeBlocks_written (env : Env) (writes : List (UInt64 × List UInt8)) (io : Io) :
    ∃ more, (writeBlocks env writes io).2.written = io.written ++ more ∧
      (writes ≠ [] → more ≠ []) := by
  induction writes generalizing io with
  | nil => exact ⟨[], by simp [writeBlocks]⟩
  | cons w rest ih =>
    obtain ⟨lba, data⟩ := w
    rw [writeBlocks]
    cases env.fault io.issued with
    | some msg => exact ⟨[lba], rfl, by simp⟩
    | none =>
      obtain ⟨more, hmore, -⟩ := ih
        { disk := fun l => if l = lba then data else io.disk l
          issued := io.issued + 1
          written := io.written ++ [lba] }
      exact ⟨lba :: more, by simp only [hmore, append_assoc, singleton_append], by simp⟩

/-- A new table begins with the protective boot record. -/
theorem tableWrites_ne_nil (hsize : 0 < g.sectorSize.toNat) (entries : List GptEntry) :
    g.tableWrites env entries ≠ [] := by
  have hblocks : 0 < numBlocks g.sectorSize.toNat g.protectiveMbr.length := by
    unfold protectiveMbr sectorOf numBlocks
    rw [length_take, length_append, length_replicate]
    refine Nat.div_pos ?_ hsize
    omega
  unfold tableWrites sectorWrites
  simp only [ne_eq, append_eq_nil_iff, map_eq_nil_iff, range_eq_nil]
  omega

end GptManager

/-! ## A read error and a format -/

namespace DiskPartitionManager

open GptManager

variable {env : Env} {m : DiskPartitionManager} {config : PartitionConfig}

/-- A table can be written: the device takes a client and the partitions fit. -/
def Rewritable (env : Env) (config : PartitionConfig) : Prop :=
  env.connectToWrite = none ∧ ∃ entries, config.device.newEntries config.partitions = .ok entries

/-- The call, without a forced format, writes to the disk. -/
def Rewrites (env : Env) (m : DiskPartitionManager) (config : PartitionConfig) : Prop :=
  (m.initializeOrFormat env false config).2.io.written ≠ m.io.written

/-- Both copies were read without an I/O error and found invalid. -/
def BothInvalid (env : Env) (m : DiskPartitionManager) : Prop :=
  ∃ g, device env = .ok g ∧ ¬g.PrimaryFails env m.io ∧ ¬g.BackupFails env m.io ∧
    invalid (g.gptOn m.io.disk 1 2) ∧
    invalid (g.gptOn m.io.disk g.backupLba g.backupEntryLba)

/-- **The table is spared**: it is rewritten, and the extents are formatted, only if both copies were
read and found invalid; where a copy is valid, nothing is written and the call returns one that is,
or an error. -/
structure SparesTable (env : Env) (m : DiskPartitionManager) (config : PartitionConfig) : Prop where
  rewritten : Rewrites env m config → BothInvalid env m
  formatted : ∀ i, (m.openDrive env i false config).1 = some (.ok true) → BothInvalid env m
  valid : ∀ g, device env = .ok g → (∃ table, g.ValidOn m.io.disk table) →
    ¬Rewrites env m config ∧
      ((∃ e, (m.initializeOrFormat env false config).1 = .error (.error e)) ∨
        ∃ table, (m.initializeOrFormat env false config).1 = .ok (table, false) ∧
          g.ValidOn m.io.disk table)

/-- The primary copy was read and found invalid, a read of the backup copy fails, and a new table can
be written. -/
def BackupLost (env : Env) (m : DiskPartitionManager) (config : PartitionConfig) : Prop :=
  ∃ g, device env = .ok g ∧ g.PrimaryInvalid env m.io ∧ g.BackupFails env m.io ∧
    Rewritable env config

/-- A copy is valid, but the call panics: one that is read announces a buffer that is too large. -/
def Stuck (env : Env) (m : DiskPartitionManager) : Prop :=
  ∃ g, device env = .ok g ∧ g.Panics env m.io ∧ ∃ table, g.ValidOn m.io.disk table

section

variable (m : DiskPartitionManager) (config : PartitionConfig)

/-- A disk that is not found leaves the table alone. -/
theorem initializeOrFormat_of_no_device {e : PartitionTableError} (h : device env = .error e) :
    m.initializeOrFormat env false config = (.error (.error e), m) := by
  have hkind : (∃ msg, e = .ioError msg) ∨ ∃ msg, e = .notInitialized msg := by
    unfold device at h
    split_ifs at h
    · split at h
      · cases h
        exact .inl ⟨_, rfl⟩
      · split at h
        · cases h
          exact .inl ⟨_, rfl⟩
        · split at h
          · cases h
            exact .inl ⟨_, rfl⟩
          · cases h
    · cases h
      exact .inr ⟨_, rfl⟩
  unfold initializeOrFormat initializeTable
  rw [h]
  obtain ⟨msg, rfl⟩ | ⟨msg, rfl⟩ := hkind <;> rfl

/-- Formatting writes exactly if it can. -/
theorem format_written (hdevice : ∃ g, device env = .ok g) :
    ((m.format env config).2.io.written ≠ m.io.written ↔ Rewritable env config) ∧
      (¬Rewritable env config → ∃ e, (m.format env config).1 = .error e) := by
  have hconnected : env.connected := by
    obtain ⟨g, hg⟩ := hdevice
    unfold device at hg
    split_ifs at hg with h
    exact h
  unfold format Rewritable
  rw [if_pos hconnected]
  cases env.connectToWrite with
  | some msg => simp
  | none =>
    unfold writeGpt
    cases config.device.newEntries config.partitions with
    | error e => simp
    | ok entries =>
      obtain ⟨more, hmore, hne⟩ := writeBlocks_written env
        (config.device.tableWrites env entries) m.io
      have hgrow := hne (tableWrites_ne_nil config.sectorSize_pos entries)
      dsimp only
      generalize writeBlocks env (config.device.tableWrites env entries) m.io = w at hmore
      obtain ⟨r, io⟩ := w
      have hwritten : io.written ≠ m.io.written := by
        rw [show io.written = m.io.written ++ more from hmore]
        simpa using hgrow
      cases r with
      | error e | ok u => simp [hwritten]

/-- A buffer that is too large ends the call, and nothing is written. -/
theorem initializeOrFormat_of_panics {g : GptManager} (hg : device env = .ok g)
    (h : g.Panics env m.io) : ¬Rewrites env m config ∧
      (m.initializeOrFormat env false config).1 = .error .panicked := by
  obtain ⟨n, hread⟩ := readGpt_of_panics h
  unfold Rewrites initializeOrFormat initializeTable
  rw [hg]
  simp only [hread]
  exact ⟨fun hne => hne rfl, rfl⟩

/-- What the call does on a disk that is found, if all buffers can be had. -/
theorem initializeOrFormat_spec {g : GptManager} (hg : device env = .ok g)
    (hsafe : ¬g.Panics env m.io) :
    (¬Rewrites env m config ∧ (g.PrimaryFails env m.io ∨
      invalid (g.gptOn m.io.disk 1 2) = false ∨ ¬g.BackupFails env m.io) ∧
      ((∃ e, (m.initializeOrFormat env false config).1 = .error (.error e)) ∨
      ∃ table, (m.initializeOrFormat env false config).1 = .ok (table, false) ∧
        g.ValidOn m.io.disk table)) ∨
    g.PrimaryInvalid env m.io ∧
      (g.BackupFails env m.io ∨ ¬g.BackupFails env m.io ∧
        invalid (g.gptOn m.io.disk g.backupLba g.backupEntryLba)) ∧
      (Rewrites env m config ↔ Rewritable env config) ∧
      (¬Rewritable env config →
        ∃ e, (m.initializeOrFormat env false config).1 = .error (.error e)) := by
  unfold Rewrites initializeOrFormat initializeTable
  rw [hg]
  rcases readGpt_spec hsafe with
    ⟨table, n, hread, hvalid, hwhy⟩ | ⟨msg, n, hread, hfails⟩ | ⟨msg, n, hread, hinv, hbackup⟩
  · refine .inl ?_
    simp only [hread]
    exact ⟨fun h => h rfl, .inr hwhy, .inr ⟨table, rfl, hvalid⟩⟩
  · refine .inl ?_
    simp only [hread]
    exact ⟨fun h => h rfl, .inl hfails, .inl ⟨_, rfl⟩⟩
  · refine .inr ⟨hinv, hbackup, ?_⟩
    simp only [hread]
    have hformat := format_written { m with io := { m.io with issued := n } } config ⟨g, hg⟩
    revert hformat
    generalize format env { m with io := { m.io with issued := n } } config = f
    intro hformat
    obtain ⟨r, m'⟩ := f
    cases r with
    | error e => exact ⟨hformat.1, fun _ => ⟨e, rfl⟩⟩
    | ok table =>
      refine ⟨hformat.1, fun hnot => ?_⟩
      obtain ⟨e, he⟩ := hformat.2 hnot
      cases he

end

/-- The extents are formatted only with a new table. -/
theorem openDrive_formats {i : ℕ} (h : (m.openDrive env i false config).1 = some (.ok true)) :
    ∃ table, (m.initializeOrFormat env false config).1 = .ok (table, true) := by
  unfold openDrive at h
  generalize m.initializeOrFormat env false config = r at h ⊢
  obtain ⟨res, m'⟩ := r
  cases res with
  | error e => cases e <;> cases h
  | ok t =>
    obtain ⟨table, formatted⟩ := t
    dsimp only at h ⊢
    split_ifs at h
    · cases h
    · rw [Option.some.injEq, Except.ok.injEq] at h
      exact ⟨table, by rw [h]⟩

/-- A call that writes nothing and returns no new table spares the old one, if it returns where there
is a valid copy. -/
theorem sparesTable_of_not_rewrites (hnot : ¬Rewrites env m config)
    (hold : ∀ table, (m.initializeOrFormat env false config).1 ≠ .ok (table, true))
    (hvalid : ∀ g, device env = .ok g → (∃ table, g.ValidOn m.io.disk table) →
      (∃ e, (m.initializeOrFormat env false config).1 = .error (.error e)) ∨
        ∃ table, (m.initializeOrFormat env false config).1 = .ok (table, false) ∧
          g.ValidOn m.io.disk table) : SparesTable env m config where
  rewritten hr := absurd hr hnot
  formatted i hi := by
    obtain ⟨table, htable⟩ := openDrive_formats hi
    exact absurd htable (hold table)
  valid g hg htable := ⟨hnot, hvalid g hg htable⟩

/-- **A read error formats the disk exactly when it hits the backup copy of a disk whose primary copy
is invalid**: `readGpt` reports such a disk as one without a table. And the call does not return from
a disk with a valid copy exactly when it reads one that announces a buffer that is too large. -/
theorem spares_iff (env : Env) (m : DiskPartitionManager) (config : PartitionConfig) :
    SparesTable env m config ↔ ¬BackupLost env m config ∧ ¬Stuck env m := by
  constructor
  · refine fun h => ⟨?_, ?_⟩
    · rintro ⟨g, hg, hinv, hfails, hrewritable⟩
      have hsafe : ¬g.Panics env m.io := by
        rintro (⟨-, hover⟩ | ⟨-, hfine, -⟩)
        · cases hover.symm.trans hinv.2.1
        · exact hfine hfails
      have hrewrites : Rewrites env m config := by
        rcases initializeOrFormat_spec m config hg hsafe with ⟨-, hwhy, -⟩ | ⟨-, -, hiff, -⟩
        · rcases hwhy with hp | hv | hb
          · exact absurd hp hinv.1
          · cases hv.symm.trans hinv.2.2
          · exact absurd hfails hb
        · exact hiff.mpr hrewritable
      obtain ⟨g', hg', -, hfine, -⟩ := h.rewritten hrewrites
      rw [hg, Except.ok.injEq] at hg'
      exact hfine (hg' ▸ hfails)
    · rintro ⟨g, hg, hpanics, hvalid⟩
      have hcall := (initializeOrFormat_of_panics m config hg hpanics).2
      rcases (h.valid g hg hvalid).2 with ⟨e, he⟩ | ⟨table, htable, -⟩
      · cases hcall.symm.trans he
      · cases hcall.symm.trans htable
  · rintro ⟨hlost, hstuck⟩
    cases hg : device env with
    | error e =>
      have hcall := initializeOrFormat_of_no_device m config hg
      refine sparesTable_of_not_rewrites ?_ (fun table htable => ?_) fun g' hg' => ?_
      · unfold Rewrites
        rw [hcall]
        exact fun hne => hne rfl
      · rw [hcall] at htable
        cases htable
      · cases hg.symm.trans hg'
    | ok g =>
      by_cases hpanics : g.Panics env m.io
      · obtain ⟨hnot, hcall⟩ := initializeOrFormat_of_panics m config hg hpanics
        refine sparesTable_of_not_rewrites hnot (fun table htable => ?_) fun g' hg' hvalid => ?_
        · cases hcall.symm.trans htable
        · rw [hg, Except.ok.injEq] at hg'
          exact absurd ⟨g, hg, hpanics, hg' ▸ hvalid⟩ hstuck
      rcases initializeOrFormat_spec m config hg hpanics with
        ⟨hnot, -, hres⟩ | ⟨hinv, hbackup, hiff, herr⟩
      · refine sparesTable_of_not_rewrites hnot (fun table htable => ?_) fun g' hg' _ => ?_
        · rcases hres with ⟨e, he⟩ | ⟨table', ht', -⟩
          · cases he.symm.trans htable
          · cases ht'.symm.trans htable
        · rw [hg, Except.ok.injEq] at hg'
          exact hg' ▸ hres
      · have hboth : Rewritable env config → BothInvalid env m := fun hrewritable => by
          rcases hbackup with hfails | ⟨hfine, hinv'⟩
          · exact absurd ⟨g, hg, hinv, hfails, hrewritable⟩ hlost
          · exact ⟨g, hg, hinv.1, hfine, hinv.2.2, hinv'⟩
        refine ⟨fun hr => hboth (hiff.mp hr), fun i hi => ?_, fun g' hg' hvalid => ?_⟩
        · obtain ⟨table, htable⟩ := openDrive_formats hi
          refine hboth (by_contra fun hnot => ?_)
          obtain ⟨e, he⟩ := herr hnot
          cases he.symm.trans htable
        · rw [hg, Except.ok.injEq] at hg'
          subst hg'
          have hnot : ¬Rewritable env config := fun hrewritable => by
            -- both copies would be invalid, yet one is valid
            obtain ⟨g', hg', -, -, hinv₁, hinv₂⟩ := hboth hrewritable
            rw [hg, Except.ok.injEq] at hg'
            subst hg'
            obtain ⟨table, hp | hb⟩ := hvalid
            · rw [hp] at hinv₁
              cases hinv₁
            · rw [hb] at hinv₂
              cases hinv₂
          exact ⟨fun hr => hnot (hiff.mp hr), .inl (herr hnot)⟩

/-! ### A damaged primary header -/

/-- A device of 200 sectors of 512 bytes. -/
def sampleDevice : GptManager := ⟨512, 200⟩

/-- The backup header of a table without entries. -/
def sampleBackup : GptHeader :=
  ⟨gptSignature, gptRevision, gptHeaderSize, 0, 199, 1, 34, 166, replicate 16 0, 167, 0, 128, 0⟩

/-- A disk on which only the backup copy is left. -/
def damagedDisk (lba : UInt64) : List UInt8 :=
  if lba = 199 then sampleDevice.serializeHeaderWithCrc sampleBackup else []

/-- The layout of a data drive. -/
def sampleConfig : PartitionConfig where
  sectorSize := 512
  totalSectors := 200
  partitions := [⟨List.replicate 16 1, 5120, "certus-metadata"⟩,
    ⟨List.replicate 16 3, 5120, "certus-extended-metadata"⟩,
    ⟨List.replicate 16 2, 0, "certus-data"⟩]
  sectorSize_pos := by decide

/-- The second read, that of the backup header, fails once. -/
def sampleEnv : Env where
  sectorSize := .ok 512
  numSectors := .ok 200
  fault n := if n = 1 then some "media error" else none

/-- **A transient read error destroys the only table**: the primary header is damaged, the backup
copy is valid, and one failed read of it makes the call rewrite both. -/
theorem backup_overwritten_on_read_error :
    (∃ table, sampleDevice.gptOn damagedDisk sampleDevice.backupLba sampleDevice.backupEntryLba
      = .ok table) ∧ ¬SparesTable sampleEnv ⟨none, ⟨damagedDisk, 0, []⟩⟩ sampleConfig := by
  have hvalid : sampleDevice.gptOn damagedDisk sampleDevice.backupLba sampleDevice.backupEntryLba
      = .ok ⟨[], 512⟩ := by decide +kernel
  refine ⟨⟨_, hvalid⟩, fun h => ?_⟩
  obtain ⟨hnot, -⟩ := h.valid sampleDevice rfl ⟨_, .inr hvalid⟩
  refine hnot ?_
  unfold Rewrites
  decide +kernel

end DiskPartitionManager

end Certus.PartitionManager
