import Certus.Dispatcher.WriteThroughPins
import Certus.Lib.Interleave
import Certus.MemoryTier.Pool

/-! # The calls of the dispatcher

What the procedures of the dispatcher do to the state they share: they call the dispatch map, the
memory tier, the write-through ledger, the queues of the background writers, the extent managers
and the devices. Each call is atomic. -/

namespace Certus.Dispatcher

open MemoryTier

/-- Bytes, by position. -/
abbrev Bytes := ℕ → UInt8

/-- `n` bytes are written at `p`. -/
def writeBytes (mem : Bytes) (p n : ℕ) (bytes : Bytes) : Bytes := fun x =>
  if p ≤ x ∧ x < p + n then bytes (x - p) else mem x

/-- An extent of an extent manager: reserved for a key, then published. -/
structure Extent where
  key : CacheKey
  size : ℕ
  published : Bool
  deriving DecidableEq, Repr

/-- The state the procedures of the dispatcher share. -/
structure Shared where
  map : DispatchMap
  tier : Tier
  pins : WriteThroughPins
  /-- The lock of the ledger is held from one call to the next. -/
  locked : Bool
  /-- The jobs of all drives in the order they were enqueued, each with the number of its entry. -/
  queue : List (WriteJob × ℕ)
  /-- The drives whose worker is running a job. -/
  busy : List ℕ
  /-- Reserved and published extents by location. -/
  extents : OrdMap UInt64 Extent
  dram : Bytes
  disk : Bytes
  /-- How many entries were created for a key. No procedure reads it: it tells the entries of a key
  apart. -/
  births : CacheKey → ℕ
  numDrives : ℕ
  blockSize : ℕ
  /-- The background writer runs. -/
  writer : Bool

/-! ## Calls -/

/-- The calls of the dispatch map. -/
inductive MapCall
  | lookup (key : CacheKey)
  | convertToStorage (key : CacheKey) (offset : UInt64)
  | takeRead (key : CacheKey)
  | releaseRead (key : CacheKey)
  | releaseWrite (key : CacheKey)
  | downgradeReference (key : CacheKey)
  | remove (key : CacheKey)
  | createMemoryTierEntry (key : CacheKey) (pointer : Pointer) (size : UInt32)
  | convertMemoryTierToBlock (key : CacheKey)
  | promoteBlockToMemoryTier (key : CacheKey) (pointer : Pointer) (size : UInt32)
  | tryEvictToBlock (key : CacheKey)
  | entrySize (key : CacheKey)
  | oldestKeys (n : ℕ)
  deriving DecidableEq, Repr

/-- The calls of the memory tier. -/
inductive TierCall
  | insert (key : CacheKey) (size : UInt32)
  | get (key : CacheKey)
  | peek (key : CacheKey)
  | remove (key : CacheKey)
  | contains (key : CacheKey)
  | usage
  | oldestKeys (n : ℕ)
  deriving DecidableEq, Repr

/-- The calls of the ledger. `finish` and `takeOver` leave with the lock held; `settled`,
`tookOver` and `gaveUp` release it. -/
inductive PinCall
  | pin (job : WriteJob)
  | start (key : CacheKey)
  | finish (key : CacheKey)
  | settled (key : CacheKey)
  | takeOver (key : CacheKey)
  | tookOver (key : CacheKey)
  | gaveUp (key : CacheKey)
  | recordWrite (key : CacheKey) (landed : Bool)
  deriving DecidableEq, Repr

/-- The calls of the extent managers of the drives. -/
inductive ExtentCall
  | reserve (job : WriteJob)
  | publish (loc : UInt64)
  | abort (loc : UInt64)
  | remove (loc : UInt64)
  /-- The published extents. -/
  | list
  deriving DecidableEq, Repr

/-- The calls of a procedure of the dispatcher. -/
inductive Call
  | map (c : MapCall)
  | tier (c : TierCall)
  | pins (c : PinCall)
  | extents (c : ExtentCall)
  /-- `schedule_write_through`: a job without a pin is enqueued. -/
  | enqueue (job : WriteJob)
  /-- The worker of a drive is done with its job. -/
  | jobDone (deviceIndex : ℕ)
  /-- A client's bytes are copied into the pool. -/
  | copyIn (pointer : Pointer) (size : ℕ)
  /-- Bytes of the pool are delivered to a client. -/
  | copyOut (pointer : Pointer) (size : ℕ)
  /-- An extent is read into the pool. -/
  | readExtent (loc : UInt64) (pointer : Pointer) (size : ℕ)
  /-- Bytes of the pool are written to an extent, in whole blocks. -/
  | writeExtent (loc : UInt64) (pointer : Pointer) (size : ℕ)
  /-- An extent is delivered to a client through a staging buffer outside the pool. -/
  | stageOut (loc : UInt64) (size : ℕ)
  /-- Peers are asked for keys with their sizes. -/
  | remoteLookup (entries : List (CacheKey × UInt32))
  /-- Any other operation of a device, such as waiting for the copies of a stream. -/
  | device
  deriving DecidableEq, Repr

/-- What a call of the dispatch map answers. -/
@[reducible] def MapCall.Answer : MapCall → Type
  | .lookup _ => Except DispatchMapError LookupResult
  | .entrySize _ => Except DispatchMapError UInt32
  | .oldestKeys _ => List CacheKey
  | _ => Except DispatchMapError Unit

/-- What a call of the memory tier answers. -/
@[reducible] def TierCall.Answer : TierCall → Type
  | .insert _ _ => Except MemoryTierError Pointer
  | .get _ | .peek _ => Option (Pointer × UInt32)
  | .remove _ => Except MemoryTierError Unit
  | .contains _ => Bool
  | .usage => ℕ × ℕ
  | .oldestKeys _ => List CacheKey

/-- What a call of the ledger answers. -/
@[reducible] def PinCall.Answer : PinCall → Type
  | .start _ => JobStart
  | .finish _ | .takeOver _ | .tookOver _ => Bool
  | _ => Unit

/-- What a call of an extent manager answers. -/
@[reducible] def ExtentCall.Answer : ExtentCall → Type
  | .reserve _ => Option UInt64
  | .remove _ => Bool
  | .list => List (CacheKey × UInt64)
  | _ => Unit

/-- What a call answers. -/
@[reducible] def Call.Answer : Call → Type
  | .map c => c.Answer
  | .tier c => c.Answer
  | .pins c => c.Answer
  | .extents c => c.Answer
  | .enqueue _ | .jobDone _ => Unit
  | .copyOut _ _ | .stageOut _ _ => Option Bytes
  | .remoteLookup _ => List (Except RemoteLookupError Unit)
  | _ => Bool

/-! ## Effects -/

/-- What the world outside contributes to a call. -/
structure Oracle where
  /-- The operation of the device succeeds. -/
  ok : Bool := true
  /-- The keys the eviction policy names. -/
  keys : List CacheKey := []
  /-- The bytes that arrive. -/
  bytes : Bytes := fun _ => 0
  /-- Where an extent is placed. -/
  loc : UInt64 := 0
  /-- What the peers answer. -/
  remote : List (Except RemoteLookupError Unit) := []

/-- The eviction policy may name `keys` when asked for `n` of those that satisfy `tracked`. -/
def Oracle.Names (keys : List CacheKey) (n : ℕ) (tracked : CacheKey → Bool) : Prop :=
  keys.Nodup ∧ keys.length ≤ n ∧ ∀ k ∈ keys, tracked k = true

instance (keys : List CacheKey) (n : ℕ) (tracked : CacheKey → Bool) :
    Decidable (Oracle.Names keys n tracked) :=
  inferInstanceAs (Decidable (_ ∧ _ ∧ _))

/-- The effect and the answer of a call of the dispatch map. -/
def MapCall.exec : (c : MapCall) → List CacheKey → DispatchMap → Option (c.Answer × DispatchMap)
  | .lookup k, _, m => some (m.lookup k)
  | .convertToStorage k offset, _, m => some (m.convertToStorage k offset)
  | .takeRead k, _, m => some (m.takeRead k)
  | .releaseRead k, _, m => some (m.releaseRead k)
  | .releaseWrite k, _, m => some (m.releaseWrite k)
  | .downgradeReference k, _, m => some (m.downgradeReference k)
  | .remove k, _, m => some (m.remove k)
  | .createMemoryTierEntry k p n, _, m => some (m.createMemoryTierEntry k p n)
  | .convertMemoryTierToBlock k, _, m => some (m.convertMemoryTierToBlock k)
  | .promoteBlockToMemoryTier k p n, _, m => some (m.promoteBlockToMemoryTier k p n)
  | .tryEvictToBlock k, _, m => some (m.tryEvictToBlock k)
  | .entrySize k, _, m => some (m.entrySize k, m)
  | .oldestKeys n, keys, m =>
    if Oracle.Names keys n fun k => (m.get? k).isSome then some (keys, m) else none

/-- The effect and the answer of a call of the memory tier. -/
def TierCall.exec : (c : TierCall) → List CacheKey → Tier → Option (c.Answer × Tier)
  | .insert k n, _, t => some (t.insert k n)
  | .get k, _, t => some (t.peek k, t)
  | .peek k, _, t => some (t.peek k, t)
  | .remove k, _, t => some (t.remove k)
  | .contains k, _, t => some (t.contains k, t)
  | .usage, _, t => some ((t.used, t.capacity), t)
  | .oldestKeys n, keys, t => if Oracle.Names keys n t.contains then some (keys, t) else none

/-- The effect and the answer of a call of the ledger. A call that takes the lock waits until it is
free. -/
def PinCall.exec : (c : PinCall) → Shared → Option (c.Answer × Shared)
  | .pin job, s =>
    if s.locked then none
    else some ((), { s with
      pins := s.pins.pin job.key s.writer
      queue := if s.writer then s.queue ++ [(job, s.births job.key)] else s.queue })
  | .start k, s =>
    if s.locked then none
    else some ((s.pins.start k).1, { s with pins := (s.pins.start k).2 })
  | .finish k, s =>
    if s.locked then none
    else some ((s.pins.finish k).1, { s with pins := (s.pins.finish k).2, locked := true })
  | .settled k, s => some ((), { s with pins := s.pins.forgetIfIdle k, locked := false })
  | .takeOver k, s =>
    if s.locked then none else some ((s.pins.state k).pinned, { s with locked := true })
  | .tookOver k, s =>
    some ((s.pins.takeOver k).1, { s with pins := (s.pins.takeOver k).2, locked := false })
  | .gaveUp _, s => some ((), { s with locked := false })
  | .recordWrite k landed, s => some ((), { s with pins := s.pins.recordWrite k landed })

/-- The bytes `[loc, loc + size)` of the drives are no part of an extent, and lie on the drive of
the job. -/
def Shared.Fresh (s : Shared) (job : WriteJob) (loc : UInt64) (size : ℕ) : Prop :=
  (decodeLoc loc).1 = job.deviceIndex % s.numDrives ∧
    ∀ e ∈ s.extents.entries, Seg.Disjoint (loc.toNat, size) (e.1.toNat, e.2.size)

instance (s : Shared) (job : WriteJob) (loc : UInt64) (size : ℕ) :
    Decidable (s.Fresh job loc size) :=
  inferInstanceAs (Decidable (_ ∧ ∀ e ∈ _, (_ ∨ _)))

/-- The bytes written for a job: its size in whole blocks. -/
def Shared.alignedBytes (s : Shared) (job : WriteJob) : ℕ :=
  nextMultipleOf job.size.toNat s.blockSize

/-- The effect and the answer of a call of an extent manager. -/
def ExtentCall.exec : (c : ExtentCall) → Oracle → Shared → Option (c.Answer × Shared)
  | .reserve job, o, s =>
    if !o.ok then some (none, s)
    else if s.Fresh job o.loc (s.alignedBytes job) then
      some (some o.loc,
        { s with extents := s.extents.insert o.loc ⟨job.key, s.alignedBytes job, false⟩ })
    else none
  | .publish loc, _, s =>
    some ((), match s.extents.get? loc with
      | some e => { s with extents := s.extents.insert loc { e with published := true } }
      | none => s)
  | .abort loc, _, s => some ((), { s with extents := s.extents.erase loc })
  | .remove loc, _, s =>
    match s.extents.get? loc with
    | some ⟨_, _, true⟩ => some (true, { s with extents := s.extents.erase loc })
    | _ => some (false, s)
  | .list, _, s =>
    some (s.extents.entries.filterMap fun e =>
      if e.2.published then some (e.2.key, e.1) else none, s)

/-- The number of entries created for a key, after a call of the dispatch map. -/
def MapCall.births : (c : MapCall) → c.Answer → (CacheKey → ℕ) → CacheKey → ℕ
  | .createMemoryTierEntry k _ _, .ok (), births =>
    fun k' => if k' = k then births k + 1 else births k'
  | _, _, births => births

/-- The effect and the answer of a call. -/
def Call.exec : (c : Call) → Oracle → Shared → Option (c.Answer × Shared)
  | .map c, o, s =>
    (c.exec o.keys s.map).map fun p =>
      (p.1, { s with map := p.2, births := c.births p.1 s.births })
  | .tier c, o, s => (c.exec o.keys s.tier).map fun p => (p.1, { s with tier := p.2 })
  | .pins c, _, s => c.exec s
  | .extents c, o, s => c.exec o s
  | .enqueue job, _, s =>
    some ((), { s with
      queue := if s.writer then s.queue ++ [(job, s.births job.key)] else s.queue })
  | .jobDone d, _, s => some ((), { s with busy := s.busy.erase (d % s.numDrives) })
  | .copyIn p n, o, s => some (o.ok, { s with dram := writeBytes s.dram p n o.bytes })
  | .copyOut p _, o, s => some (if o.ok then some fun i => s.dram (p + i) else none, s)
  | .readExtent loc p n, o, s =>
    some (o.ok, { s with
      dram := writeBytes s.dram p n
        (if o.ok then fun i => s.disk (loc.toNat + i) else o.bytes) })
  | .writeExtent loc p n, o, s =>
    some (o.ok, { s with
      disk := writeBytes s.disk loc.toNat (nextMultipleOf n s.blockSize)
        (if o.ok then fun i => s.dram (p + i) else o.bytes) })
  | .stageOut loc _, o, s =>
    some (if o.ok then some fun i => s.disk (loc.toNat + i) else none, s)
  | .remoteLookup _, o, s => some (o.remote, s)
  | .device, o, s => some (o.ok, s)

end Certus.Dispatcher
