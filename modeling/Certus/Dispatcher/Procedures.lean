import Certus.Dispatcher.Calls

/-! # The procedures of the dispatcher

The procedures of the dispatcher as programs over its calls: stores, removal, evictions, promotion,
lookups of one key, and the write jobs of the background writers. The choices a procedure leaves to
its surroundings are parameters: how often a store polls before its deadline, how many rounds
`clear_memory_tier` gets before its timeout, which drive a store is given. A deployment has at least
one data drive; the paths for none are left out.

* **`remove`, `removeEntry`** — removal, with the takeover of a write-through pin. -/

namespace Certus.Dispatcher

/-- A procedure of the dispatcher. -/
abbrev Proc := Prog Call.Answer

namespace Proc

/-! ## Calls as programs -/

/-- The program that makes one call. -/
abbrev perform (c : Call) : Proc c.Answer := Prog.perform c

section Calls

variable (key : CacheKey) (pointer : Pointer) (size : UInt32)

def lookup : Proc (Except DispatchMapError LookupResult) := perform (.map (.lookup key))

def convertToStorage (offset : UInt64) : Proc (Except DispatchMapError Unit) :=
  perform (.map (.convertToStorage key offset))

def takeRead : Proc (Except DispatchMapError Unit) := perform (.map (.takeRead key))

def releaseRead : Proc (Except DispatchMapError Unit) := perform (.map (.releaseRead key))

def releaseWrite : Proc (Except DispatchMapError Unit) := perform (.map (.releaseWrite key))

def downgradeReference : Proc (Except DispatchMapError Unit) :=
  perform (.map (.downgradeReference key))

def mapRemove : Proc (Except DispatchMapError Unit) := perform (.map (.remove key))

def createMemoryTierEntry : Proc (Except DispatchMapError Unit) :=
  perform (.map (.createMemoryTierEntry key pointer size))

def convertMemoryTierToBlock : Proc (Except DispatchMapError Unit) :=
  perform (.map (.convertMemoryTierToBlock key))

def promoteBlockToMemoryTier : Proc (Except DispatchMapError Unit) :=
  perform (.map (.promoteBlockToMemoryTier key pointer size))

def tryEvictToBlock : Proc (Except DispatchMapError Unit) := perform (.map (.tryEvictToBlock key))

def entrySize : Proc (Except DispatchMapError UInt32) := perform (.map (.entrySize key))

def mapOldestKeys (n : ℕ) : Proc (List CacheKey) := perform (.map (.oldestKeys n))

def tierInsert : Proc (Except MemoryTierError Pointer) := perform (.tier (.insert key size))

def tierGet : Proc (Option (Pointer × UInt32)) := perform (.tier (.get key))

def tierPeek : Proc (Option (Pointer × UInt32)) := perform (.tier (.peek key))

def tierRemove : Proc (Except MemoryTierError Unit) := perform (.tier (.remove key))

def tierContains : Proc Bool := perform (.tier (.contains key))

def tierUsage : Proc (ℕ × ℕ) := perform (.tier .usage)

def tierOldestKeys (n : ℕ) : Proc (List CacheKey) := perform (.tier (.oldestKeys n))

def copyIn (n : ℕ) : Proc Bool := perform (.copyIn pointer n)

def copyOut (n : ℕ) : Proc (Option Bytes) := perform (.copyOut pointer n)

def readExtent (loc : UInt64) (n : ℕ) : Proc Bool := perform (.readExtent loc pointer n)

def stageOut (loc : UInt64) (n : ℕ) : Proc (Option Bytes) := perform (.stageOut loc n)

def device : Proc Bool := perform .device

end Calls

/-! ## Making room -/

def evictScanStep : ℕ := 4

def evictScanMax : ℕ := 1024

/-- Demote a key and free its slot, if that is possible. -/
def demote (key : CacheKey) : Proc Bool := do
  match ← tryEvictToBlock key with
  | .ok () =>
    let _ ← tierRemove key
    pure true
  | .error _ => pure false

/-- Demote the first candidate that can be demoted, and free its slot. -/
def demoteFirst : List CacheKey → Proc Bool
  | [] => pure false
  | cand :: rest => do
      if ← demote cand then pure true else demoteFirst rest

/-- Free one slot among those of the `scan` oldest keys. -/
def evictOneClean (scan : ℕ) : Proc Bool := do demoteFirst (← tierOldestKeys scan)

/-- One attempt of `evict_for_space`: a scan, and one at full depth if it finds nothing. -/
def evictAttempt (scan : ℕ) : Proc Bool := do
  if ← evictOneClean scan then pure true
  else if scan < evictScanMax then evictOneClean evictScanMax
  else pure false

/-- Evict until `needed` bytes are free; `remaining` attempts are left out of `maxAttempts`. -/
def evictForSpaceLoop (needed : UInt32) (maxAttempts : ℕ) : ℕ → Proc (Except DispatcherError Unit)
  | 0 => do
      let (used, capacity) ← tierUsage
      if used + needed.toNat ≤ capacity then pure (.ok ())
      else pure (.error (.allocationFailed "memory-tier pool full after eviction"))
  | remaining + 1 => do
      let (used, capacity) ← tierUsage
      if used + needed.toNat ≤ capacity then pure (.ok ())
      else if ← evictAttempt (min (evictScanStep * (maxAttempts - remaining)) evictScanMax) then
        evictForSpaceLoop needed maxAttempts remaining
      else
        pure (.error (.allocationFailed
          "memory-tier full: no eviction candidate is both written through and unpinned"))

def evictForSpace (needed : UInt32) (maxAttempts : ℕ) : Proc (Except DispatcherError Unit) :=
  evictForSpaceLoop needed maxAttempts maxAttempts

/-- Insert, evicting once more whenever the pool is too fragmented. -/
def evictAndInsertLoop (key : CacheKey) (size : UInt32) : ℕ → Proc (Except DispatcherError Pointer)
  | 0 => do
      match ← evictForSpace size 0 with
      | .error e => pure (.error e)
      | .ok () =>
        match ← tierInsert key size with
        | .ok ptr => pure (.ok ptr)
        | .error .poolFull =>
          pure (.error (.allocationFailed "memory-tier pool full (fragmentation after eviction)"))
        | .error (.alreadyExists k) => pure (.error (.alreadyExists k))
        | .error e => pure (.error (.allocationFailed e.toString))
  | remaining + 1 => do
      match ← evictForSpace size (remaining + 1) with
      | .error e => pure (.error e)
      | .ok () =>
        match ← tierInsert key size with
        | .ok ptr => pure (.ok ptr)
        | .error .poolFull =>
          if remaining = 0 then
            pure (.error (.allocationFailed "memory-tier pool full (fragmentation after eviction)"))
          else if ← evictOneClean evictScanMax then evictAndInsertLoop key size remaining
          else
            pure (.error (.allocationFailed
              ("memory-tier full: no evictable (unpinned, persisted) entry to relieve " ++
                "fragmentation")))
        | .error (.alreadyExists k) => pure (.error (.alreadyExists k))
        | .error e => pure (.error (.allocationFailed e.toString))

variable (key : CacheKey) (size : UInt32)

/-- Reserve a slot, making room if needed. A key that has a slot is refused before anything is
evicted. -/
def evictAndInsert (maxAttempts : ℕ) : Proc (Except DispatcherError Pointer) := do
  if ← tierContains key then pure (.error (.alreadyExists key))
  else evictAndInsertLoop key size maxAttempts

/-! ## Stores -/

/-- Reserve a slot, polling as long as the pool is full. -/
def reserveLoop (key : CacheKey) (size : UInt32) (maxAttempts : ℕ) :
    ℕ → Proc (Except DispatcherError Pointer)
  | 0 => evictAndInsert key size maxAttempts
  | polls + 1 => do
      match ← evictAndInsert key size maxAttempts with
      | .error (.allocationFailed _) => reserveLoop key size maxAttempts polls
      | r => pure r

def reserveMemory (maxAttempts polls : ℕ) : Proc (Except DispatcherError Pointer) :=
  if size = 0 then pure (.error (.invalidParameter "size must be > 0"))
  else reserveLoop key size maxAttempts polls

/-- Free a reserved slot; that there is none is no error. -/
def releaseMemory : Proc Unit := do
  let _ ← tierRemove key
  pure ()

/-- Copy the client's bytes into the reserved slot. -/
def copyGpuToMemoryAsync (total : ℕ) : Proc (Except DispatcherError Unit) := do
  match ← tierGet key with
  | none => pure (.error (.keyNotFound key))
  | some (memPtr, slotSize) =>
    if total > slotSize.toNat then
      pure (.error (.invalidParameter
        ("regions total " ++ toString total ++ " bytes exceeds reserved slot " ++
          toString slotSize ++ " for key " ++ toString key)))
    else if ← copyIn memPtr total then pure (.ok ())
    else
      let _ ← tierRemove key
      pure (.error (.ioError "GPU async DMA copy failed: "))

/-- The map refused the new entry because the key has one: free the slot, unless the entry is on
this very slot. -/
def freeUnlessLive (memPtr : Pointer) : Proc Unit := do
  match ← lookup key with
  | .ok .notExist =>
    let _ ← tierRemove key
    pure ()
  | .ok (.memoryTier pointer _) =>
    let _ ← releaseRead key
    if pointer = memPtr then pure ()
    else
      let _ ← tierRemove key
      pure ()
  | .ok _ =>
    let _ ← releaseRead key
    let _ ← tierRemove key
    pure ()
  | .error _ => pure ()

/-- Register the filled slot in the dispatch map and enqueue its write-through. -/
def copyGpuToMemoryCompleted (deviceIndex : ℕ) : Proc (Except DispatcherError Unit) := do
  match ← tierGet key with
  | none => pure (.error (.keyNotFound key))
  | some (memPtr, _) =>
    match ← createMemoryTierEntry key memPtr size with
    | .error (.alreadyExists k) =>
      freeUnlessLive key memPtr
      pure (.error (.alreadyExists k))
    | .error e =>
      let _ ← tierRemove key
      pure (.error (.ioError e.toString))
    | .ok () =>
      match ← downgradeReference key with
      | .error e => pure (.error (.ioError e.toString))
      | .ok () =>
        perform (.pins (.pin ⟨key, size, deviceIndex⟩))
        pure (.ok ())

/-- The part of a store after the reservation. -/
def fillAndCommit (deviceIndex : ℕ) : Proc (Except DispatcherError Unit) := do
  match ← copyGpuToMemoryAsync key size.toNat with
  | .error e =>
    releaseMemory key
    pure (.error e)
  | .ok () =>
    if ← device then copyGpuToMemoryCompleted key size deviceIndex
    else
      releaseMemory key
      pure (.error (.ioError "stream_synchronize failed: "))

/-- Store a client's value: reserve, copy, register. A full pool drops the store. -/
def populate (maxAttempts polls deviceIndex : ℕ) : Proc (Except DispatcherError Unit) := do
  if size = 0 then pure (.error (.invalidParameter "IPC handle size must be > 0"))
  else
    match ← reserveMemory key size maxAttempts polls with
    | .error (.allocationFailed _) => pure (.ok ())
    | .error e => pure (.error e)
    | .ok _ => fillAndCommit key size deviceIndex

/-! ## Removal -/

/-- What `remove` learns first: the location to free, and what it flipped away. -/
structure Probe where
  blockOffset : Option UInt64 := none
  flipped : Option (Pointer × UInt32) := none
  deriving DecidableEq, Repr

/-- Find the location on the block device. An entry in the memory tier is flipped to its
block-device state for it. -/
def removeProbe : Proc (Except DispatcherError Probe) := do
  match ← lookup key with
  | .ok (.blockDevice offset) =>
    let _ ← releaseRead key
    pure (.ok { blockOffset := some offset })
  | .ok (.memoryTier pointer size) =>
    let converted ← convertMemoryTierToBlock key
    let _ ← releaseRead key
    match converted with
    | .error _ => pure (.ok {})
    | .ok () =>
      match ← lookup key with
      | .ok (.blockDevice offset) =>
        let _ ← releaseRead key
        pure (.ok { blockOffset := some offset, flipped := some (pointer, size) })
      | .ok (.memoryTier _ _) =>
        let _ ← releaseRead key
        pure (.ok {})
      | _ => pure (.ok {})
  | .ok _ => pure (.ok {})
  | .error _ => pure (.error (.keyNotFound key))

/-- Remove an entry whose reference may be the write-through pin, taking the pin over. The answer is
whether the running job is to free the slot, or `none` if the entry stays. -/
def removeEntry : Proc (Option Bool) := do
  if ← (perform (.pins (.takeOver key)) : Proc Bool) then
    match ← releaseRead key with
    | .error _ =>
      perform (.pins (.gaveUp key))
      pure none
    | .ok () =>
      match ← mapRemove key with
      | .error _ =>
        let _ ← takeRead key
        perform (.pins (.gaveUp key))
        pure none
      | .ok () =>
        let jobFreesSlot : Bool ← perform (.pins (.tookOver key))
        pure (some jobFreesSlot)
  else
    match ← mapRemove key with
    | .error _ =>
      perform (.pins (.gaveUp key))
      pure none
    | .ok () =>
      perform (.pins (.gaveUp key))
      pure (some false)

/-- Put back what the probe flipped away. -/
def unflip : Option (Pointer × UInt32) → Proc Unit
  | some (pointer, size) => do
      let _ ← promoteBlockToMemoryTier key pointer size
      pure ()
  | none => pure ()

/-- Free the slot, unless the job does, and the extent. -/
def freeRemoved (jobFreesSlot : Bool) (blockOffset : Option UInt64) :
    Proc (Except DispatcherError Unit) := do
  if jobFreesSlot then pure ()
  else
    let _ ← tierRemove key
  match blockOffset with
  | some loc =>
    let _ ← (perform (.extents (.remove loc)) : Proc Bool)
    pure (.ok ())
  | none => pure (.ok ())

def remove : Proc (Except DispatcherError Unit) := do
  match ← removeProbe key with
  | .error e => pure (.error e)
  | .ok probe =>
    match ← mapRemove key with
    | .ok () => freeRemoved key false probe.blockOffset
    | .error (.activeReferences _) =>
      match ← removeEntry key with
      | some jobFreesSlot => freeRemoved key jobFreesSlot probe.blockOffset
      | none =>
        unflip key probe.flipped
        pure (.error (.keyNotFound key))
    | .error _ => pure (.error (.keyNotFound key))

/-! ## Write jobs -/

/-- Write a slot to an extent that is reserved for it. -/
def writeReserved (job : WriteJob) (memPtr : Pointer) : Proc (Option UInt64) := do
  let reserved : Option UInt64 ← perform (.extents (.reserve job))
  match reserved with
  | none => pure none
  | some loc =>
    if ← (perform (.writeExtent loc memPtr job.size.toNat) : Proc Bool) then
      perform (.extents (.publish loc))
      pure (some loc)
    else
      perform (.extents (.abort loc))
      pure none

/-- Copy the slot of the key to a drive. -/
def writeThrough (job : WriteJob) : Proc (Option UInt64) := do
  match ← tierPeek job.key with
  | none => pure none
  | some (memPtr, _) => writeReserved job memPtr

/-- Record the SSD copy and drop the pin, or just drop the pin. -/
def settleWriteThrough : Option UInt64 → Proc Unit
  | some blockOffset => do
      let _ ← convertToStorage key blockOffset
      pure ()
  | none => do
      let _ ← releaseRead key
      pure ()

/-- `remove` took the entry while the job was reading the slot. -/
def discardWritten (written : Option UInt64) : Proc Unit := do
  let _ ← tierRemove key
  match written with
  | some loc =>
    let _ ← (perform (.extents (.remove loc)) : Proc Bool)
    pure ()
  | none => pure ()

def runWriteJob (job : WriteJob) : Proc Unit := do
  let started : JobStart ← perform (.pins (.start job.key))
  match started with
  | .stale => pure ()
  | .untracked =>
    let written ← writeThrough job
    settleWriteThrough job.key written
    perform (.pins (.recordWrite job.key written.isSome))
  | .owned =>
    let written ← writeThrough job
    if ← (perform (.pins (.finish job.key)) : Proc Bool) then
      perform (.pins (.recordWrite job.key written.isSome))
      settleWriteThrough job.key written
    else discardWritten job.key written
    perform (.pins (.settled job.key))

/-- A round of the worker of a drive. -/
def workerRound (job : WriteJob) : Proc Unit := do
  runWriteJob job
  perform (.jobDone job.deviceIndex)

/-! ## Evictions in the background -/

/-- The candidates of the memory-tier evictor, one after the other; it may stop after any of them,
at the latest when the pool is empty enough. -/
def demoteAll : List CacheKey → Proc Unit
  | [] => pure ()
  | key :: rest => do
      if ← demote key then
        if ← device then demoteAll rest else pure ()
      else demoteAll rest

/-- A round of the memory-tier evictor. -/
def memoryTierEvictor (scan : ℕ) : Proc Unit := do demoteAll (← tierOldestKeys scan)

/-- Where the data of an entry that is only on a drive is. -/
def getEvictableOffset : Proc (Option UInt64) := do
  match ← lookup key with
  | .ok (.blockDevice offset) =>
    let _ ← releaseRead key
    pure (some offset)
  | .ok (.memoryTier _ _) =>
    let _ ← releaseRead key
    pure none
  | _ => pure none

/-- Remove a key that is only on a drive, with its extent. -/
def evictOneFromSsd : Proc Bool := do
  match ← getEvictableOffset key with
  | none => pure false
  | some offset =>
    match ← mapRemove key with
    | .error _ => pure false
    | .ok () =>
      let _ ← tierRemove key
      let _ ← (perform (.extents (.remove offset)) : Proc Bool)
      pure true

/-- The candidates of the SSD evictor. -/
def evictFromSsd : List CacheKey → Proc Unit
  | [] => pure ()
  | key :: rest => do
      if ← evictOneFromSsd key then
        if ← device then evictFromSsd rest else pure ()
      else evictFromSsd rest

/-- A round of the SSD evictor. -/
def ssdEvictor (batch : ℕ) : Proc Unit := do evictFromSsd (← mapOldestKeys batch)

/-- Remove an entry that cannot be demoted; `false` if it is pinned. -/
def clearEntry : Proc Bool := do
  match ← mapRemove key with
  | .error (.activeReferences _) => pure false
  | _ =>
    let _ ← tierRemove key
    pure true

/-- Take a key out of the memory tier; `false` if it is pinned. -/
def clearKey : Proc Bool := do
  match ← tryEvictToBlock key with
  | .ok () =>
    let _ ← tierRemove key
    pure true
  | .error (.activeReferences _) => pure false
  | .error _ => clearEntry key

/-- One pass over the candidates: how many were cleared and how many were pinned. -/
def clearPass : List CacheKey → Proc (ℕ × ℕ)
  | [] => pure (0, 0)
  | key :: rest => do
      let done ← clearKey key
      let (cleared, pinned) ← clearPass rest
      pure (if done then (cleared + 1, pinned) else (cleared, pinned + 1))

/-- The passes of `clear_memory_tier` until the pool is empty or the time is up. -/
def clearLoop (count pinned : ℕ) : ℕ → Proc (Except DispatcherError ℕ)
  | 0 => pure (.error (.timeout ("clear_memory_tier: " ++ toString pinned ++
      " pinned entries still resident after clearing " ++ toString count)))
  | rounds + 1 => do
      match ← tierOldestKeys (64 + pinned) with
      | [] => pure (.ok count)
      | candidates =>
        let (cleared, pinned) ← clearPass candidates
        clearLoop (count + cleared) pinned rounds

def clearMemoryTier (rounds : ℕ) : Proc (Except DispatcherError ℕ) := clearLoop 0 0 rounds

/-- Remove the keys; the answer is which of them are gone. -/
def removeKeys : List CacheKey → Proc (List CacheKey)
  | [] => pure []
  | key :: rest => do
      match ← remove key with
      | .ok () =>
        let gone ← removeKeys rest
        pure (key :: gone)
      | .error _ => removeKeys rest

/-- Free the listed extents of the keys that are gone. -/
def freeListed (gone : List CacheKey) : List (CacheKey × UInt64) → Proc Unit
  | [] => pure ()
  | (key, loc) :: rest => do
      if key ∈ gone then
        let _ ← (perform (.extents (.remove loc)) : Proc Bool)
      freeListed gone rest

/-- The keys in the memory tier or on a drive, each once, and the published extents. -/
def listing : Proc (List CacheKey × List (CacheKey × UInt64)) := do
  let keys ← tierOldestKeys (2 ^ 64 - 1)
  let extents : List (CacheKey × UInt64) ← perform (.extents .list)
  pure ((keys ++ extents.map Prod.fst).dedup, extents)

/-- One pass over everything that is cached: how many entries were removed so far, and how many keys
are left. -/
def clearAllRound (removed : ℕ) : Proc (ℕ × ℕ) := do
  let (keys, extents) ← listing
  let gone ← removeKeys keys
  freeListed gone extents
  let (left, _) ← listing
  pure (removed + gone.length, left.length)

/-- Remove everything, until nothing is left or the time is up. -/
def clearAll (removed : ℕ) : ℕ → Proc (ℕ × ℕ)
  | 0 => clearAllRound removed
  | rounds + 1 => do
      let (removed, left) ← clearAllRound removed
      if left = 0 then pure (removed, left) else clearAll removed rounds

/-! ## Promotion and lookups -/

/-- Read an extent into a reserved slot, deliver it and flip the entry. -/
def serveInto (offset : UInt64) (size : UInt32) (memPtr : Pointer) :
    Proc (Except DispatcherError Unit) := do
  if ← readExtent memPtr offset size.toNat then
    match ← copyOut memPtr size.toNat with
    | none =>
      let _ ← tierRemove key
      pure (.error (.ioError "GPU delivery failed"))
    | some _ =>
      match ← promoteBlockToMemoryTier key memPtr size with
      | .ok () => pure (.ok ())
      | .error e =>
        let _ ← tierRemove key
        pure (.error (.ioError ("promote transition failed: " ++ e.toString)))
  else
    let _ ← tierRemove key
    pure (.error (.ioError "SSD read failed"))

/-- The answer of `promote_and_serve` on a read reference that the caller holds. -/
def promoteAndServe (offset : UInt64) (size : UInt32) (maxAttempts : ℕ) :
    Proc (Except DispatcherError Unit) := do
  match ← evictAndInsert key size maxAttempts with
  | .error (.allocationFailed _) =>
    -- served through a staging buffer, if there is one: no slot, and the entry stays on the drive
    if ← device then
      match ← stageOut offset size.toNat with
      | some _ => pure (.ok ())
      | none => pure (.error (.ioError "SSD read failed"))
    else
      pure (.error (.allocationFailed
        "memory-tier full and no staging buffer available for cold load"))
  | .error e => pure (.error e)
  | .ok memPtr => serveInto key offset size memPtr

/-- One look at a key that another lookup may be promoting: `none` if it is to be looked at
again. -/
def serveRound : Proc (Option (Except DispatcherError Unit)) := do
  match ← lookup key with
  | .ok (.memoryTier pointer size) =>
    let served ← copyOut pointer size.toNat
    let _ ← releaseRead key
    pure (some (if served.isSome then .ok () else .error (.ioError "GPU DMA copy failed")))
  | .ok (.blockDevice _) =>
    let _ ← releaseRead key
    pure none
  | .ok .mismatchSize =>
    let _ ← releaseRead key
    pure (some (.error (.invalidParameter "size mismatch on concurrent-promotion recovery")))
  | .ok .notExist => pure (some (.error (.keyNotFound key)))
  | .error e => pure (some (.error (.ioError e.toString)))

/-- Wait for the promotion that another lookup has begun, and serve the key from the memory
tier. -/
def serveConcurrentlyPromoted (key : CacheKey) : ℕ → Proc (Except DispatcherError Unit)
  | 0 => pure (.error (.keyNotFound key))
  | rounds + 1 => do
      match ← serveRound key with
      | some r => pure r
      | none => serveConcurrentlyPromoted key rounds

/-- A lookup of one key. The reference is held until the key is served. -/
def lookupAsync (maxAttempts rounds : ℕ) : Proc (Except DispatcherError Unit) := do
  match ← lookup key with
  | .ok .notExist => pure (.error (.keyNotFound key))
  | .ok .mismatchSize =>
    let _ ← releaseRead key
    pure (.error (.invalidParameter "size mismatch on lookup"))
  | .ok (.memoryTier pointer slotSize) =>
    let served ← copyOut pointer slotSize.toNat
    let _ ← releaseRead key
    pure (if served.isSome then .ok () else .error (.ioError "GPU DMA copy failed"))
  | .ok (.blockDevice offset) =>
    match ← promoteAndServe key offset size maxAttempts with
    | .error (.alreadyExists _) =>
      let r ← serveConcurrentlyPromoted key rounds
      let _ ← releaseRead key
      pure r
    | r =>
      let _ ← releaseRead key
      pure r
  | .error _ => pure (.error (.keyNotFound key))

/-- Where a key is, if it is only on a drive. -/
def coldKey : Proc (Option (CacheKey × UInt64 × UInt32)) := do
  match ← lookup key with
  | .ok (.blockDevice offset) =>
    let _ ← releaseRead key
    match ← entrySize key with
    | .ok size => pure (some (key, offset, size))
    | .error _ => pure none
  | .ok (.memoryTier _ _) =>
    let _ ← releaseRead key
    pure none
  | _ => pure none

/-- The keys of `promote_to_memory_tier` that are only on a drive, with their location and size. -/
def coldKeys : List CacheKey → Proc (List (CacheKey × UInt64 × UInt32))
  | [] => pure []
  | key :: rest => do
      match ← coldKey key with
      | some cold =>
        let others ← coldKeys rest
        pure (cold :: others)
      | none => coldKeys rest

/-- Read an extent into a reserved slot and flip the entry. -/
def promoteInto (offset : UInt64) (size : UInt32) (memPtr : Pointer) : Proc Unit := do
  if ← readExtent memPtr offset size.toNat then
    match ← promoteBlockToMemoryTier key memPtr size with
    | .ok () => pure ()
    | .error _ =>
      let _ ← tierRemove key
      pure ()
  else
    let _ ← tierRemove key
    pure ()

/-- Promote one cold key. -/
def promoteOne (maxAttempts : ℕ) (key : CacheKey) (offset : UInt64) (size : UInt32) :
    Proc Unit := do
  match ← evictForSpace size maxAttempts with
  | .error _ => pure ()
  | .ok () =>
    match ← tierInsert key size with
    | .error _ => pure ()
    | .ok memPtr => promoteInto key offset size memPtr

/-- Read each cold key into a slot of its own and flip its entry. -/
def promoteCold (maxAttempts : ℕ) : List (CacheKey × UInt64 × UInt32) → Proc Unit
  | [] => pure ()
  | (key, offset, size) :: rest => do
      promoteOne maxAttempts key offset size
      promoteCold maxAttempts rest

def promoteToMemoryTier (keys : List CacheKey) (maxAttempts : ℕ) : Proc Unit := do
  promoteCold maxAttempts (← coldKeys keys)

/-- A lookup that is tried again when it fails. -/
def lookupRetrying (key : CacheKey) : ℕ → Proc (Except DispatchMapError LookupResult)
  | 0 => lookup key
  | retries + 1 => do
      match ← lookup key with
      | .error _ => lookupRetrying key retries
      | .ok r => pure (.ok r)

def lookupRetries : ℕ := 5

/-- Whether a key is cached. -/
def check : Proc (Except DispatcherError Bool) := do
  match ← lookupRetrying key lookupRetries with
  | .ok .notExist => pure (.ok false)
  | .ok _ =>
    let _ ← releaseRead key
    pure (.ok true)
  | .error (.timeout k) => pure (.error (.timeout ("timeout waiting on key: " ++ toString k)))
  | .error e => pure (.error (.ioError e.toString))

/-- A client pins a key and unpins it some time later. -/
def pinUnpin : Proc Unit := do
  match ← takeRead key with
  | .ok () =>
    let _ ← releaseRead key
    pure ()
  | .error _ => pure ()

/-- The key of a landing slot has an entry: the slot is kept if the entry has its size. -/
def keepOrFree : Proc Unit := do
  match ← entrySize key with
  | .ok sz =>
    if sz = size then pure ()
    else
      let _ ← tierRemove key
      pure ()
  | .error _ =>
    let _ ← tierRemove key
    pure ()

/-- A value is fetched from a peer into a landing slot and published. -/
def remoteFetch (deviceIndex : ℕ) : Proc Unit := do
  match ← tierInsert key size with
  | .error _ => pure ()
  | .ok memPtr =>
    if ← copyIn memPtr size.toNat then
      match ← createMemoryTierEntry key memPtr size with
      | .ok () =>
        let _ ← releaseWrite key
        perform (.enqueue ⟨key, size, deviceIndex⟩)
      | .error (.alreadyExists _) => keepOrFree key size
      | .error _ =>
        let _ ← tierRemove key
        pure ()
    else
      let _ ← tierRemove key
      pure ()

end Proc

end Certus.Dispatcher
