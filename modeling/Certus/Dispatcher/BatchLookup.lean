import Certus.Dispatcher.Procedures

/-! # Lookups of many keys

`batch_lookup` fills in one result per entry of the batch in several passes: it classifies the keys,
promotes those that are on a drive, waits for the copies of the others, asks peers for what is
missing, and serves what another lookup has promoted meanwhile. At the end every result is
unwrapped; a missing one is a panic. -/

namespace Certus.Dispatcher

/-- What is known so far about the entries of a batch. -/
structure Batch where
  results : List (Option (Except DispatcherError Unit))
  tier : List (Option ServedBy)

namespace Batch

/-- Nothing is known. -/
def start (n : ℕ) : Batch := ⟨List.replicate n none, List.replicate n none⟩

/-- The result of an entry. -/
def settle (b : Batch) (i : ℕ) (r : Except DispatcherError Unit) : Batch :=
  { b with results := b.results.set i (some r) }

/-- The tier that serves an entry. -/
def mark (b : Batch) (i : ℕ) (t : ServedBy) : Batch := { b with tier := b.tier.set i (some t) }

/-- The same result for several entries. -/
def settleAll (b : Batch) (is : List ℕ) (r : Except DispatcherError Unit) : Batch :=
  is.foldl (fun b i => b.settle i r) b

/-- How an entry with this result was served. -/
def servedBy : Except DispatcherError Unit → Option ServedBy → ServedBy
  | .ok (), some t => t
  | .ok (), none => .error
  | .error (.keyNotFound _), _ => .miss
  | .error (.invalidParameter _), _ => .sizeMismatch
  | .error _, _ => .error

/-- The outcomes, if every result is there. -/
def outcomes (b : Batch) : Option (List LookupOutcome) :=
  (b.results.zip b.tier).mapM fun p => p.1.map fun r => ⟨servedBy r p.2, r⟩

end Batch

/-- An entry of a batch that is on a drive. -/
structure ColdEntry where
  idx : ℕ
  key : CacheKey
  offset : UInt64
  totalSize : UInt32
  deriving DecidableEq, Repr

/-- What the classification found. -/
structure Classified where
  batch : Batch
  /-- The read references of the warm keys. -/
  warmPins : List CacheKey := []
  /-- The entries whose copy is queued but not complete. -/
  warmInflight : List ℕ := []
  cold : List ColdEntry := []

/-- A reserved slot with the entry it is for. -/
abbrev ColdJob := ColdEntry × Pointer

/-- What the reservation of slots led to. -/
structure Prepared where
  jobs : List ColdJob := []
  staged : List ColdEntry := []
  failed : List (ColdEntry × DispatcherError) := []

/-- What a batch finds in place: a stream for warm copies, streams for cold ones, staging buffers,
and a remote lookup to ask. -/
structure BatchConfig where
  warmStream : Bool
  pipeStreams : Bool
  staging : Bool
  remote : Bool
  numDrives : ℕ
  maxAttempts : ℕ
  rounds : ℕ
  deriving DecidableEq, Repr

namespace Proc

/-! ## Classification -/

/-- A read reference of each of the keys is dropped. -/
def releasePins : List CacheKey → Proc Unit
  | [] => pure ()
  | key :: rest => do
      let _ ← releaseRead key
      releasePins rest

/-- Copy a resident entry to the client. -/
def serveMemoryTier (pointer : Pointer) (size : UInt32) : Proc (Except DispatcherError Unit) := do
  match ← copyOut pointer size.toNat with
  | some _ => pure (.ok ())
  | none => pure (.error (.ioError "GPU DMA copy (memory-tier→device) failed: "))

variable (cfg : BatchConfig)

/-- Classify entry `i`. -/
def classifyOne (i : ℕ) (key : CacheKey) (totalSize : UInt32)
    (c : Classified) : Proc Classified := do
  match ← lookupRetrying key lookupRetries with
  | .ok .notExist => pure { c with batch := c.batch.settle i (.error (.keyNotFound key)) }
  | .ok .mismatchSize =>
    let _ ← releaseRead key
    pure { c with
      batch := c.batch.settle i (.error (.invalidParameter "size mismatch on lookup")) }
  | .ok (.memoryTier pointer size) =>
    let res ← serveMemoryTier pointer size
    pure { c with
      batch := (c.batch.mark i .dram).settle i res
      warmPins := c.warmPins ++ [key]
      warmInflight :=
        if cfg.warmStream && res.toBool then c.warmInflight ++ [i] else c.warmInflight }
  | .ok (.blockDevice offset) =>
    let _ ← releaseRead key
    pure { c with
      batch := c.batch.mark i .ssd
      cold := c.cold ++ [⟨i, key, offset, totalSize⟩] }
  | .error _ => pure { c with batch := c.batch.settle i (.error (.keyNotFound key)) }

/-- Classify the entries from `i` on. -/
def classify (cfg : BatchConfig) : ℕ → List (CacheKey × UInt32) → Classified → Proc Classified
  | _, [], c => pure c
  | i, (key, totalSize) :: rest, c => do
      classify cfg (i + 1) rest (← classifyOne cfg i key totalSize c)

/-! ## The cold pass -/

/-- Reserve a slot for each cold entry of a drive. -/
def prepDrive (cfg : BatchConfig) : List ColdEntry → Prepared → Proc Prepared
  | [], p => pure p
  | e :: rest, p => do
      match ← evictAndInsert e.key e.totalSize cfg.maxAttempts with
      | .ok memPtr => prepDrive cfg rest { p with jobs := p.jobs ++ [(e, memPtr)] }
      | .error (.allocationFailed msg) =>
        if cfg.staging then prepDrive cfg rest { p with staged := p.staged ++ [e] }
        else prepDrive cfg rest { p with failed := p.failed ++ [(e, .allocationFailed msg)] }
      | .error err => prepDrive cfg rest { p with failed := p.failed ++ [(e, err)] }

/-- Reserve slots drive by drive: the jobs of each drive that has any, and the rest. -/
def prepDrives (cfg : BatchConfig) :
    List (List ColdEntry) → Proc (List (List ColdJob) × List ColdEntry ×
      List (ColdEntry × DispatcherError))
  | [] => pure ([], [], [])
  | entries :: rest => do
      let p ← prepDrive cfg entries {}
      let (sets, staged, failed) ← prepDrives cfg rest
      pure (if p.jobs = [] then sets else p.jobs :: sets, p.staged ++ staged, p.failed ++ failed)

/-- Give the reserved slots back. -/
def freeSlots : List ColdJob → Proc Unit
  | [] => pure ()
  | (e, _) :: rest => do
      let _ ← tierRemove e.key
      freeSlots rest

/-- Check out a channel for each drive with jobs. When one cannot be had, all reserved slots are
given back, and the entries of that drive fail. -/
def checkoutChannels (sets : List (List ColdJob)) :
    List (List ColdJob) → Batch → Proc (Bool × Batch)
  | [], b => pure (true, b)
  | jobs :: rest, b => do
      if ← device then checkoutChannels sets rest b
      else
        freeSlots sets.flatten
        pure (false, b.settleAll (jobs.map fun j => j.1.idx)
          (.error (.ioError "channel pool connect_client failed: ")))

/-- Read the extents of the jobs and copy them to the client. -/
def scatterGather : List ColdJob → Proc (List (ColdJob × Except DispatcherError Unit))
  | [] => pure []
  | (e, memPtr) :: rest => do
      let read ← readExtent memPtr e.offset e.totalSize.toNat
      let res ← if read then serveMemoryTier memPtr e.totalSize
        else pure (.error (.ioError "SSD read failed"))
      let others ← scatterGather rest
      pure (((e, memPtr), res) :: others)

/-- Flip an entry that was read, or give its slot back. -/
def promoteJob (job : ColdJob) : Except DispatcherError Unit → Proc (Except DispatcherError Unit)
  | .ok () => do
      match ← promoteBlockToMemoryTier job.1.key job.2 job.1.totalSize with
      | .ok () => pure (.ok ())
      | .error err =>
        let _ ← tierRemove job.1.key
        pure (.error (.ioError ("promote transition failed: " ++ err.toString)))
  | .error err => do
      let _ ← tierRemove job.1.key
      pure (.error err)

/-- Flip the entries that were read, and give back the slots of the others. -/
def promoteAll : List (ColdJob × Except DispatcherError Unit) → Batch → Proc Batch
  | [], b => pure b
  | (job, res) :: rest, b => do
      let r ← promoteJob job res
      promoteAll rest (b.settle job.1.idx r)

/-- Serve the entries that got no slot through staging buffers. -/
def serveStaged : List ColdEntry → Batch → Proc Batch
  | [], b => pure b
  | e :: rest, b => do
      match ← stageOut e.offset e.totalSize.toNat with
      | some _ => serveStaged rest (b.settle e.idx (.ok ()))
      | none => serveStaged rest (b.settle e.idx (.error (.ioError "staged cold read failed")))

/-- Read and flip the entries with a slot. -/
def servePrepared (sets : List (List ColdJob)) (b : Batch) : Proc Batch := do
  if sets = [] then pure b
  else
    let streams ← if cfg.pipeStreams then pure true else device
    if !streams then
      freeSlots sets.flatten
      pure (b.settleAll (sets.flatten.map fun j => j.1.idx)
        (.error (.ioError "create_stream failed for scatter-gather")))
    else
      let (ready, b) ← checkoutChannels sets sets b
      if ready then promoteAll (← scatterGather sets.flatten) b else pure b

/-- The cold entries of each drive. -/
def perDrive (numDrives : ℕ) (cold : List ColdEntry) : List (List ColdEntry) :=
  (List.range numDrives).map fun d => cold.filter fun e => (decodeLoc e.offset).1 = d

/-- Promote the cold entries. -/
def coldPass (cold : List ColdEntry) (b : Batch) : Proc Batch := do
  if cold = [] then pure b
  else
    let lost := cold.filter fun e => cfg.numDrives ≤ (decodeLoc e.offset).1
    let b := b.settleAll (lost.map ColdEntry.idx) (.error (.ioError "invalid drive in SSD location"))
    let (sets, staged, failed) ← prepDrives cfg (perDrive cfg.numDrives cold)
    let b := failed.foldl (fun b f => b.settle f.1.idx (.error f.2)) b
    let b ← servePrepared cfg sets b
    serveStaged staged b

/-! ## The remaining passes -/

/-- Wait for queued copies; if that fails, the entries fail. -/
def syncCopies (warmStream : Bool) (inflight : List ℕ) (msg : String) (b : Batch) : Proc Batch := do
  if inflight ≠ [] && warmStream then
    if ← device then pure b else pure (b.settleAll inflight (.error (.ioError msg)))
  else pure b

/-- The entries that were not found. -/
def notFound (b : Batch) : List ℕ :=
  (List.range b.results.length).filter fun i =>
    match b.results[i]? with
    | some (some (.error (.keyNotFound _))) => true
    | _ => false

/-- Look at a key that a peer has sent and deliver it: what to report, whether its reference is
kept, and whether its copy is queued. -/
def deliverOne (pos : ℕ) (key : CacheKey) (b : Batch) : Proc (Batch × Bool × Bool) := do
  match ← lookup key with
  | .ok (.memoryTier pointer size) =>
    let res ← serveMemoryTier pointer size
    pure ((b.mark pos .remote).settle pos res, true, res.toBool)
  | .ok (.blockDevice _) =>
    let _ ← releaseRead key
    pure (b.settle pos (.error (.keyNotFound key)), false, false)
  | .ok _ => pure (b.settle pos (.error (.keyNotFound key)), false, false)
  | .error e =>
    pure (b.settle pos (.error (.ioError ("post-remote lookup: " ++ e.toString))), false, false)

/-- Deliver what the peers have sent. -/
def deliverRemote (entries : List (CacheKey × UInt32)) :
    List (ℕ × Except RemoteLookupError Unit) → Batch → List CacheKey → List ℕ →
      Proc (Batch × List CacheKey × List ℕ)
  | [], b, pins, submitted => pure (b, pins, submitted)
  | (pos, answer) :: rest, b, pins, submitted => do
      match entries[pos]?, answer with
      | none, _ => deliverRemote entries rest b pins submitted
      | some (key, _), .error .notFound =>
        deliverRemote entries rest (b.settle pos (.error (.keyNotFound key))) pins submitted
      | some _, .error (.transportError msg) =>
        deliverRemote entries rest (b.settle pos (.error (.ioError
            ("remote lookup: " ++ (RemoteLookupError.transportError msg).toString))))
          pins submitted
      | some (key, _), .ok () =>
        let r ← deliverOne pos key b
        deliverRemote entries rest r.1 (if r.2.1 then pins ++ [key] else pins)
          (if r.2.2 then submitted ++ [pos] else submitted)

/-- Ask the peers for what was not found. -/
def remotePass (entries : List (CacheKey × UInt32)) (b : Batch) : Proc Batch := do
  if cfg.remote && notFound b ≠ [] then
    let answers : List (Except RemoteLookupError Unit) ←
      perform (.remoteLookup ((notFound b).filterMap fun i => entries[i]?))
    let (b', pins, submitted) ← deliverRemote entries ((notFound b).zip answers) b [] []
    let b' ← syncCopies cfg.warmStream submitted "remote-delivery stream_synchronize failed: " b'
    releasePins pins
    pure b'
  else pure b

/-- Serve the entries whose promotion another lookup has won. -/
def recoverPass (cfg : BatchConfig) : ℕ → List (CacheKey × UInt32) → Batch → Proc Batch
  | _, [], b => pure b
  | i, (key, _) :: rest, b => do
      match b.results[i]? with
      | some (some (.error (.alreadyExists _))) =>
        let r ← serveConcurrentlyPromoted key cfg.rounds
        recoverPass cfg (i + 1) rest ((b.settle i r).mark i .dram)
      | _ => recoverPass cfg (i + 1) rest b

/-- **`batch_lookup`.** -/
def batchLookup (entries : List (CacheKey × UInt32)) : Proc (Option (List LookupOutcome)) := do
  let c ← classify cfg 0 entries ⟨Batch.start entries.length, [], [], []⟩
  let b ← coldPass cfg c.cold c.batch
  let b ← syncCopies cfg.warmStream c.warmInflight "batch stream_synchronize failed: " b
  releasePins c.warmPins
  let b ← remotePass cfg entries b
  let b ← recoverPass cfg 0 entries b
  pure b.outcomes

end Proc

end Certus.Dispatcher
