import Certus.Dispatcher.BatchLookup

/-! # The dispatcher as an interleaved system

Any number of procedures run on the shared state; a move takes up a request or lets one procedure
make its next call. The worker of a drive takes up the jobs of its drive in the order in which they
were enqueued, one at a time. -/

namespace Certus.Dispatcher

open MemoryTier Proc

/-- What a procedure was started for. The calls of a store before its commit are made by `populate`
only. -/
inductive Request
  | populate (key : CacheKey) (size : UInt32) (maxAttempts polls deviceIndex : ℕ)
  | commit (key : CacheKey) (size : UInt32) (deviceIndex : ℕ)
  | remove (key : CacheKey)
  | evictOneClean (scan : ℕ)
  | memoryTierEvictor (scan : ℕ)
  | ssdEvictor (batch : ℕ)
  | clearMemoryTier (rounds : ℕ)
  | clearAll (rounds : ℕ)
  | promote (keys : List CacheKey) (maxAttempts : ℕ)
  | lookup (key : CacheKey) (size : UInt32) (maxAttempts rounds : ℕ)
  | batchLookup (cfg : BatchConfig) (entries : List (CacheKey × UInt32))
  | check (key : CacheKey)
  | pin (key : CacheKey)
  | remoteFetch (key : CacheKey) (size : UInt32) (deviceIndex : ℕ)
  | writeJob (job : WriteJob) (birth : ℕ)
  deriving DecidableEq, Repr

/-- A procedure whose answer is not looked at. -/
def Proc.forget {α : Type} (p : Proc α) : Proc Unit := do
  let _ ← p
  pure ()

/-- The procedure of a request. -/
def Request.body : Request → Proc Unit
  | .populate key size maxAttempts polls d => (Proc.populate key size maxAttempts polls d).forget
  | .commit key size d => (copyGpuToMemoryCompleted key size d).forget
  | .remove key => (Proc.remove key).forget
  | .evictOneClean scan => (Proc.evictOneClean scan).forget
  | .memoryTierEvictor scan => Proc.memoryTierEvictor scan
  | .ssdEvictor batch => Proc.ssdEvictor batch
  | .clearMemoryTier rounds => (Proc.clearMemoryTier rounds).forget
  | .clearAll rounds => (Proc.clearAll 0 rounds).forget
  | .promote keys maxAttempts => promoteToMemoryTier keys maxAttempts
  | .lookup key size maxAttempts rounds => (lookupAsync key size maxAttempts rounds).forget
  | .batchLookup cfg entries => (Proc.batchLookup cfg entries).forget
  | .check key => (Proc.check key).forget
  | .pin key => pinUnpin key
  | .remoteFetch key size d => Proc.remoteFetch key size d
  | .writeJob job _ => workerRound job

/-- The job at the front of the queue of a drive. -/
def Shared.frontJob (s : Shared) (drive : ℕ) : Option (WriteJob × ℕ) :=
  s.queue.find? fun q => decide (q.1.deviceIndex % s.numDrives = drive)

/-- A job is taken up when it is the first of its drive and the worker of the drive is free. Any
other request is taken up at any time. -/
def Request.accept : Request → Shared → Option Shared
  | .writeJob job birth, s =>
    if s.frontJob (job.deviceIndex % s.numDrives) = some (job, birth) ∧
        job.deviceIndex % s.numDrives ∉ s.busy then
      some { s with
        queue := s.queue.erase (job, birth)
        busy := job.deviceIndex % s.numDrives :: s.busy }
    else none
  | _, s => some s

/-- The dispatcher. -/
def machine : Machine Shared Request Oracle Call.Answer where
  exec := Call.exec
  accept := Request.accept
  body := Request.body

/-- A state of the dispatcher. -/
abbrev System := Pool Shared Request Call.Answer

/-- A move of the dispatcher. -/
abbrev SystemMove := Move Request Oracle

/-- The entries `initialize` restores from the published extents of the drives. -/
def recoverEntries (extents : OrdMap UInt64 Extent) : DispatchMap :=
  extents.entries.foldl (fun m e =>
    if e.2.published then (m.recoverExtent e.2.key e.1 (UInt32.ofNat e.2.size)).2 else m)
    DispatchMap.empty

/-- The shared state after `initialize`: nothing is in the memory tier, and what is on the drives is
in the map. -/
def Shared.init (capacity numDrives blockSize : ℕ) (extents : OrdMap UInt64 Extent)
    (disk : Bytes) : Shared where
  map := recoverEntries extents
  tier := Tier.new capacity
  pins := WriteThroughPins.empty
  locked := false
  queue := []
  busy := []
  extents := extents
  dram := fun _ => 0
  disk := disk
  births := fun _ => 0
  numDrives := numDrives
  blockSize := blockSize
  writer := true

/-- The first state: no procedure runs. -/
def System.init (capacity numDrives blockSize : ℕ) (extents : OrdMap UInt64 Extent)
    (disk : Bytes) : System :=
  ⟨Shared.init capacity numDrives blockSize extents disk, []⟩

/-- A system whose drives are empty. -/
def System.fresh (capacity numDrives blockSize : ℕ) : System :=
  System.init capacity numDrives blockSize OrdMap.empty fun _ => 0

/-- What is recovered is on a drive and not referenced. -/
theorem recoverEntries_get? {extents : OrdMap UInt64 Extent} {k : CacheKey} {e : DispatchEntry}
    (h : (recoverEntries extents).get? k = some e) :
    ∃ loc ext, extents.get? loc = some ext ∧ ext.published ∧ ext.key = k ∧
      e = ⟨.blockDevice loc, UInt32.ofNat ext.size, 0, 0⟩ := by
  -- what is in the map comes from one of the extents already looked at
  suffices hfold : ∀ (es : List (UInt64 × Extent)) (m : DispatchMap),
      ((es.foldl (fun m e => if e.2.published then
        (m.recoverExtent e.2.key e.1 (UInt32.ofNat e.2.size)).2 else m) m).get? k = some e) →
      m.get? k = some e ∨ ∃ p ∈ es, p.2.published ∧ p.2.key = k ∧
        e = ⟨.blockDevice p.1, UInt32.ofNat p.2.size, 0, 0⟩ by
    rcases hfold _ _ h with hempty | ⟨⟨loc, ext⟩, hmem, hpub, hkey, he⟩
    · cases hempty
    · exact ⟨loc, ext, OrdMap.mem_entries.mp hmem, hpub, hkey, he⟩
  intro es
  induction es with
  | nil => exact fun m hm => .inl hm
  | cons p es ih =>
    intro m hm
    rw [List.foldl_cons] at hm
    rcases ih _ hm with hm | ⟨q, hq, hrest⟩
    · split_ifs at hm with hpub
      · unfold DispatchMap.recoverExtent at hm
        split at hm
        · exact .inl hm
        · rw [DispatchMap.get?_put] at hm
          split_ifs at hm with hk
          · cases hm
            exact .inr ⟨p, List.mem_cons_self, hpub, hk.symm, rfl⟩
          · exact .inl hm
      · exact .inl hm
    · exact .inr ⟨q, List.mem_cons_of_mem _ hq, hrest⟩

end Certus.Dispatcher
