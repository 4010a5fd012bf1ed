import Certus.Lib.OrdMap

/-! # What the components exchange

Keys, locations and errors of the interfaces of the dispatch map, the memory tier, the eviction
policies and the dispatcher, with the texts of the errors. -/

namespace Certus

/-- The key of a cache entry. -/
abbrev CacheKey := UInt64

/-- An address in the memory pool, as its distance from the start of the pool. -/
abbrev Pointer := ℕ

/-! ## The dispatch map -/

/-- The answer of the dispatch map to a lookup. -/
inductive LookupResult
  | notExist
  | mismatchSize
  | blockDevice (offset : UInt64)
  | memoryTier (pointer : Pointer) (size : UInt32)
  deriving DecidableEq, Repr

/-- The errors of the dispatch map. -/
inductive DispatchMapError
  | keyNotFound (key : CacheKey)
  | alreadyExists (key : CacheKey)
  | activeReferences (key : CacheKey)
  | timeout (key : CacheKey)
  | allocationFailed (msg : String)
  | invalidSize
  | notInitialized (msg : String)
  | refCountUnderflow (key : CacheKey)
  | refCountOverflow (key : CacheKey)
  | noWriteReference (key : CacheKey)
  | invalidState (msg : String)
  deriving DecidableEq, Repr

/-- The text of an error of the dispatch map. -/
def DispatchMapError.toString : DispatchMapError → String
  | .keyNotFound k => "key not found: " ++ ToString.toString k
  | .alreadyExists k => "key already exists: " ++ ToString.toString k
  | .activeReferences k => "active references on key: " ++ ToString.toString k
  | .timeout k => "timeout waiting on key: " ++ ToString.toString k
  | .allocationFailed msg => "allocation failed: " ++ msg
  | .invalidSize => "invalid size: must be > 0"
  | .notInitialized msg => "not initialized: " ++ msg
  | .refCountUnderflow k => "ref count underflow on key: " ++ ToString.toString k
  | .refCountOverflow k => "ref count overflow on key: " ++ ToString.toString k
  | .noWriteReference k => "no write reference held on key: " ++ ToString.toString k
  | .invalidState msg => "invalid state: " ++ msg

/-! ## The memory tier -/

/-- The errors of the memory tier that its modelled operations answer. -/
inductive MemoryTierError
  | poolFull
  | keyNotFound (key : CacheKey)
  | alreadyExists (key : CacheKey)
  | allocationFailed (msg : String)
  | invalidSize
  | notInitialized (msg : String)
  deriving DecidableEq, Repr

/-- The text of an error of the memory tier. -/
def MemoryTierError.toString : MemoryTierError → String
  | .poolFull => "memory-tier pool full"
  | .keyNotFound k => "key not found: " ++ ToString.toString k
  | .alreadyExists k => "key already exists: " ++ ToString.toString k
  | .allocationFailed msg => "allocation failed: " ++ msg
  | .invalidSize => "invalid size: must be > 0"
  | .notInitialized msg => "not initialized: " ++ msg

/-- The default size of the bounce reserve. -/
def defaultBounceReserve : ℕ := 32 * 1024 * 1024

/-- A buffer leased from the bounce reserve. -/
structure BounceBuffer where
  ptr : Pointer
  len : UInt32
  deriving DecidableEq, Repr

/-- Why a buffer of the bounce reserve was not leased. -/
inductive BounceError
  | noSpace
  | neverFits (msg : String)
  | notInitialized (msg : String)
  deriving DecidableEq, Repr

/-! ## The eviction policy -/

/-- Identifies a pool of an eviction policy. -/
abbrev PoolId := UInt32

/-- What `track` returns: where the policy keeps the key. -/
structure EvictionHandle where
  poolId : PoolId
  index : UInt32
  deriving DecidableEq, Repr

/-- Hints for a tracked block. -/
structure BlockSemantics where
  sessionId : UInt64 := 0
  deriving DecidableEq, Repr

/-- The errors of an eviction policy. -/
inductive EvictionPolicyError
  | invalidPool (pool : PoolId)
  | invalidHandle
  deriving DecidableEq, Repr

/-- The text of an error of an eviction policy. -/
def EvictionPolicyError.toString : EvictionPolicyError → String
  | .invalidPool id => "invalid pool id: " ++ ToString.toString id
  | .invalidHandle => "invalid or already-removed handle"

/-- An eviction policy with states `P`. An operation answers `none` where the code panics. A
refused `track` has done nothing. -/
structure EvictionPolicy (P : Type) where
  createPool : P → PoolId × P
  track : P → PoolId → CacheKey → BlockSemantics →
    Option (Except EvictionPolicyError EvictionHandle × P)
  touch : P → EvictionHandle → Option (Except EvictionPolicyError Unit × P)
  remove : P → EvictionHandle → Option (Except EvictionPolicyError Unit × P)
  identifyNextToEvict : P → PoolId → Option (Option CacheKey × P)
  getEvictionCandidates : P → PoolId → ℕ → Option (List CacheKey)
  len : P → PoolId → ℕ
  clearPool : P → PoolId → P
  track_error : ∀ {p pool key semantics e p'},
    track p pool key semantics = some (.error e, p') → p' = p

/-! ## The dispatcher -/

/-- The errors of the dispatcher. -/
inductive DispatcherError
  | notInitialized (msg : String)
  | keyNotFound (key : CacheKey)
  | alreadyExists (key : CacheKey)
  | allocationFailed (msg : String)
  | ioError (msg : String)
  | timeout (msg : String)
  | invalidParameter (msg : String)
  deriving DecidableEq, Repr

/-- Why a remote lookup failed. -/
inductive RemoteLookupError
  | notFound
  | transportError (msg : String)
  deriving DecidableEq, Repr

/-- The text of an error of the remote lookup. -/
def RemoteLookupError.toString : RemoteLookupError → String
  | .notFound => "key not found"
  | .transportError msg => "transport error: " ++ msg

/-- How a key of a lookup was served. -/
inductive ServedBy
  | dram
  | ssd
  | remote
  | fetched
  | miss
  | sizeMismatch
  | error
  deriving DecidableEq, Repr

/-- The outcome of a lookup for one key. -/
structure LookupOutcome where
  servedBy : ServedBy
  result : Except DispatcherError Unit

/-- A job for the background writer: the entry of `key` is to be written to a data drive. -/
structure WriteJob where
  key : CacheKey
  size : UInt32
  deviceIndex : ℕ
  deriving DecidableEq, Repr

end Certus
