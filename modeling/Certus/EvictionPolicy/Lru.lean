import Certus.Interfaces

/-! # The LRU eviction policy

A policy keeps one list of keys per pool, from the least to the most recently used one. The list is
doubly linked through indices into a vector of nodes; removed nodes are recycled.


An access past the end of the vector panics; the operations then answer `none`. -/

namespace Certus.EvictionPolicyLru

/-- A node: its key and its neighbours, as indices. -/
structure Node where
  key : CacheKey
  prev : Option UInt32
  next : Option UInt32
  active : Bool
  deriving DecidableEq, Repr

/-- The list. The top of the stack of recycled indices comes first. -/
structure LruList where
  nodes : List Node
  head : Option UInt32
  tail : Option UInt32
  free : List UInt32
  len : ℕ
  deriving DecidableEq, Repr

/-- Change the node at an index that must exist. -/
def updateNode (nodes : List Node) (idx : UInt32) (f : Node → Node) : Option (List Node) :=
  if idx.toNat < nodes.length then some (nodes.modify idx.toNat f) else none

/-- Change the node at an index, if there is an index. -/
def updateLink (nodes : List Node) (link : Option UInt32) (f : Node → Node) : Option (List Node) :=
  match link with
  | some idx => updateNode nodes idx f
  | none => some nodes

namespace LruList

/-- The list without nodes. -/
def new : LruList := ⟨[], none, none, [], 0⟩

section

variable (lru : LruList)

/-- Insert a key at the back. -/
def pushBack (key : CacheKey) : Option (UInt32 × LruList) := do
  let node : Node := ⟨key, lru.tail, none, true⟩
  let (idx, nodes, free) ←
    match lru.free with
    | freeIdx :: free => (updateNode lru.nodes freeIdx fun _ => node).map (freeIdx, ·, free)
    | [] => some (UInt32.ofNat lru.nodes.length, lru.nodes ++ [node], [])
  let nodes ← updateLink nodes lru.tail fun n => { n with next := some idx }
  some (idx,
    { nodes
      head := if lru.head.isNone then some idx else lru.head
      tail := some idx
      free
      len := lru.len + 1 })

/-- Move a node to the back. -/
def moveToBack (idx : UInt32) : Option LruList := do
  let node ← lru.nodes[idx.toNat]?
  if !node.active then some lru
  else if lru.tail = some idx then some lru
  else
    let nodes ← updateLink lru.nodes node.prev fun n => { n with next := node.next }
    let nodes ← updateLink nodes node.next fun n => { n with prev := node.prev }
    let nodes ← updateNode nodes idx fun n => { n with prev := lru.tail, next := none }
    let nodes ← updateLink nodes lru.tail fun n => { n with next := some idx }
    some { lru with
      nodes
      head := if node.prev.isNone then node.next else lru.head
      tail := some idx }

/-- Take a node out of the list. -/
def remove (idx : UInt32) : Option LruList := do
  let node ← lru.nodes[idx.toNat]?
  if !node.active then some lru
  else
    let nodes ← updateLink lru.nodes node.prev fun n => { n with next := node.next }
    let nodes ← updateLink nodes node.next fun n => { n with prev := node.prev }
    let nodes ← updateNode nodes idx fun n =>
      { n with active := false, prev := none, next := none }
    some { lru with
      nodes
      head := if node.prev.isNone then node.next else lru.head
      tail := if node.next.isNone then node.prev else lru.tail
      free := idx :: lru.free
      len := lru.len - 1 }

/-- Take the front node out. -/
def popFront : Option (Option CacheKey × LruList) :=
  match lru.head with
  | none => some (none, lru)
  | some headIdx => do
      let node ← lru.nodes[headIdx.toNat]?
      let lru' ← lru.remove headIdx
      some (some node.key, lru')

/-- The keys of up to `n` nodes from a link on. -/
def keysFrom (nodes : List Node) : ℕ → Option UInt32 → Option (List CacheKey)
  | 0, _ => some []
  | _ + 1, none => some []
  | n + 1, some idx => do
      let node ← nodes[idx.toNat]?
      let rest ← keysFrom nodes n node.next
      some (node.key :: rest)

/-- Up to `n` keys from the front. -/
def peekFrontN (n : ℕ) : Option (List CacheKey) := keysFrom lru.nodes n lru.head

end

/-- The list is emptied. -/
def clear (_ : LruList) : LruList := new

end LruList

/-- One list per pool. -/
structure EvictionState where
  pools : List LruList
  deriving DecidableEq, Repr

open EvictionState

namespace EvictionState

/-- No pools yet. -/
def new : EvictionState := ⟨[]⟩

section

variable (st : EvictionState) (pool : PoolId)

/-- Add a pool. -/
def createPool : PoolId × EvictionState :=
  (UInt32.ofNat st.pools.length, ⟨st.pools ++ [LruList.new]⟩)

/-- The state with another list for a pool. -/
def setPool (lru : LruList) : EvictionState :=
  ⟨st.pools.set pool.toNat lru⟩

/-- Register a key. The hints are ignored. -/
def track (key : CacheKey) (_semantics : BlockSemantics) :
    Option (Except EvictionPolicyError EvictionHandle × EvictionState) :=
  match st.pools[pool.toNat]? with
  | none => some (.error (.invalidPool pool), st)
  | some lru => do
      let (index, lru') ← lru.pushBack key
      some (.ok ⟨pool, index⟩, st.setPool pool lru')

/-- An operation on the list of a handle's pool. -/
def onHandle (handle : EvictionHandle) (f : LruList → UInt32 → Option LruList) :
    Option (Except EvictionPolicyError Unit × EvictionState) :=
  match st.pools[handle.poolId.toNat]? with
  | none => some (.error (.invalidPool handle.poolId), st)
  | some lru => do
      let lru' ← f lru handle.index
      some (.ok (), st.setPool handle.poolId lru')

/-- Record an access. -/
def touch (handle : EvictionHandle) : Option (Except EvictionPolicyError Unit × EvictionState) :=
  st.onHandle handle LruList.moveToBack

/-- Stop tracking. -/
def remove (st : EvictionState) (handle : EvictionHandle) :
    Option (Except EvictionPolicyError Unit × EvictionState) :=
  st.onHandle handle LruList.remove

/-- Choose the least recently used key and stop tracking it. -/
def identifyNextToEvict : Option (Option CacheKey × EvictionState) :=
  match st.pools[pool.toNat]? with
  | none => some (none, st)
  | some lru => do
      let (key, lru') ← lru.popFront
      some (key, st.setPool pool lru')

/-- Up to `n` keys in the order in which they would be evicted. -/
def getEvictionCandidates (n : ℕ) : Option (List CacheKey) :=
  match st.pools[pool.toNat]? with
  | none => some []
  | some lru => lru.peekFrontN n

/-- The number of tracked keys. -/
def len (st : EvictionState) (pool : PoolId) : ℕ :=
  match st.pools[pool.toNat]? with
  | none => 0
  | some lru => lru.len

/-- Empty a pool. -/
def clearPool : EvictionState :=
  match st.pools[pool.toNat]? with
  | none => st
  | some lru => st.setPool pool lru.clear

end

/-- Only a pool that does not exist refuses to track, before anything has changed. -/
theorem track_error {st st' : EvictionState} {pool : PoolId} {key : CacheKey}
    {semantics : BlockSemantics} {e : EvictionPolicyError}
    (h : st.track pool key semantics = some (.error e, st')) : st' = st := by
  unfold track at h
  split at h
  · cases h
    rfl
  · simp [Option.bind_eq_some_iff] at h

end EvictionState

/-- The policy, as the memory tier and the dispatch map see it. -/
def lruPolicy : EvictionPolicy EvictionState where
  createPool := createPool
  track := track
  touch := touch
  remove := remove
  identifyNextToEvict := identifyNextToEvict
  getEvictionCandidates := getEvictionCandidates
  len := len
  clearPool := clearPool
  track_error := track_error

end Certus.EvictionPolicyLru
