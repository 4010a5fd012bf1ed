import Certus.Interfaces

/-! # The dispatch map

The dispatch map says for every key where its data is: on a block device, or in a slot of the
memory tier with, once it was written through, its location on a block device. Entries carry a count
of read references and a write reference.

Every operation runs under the lock of the map, so it is one function on the map. An operation that
waits for references to be dropped is modelled by what it does in the state in which it goes on:
when the reference it waits for is still held, its wait has timed out. -/

namespace Certus

/-- Where the data of an entry is. -/
inductive Location
  | blockDevice (offset : UInt64)
  | memoryTier (pointer : Pointer) (size : UInt32) (ssdOffset : Option UInt64)
  deriving DecidableEq, Repr

/-- What the map knows about a key. -/
structure DispatchEntry where
  location : Location
  sizeBlocks : UInt32
  readRef : ℕ
  writeRef : ℕ
  deriving DecidableEq, Repr

/-- The entries. -/
structure DispatchMap where
  entries : OrdMap CacheKey DispatchEntry

namespace DispatchMap

/-- The greatest reference count, `u32::MAX`. -/
def maxRef : ℕ := 2 ^ 32 - 1

/-- `u32::div_ceil(4096)`. -/
def sizeInBlocks (size : UInt32) : UInt32 := UInt32.ofNat ((size.toNat + 4095) / 4096)

/-- The empty map. -/
def empty : DispatchMap := ⟨OrdMap.empty⟩

/-- The entry of a key. -/
def get? (m : DispatchMap) (key : CacheKey) : Option DispatchEntry := m.entries.get? key

variable (m : DispatchMap) (key : CacheKey)

/-- Store the entry of a key. -/
def put (e : DispatchEntry) : DispatchMap :=
  ⟨m.entries.insert key e⟩

/-- Delete the entry of a key. -/
def delete : DispatchMap := ⟨m.entries.erase key⟩

@[simp] theorem get?_empty (key : CacheKey) : empty.get? key = none := rfl

@[simp] theorem get?_put (m : DispatchMap) (key k : CacheKey) (e : DispatchEntry) :
    (m.put key e).get? k = if k = key then some e else m.get? k :=
  OrdMap.get?_insert m.entries key k e

@[simp] theorem get?_delete (m : DispatchMap) (key k : CacheKey) :
    (m.delete key).get? k = if k = key then none else m.get? k :=
  OrdMap.get?_erase m.entries key k

/-! ## Operations on an entry that is there -/

/-- Find the entry of `key` and let `f` answer and change it. -/
def modifyEntry (f : DispatchEntry → Except DispatchMapError Unit × DispatchEntry) :
    Except DispatchMapError Unit × DispatchMap :=
  match m.get? key with
  | none => (.error (.keyNotFound key), m)
  | some e => ((f e).1, m.put key (f e).2)

/-- One more read reference. -/
def addRead (key : CacheKey) (e : DispatchEntry) : Except DispatchMapError Unit × DispatchEntry :=
  if e.readRef < maxRef then (.ok (), { e with readRef := e.readRef + 1 })
  else (.error (.refCountOverflow key), e)

/-- Find an entry, waiting while a writer holds it, and take a read reference on it. -/
def lookup : Except DispatchMapError LookupResult × DispatchMap :=
  match m.get? key with
  | none => (.ok .notExist, m)
  | some e =>
    if e.writeRef ≠ 0 then (.error (.timeout key), m)
    else
      match addRead key e with
      | (.error err, _) => (.error err, m)
      | (.ok (), e') =>
        (.ok (match e.location with
          | .blockDevice offset => .blockDevice offset
          | .memoryTier pointer size _ => .memoryTier pointer size), m.put key e')

/-- Record the location on the block device and drop a read reference. -/
def convertToStorage (offset : UInt64) : Except DispatchMapError Unit × DispatchMap :=
  m.modifyEntry key fun e =>
    match e.location with
    | .memoryTier pointer size _ =>
      (.ok (), { e with
        location := .memoryTier pointer size (some offset)
        readRef := e.readRef - 1 })
    | .blockDevice _ => (.error (.invalidState "entry is already in block-device state"), e)

/-- Take a read reference, waiting while a writer holds the entry. -/
def takeRead : Except DispatchMapError Unit × DispatchMap :=
  m.modifyEntry key fun e => if e.writeRef ≠ 0 then (.error (.timeout key), e) else addRead key e

/-- Take the write reference, waiting while the entry is referenced. -/
def takeWrite : Except DispatchMapError Unit × DispatchMap :=
  m.modifyEntry key fun e =>
    if e.readRef ≠ 0 ∨ e.writeRef ≠ 0 then (.error (.timeout key), e)
    else (.ok (), { e with writeRef := 1 })

/-- Drop a read reference. -/
def releaseRead : Except DispatchMapError Unit × DispatchMap :=
  m.modifyEntry key fun e =>
    if e.readRef = 0 then (.error (.refCountUnderflow key), e)
    else (.ok (), { e with readRef := e.readRef - 1 })

/-- Drop the write reference. -/
def releaseWrite : Except DispatchMapError Unit × DispatchMap :=
  m.modifyEntry key fun e =>
    if e.writeRef = 0 then (.error (.refCountUnderflow key), e)
    else (.ok (), { e with writeRef := 0 })

/-- Turn the write reference into a read reference. The write reference is gone even if the count
overflows. -/
def downgradeReference : Except DispatchMapError Unit × DispatchMap :=
  m.modifyEntry key fun e =>
    if e.writeRef = 0 then (.error (.noWriteReference key), e)
    else addRead key { e with writeRef := 0 }

/-- Flip an entry in the memory tier to its location on the block device. No reference is
checked. -/
def convertMemoryTierToBlock : Except DispatchMapError Unit × DispatchMap :=
  m.modifyEntry key fun e =>
    match e.location with
    | .memoryTier _ _ (some offset) => (.ok (), { e with location := .blockDevice offset })
    | .memoryTier _ _ none =>
      (.error (.invalidState "memory-tier entry has no SSD offset (write-through not complete)"), e)
    | .blockDevice _ => (.error (.invalidState "entry is not in memory-tier state"), e)

/-- Flip an unreferenced entry in the memory tier to its location on the block device. -/
def tryEvictToBlock : Except DispatchMapError Unit × DispatchMap :=
  m.modifyEntry key fun e =>
    if e.readRef ≠ 0 ∨ e.writeRef ≠ 0 then (.error (.activeReferences key), e)
    else
      match e.location with
      | .memoryTier _ _ (some offset) => (.ok (), { e with location := .blockDevice offset })
      | .memoryTier _ _ none =>
        (.error (.invalidState
          "memory-tier entry has no SSD offset (write-through not complete)"), e)
      | .blockDevice _ => (.error (.invalidState "entry is not in memory-tier state"), e)

/-- Flip an entry on the block device into the memory tier, keeping its location there. No
reference is checked. -/
def promoteBlockToMemoryTier (pointer : Pointer)
    (size : UInt32) : Except DispatchMapError Unit × DispatchMap :=
  if size = 0 then (.error .invalidSize, m)
  else
    m.modifyEntry key fun e =>
      match e.location with
      | .blockDevice offset =>
        (.ok (), { e with
          location := .memoryTier pointer size (some offset)
          sizeBlocks := sizeInBlocks size })
      | .memoryTier _ _ _ => (.error (.invalidState "entry is already in memory-tier state"), e)

/-! ## Adding and removing entries -/

/-- A new entry in the memory tier, held by its writer. -/
def createMemoryTierEntry (pointer : Pointer) (size : UInt32) :
    Except DispatchMapError Unit × DispatchMap :=
  if size = 0 then (.error .invalidSize, m)
  else
    match m.get? key with
    | some _ => (.error (.alreadyExists key), m)
    | none =>
      (.ok (), m.put key
        { location := .memoryTier pointer size none
          sizeBlocks := sizeInBlocks size
          readRef := 0
          writeRef := 1 })

/-- Remove an unreferenced entry. -/
def remove : Except DispatchMapError Unit × DispatchMap :=
  match m.get? key with
  | none => (.error (.keyNotFound key), m)
  | some e =>
    if e.readRef > 0 ∨ e.writeRef > 0 then (.error (.activeReferences key), m)
    else (.ok (), m.delete key)

/-- Restore an entry from an extent found on a block device. -/
def recoverExtent (offset : UInt64) (sizeBlocks : UInt32) :
    Except DispatchMapError Unit × DispatchMap :=
  match m.get? key with
  | some _ => (.error (.alreadyExists key), m)
  | none =>
    (.ok (), m.put key
      { location := .blockDevice offset
        sizeBlocks
        readRef := 0
        writeRef := 0 })

/-! ## Questions -/

/-- The size of an entry, rounded up to blocks of 4096 bytes. -/
def entrySize : Except DispatchMapError UInt32 :=
  match m.get? key with
  | none => .error (.keyNotFound key)
  | some e => .ok (e.sizeBlocks * 4096)

end DispatchMap

end Certus
