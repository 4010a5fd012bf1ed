import Certus.DispatchMap.Map
import Mathlib.Data.Nat.Bitwise

/-! # The write-through ledger

A store leaves a read reference on its new entry for the job that writes it to a drive. The
references of the dispatch map carry no owner; the ledger records which keys hold such a pin, and in
which state their job is, so that `remove` can take the pin over.

* **`pin`, `start`, `finish`, `takeOver`** — what its critical sections do to it. `finish` and
  `takeOver` are the parts of the source's `finish` and `remove_entry` before and after their calls
  to the dispatch map, which are made with the lock held. -/

namespace Certus.Dispatcher

/-! ## Locations -/

def driveShift : UInt64 := 56

/-- A drive index and a byte offset as one word. -/
def encodeLoc (drive : ℕ) (offset : UInt64) : UInt64 := (UInt64.ofNat drive <<< driveShift) ||| offset

/-- The drive index and the byte offset of a location. -/
def decodeLoc (loc : UInt64) : ℕ × UInt64 :=
  ((loc >>> driveShift).toNat, loc &&& ((1 <<< driveShift) - 1))

/-- The lower 56 bits of the offset come back. -/
theorem decodeLoc_encodeLoc (drive : ℕ) (offset : UInt64) :
    (decodeLoc (encodeLoc drive offset)).2.toNat = offset.toNat % 2 ^ 56 := by
  have hmask : ((1 : UInt64) <<< driveShift - 1).toNat = 2 ^ 56 - 1 := by decide
  have hshift : (UInt64.ofNat drive <<< driveShift).toNat = drive % 2 ^ 64 * 2 ^ 56 % 2 ^ 64 := by
    rw [UInt64.toNat_shiftLeft, UInt64.toNat_ofNat', Nat.shiftLeft_eq]
    rfl
  simp only [decodeLoc, encodeLoc]
  rw [UInt64.toNat_and, hmask, Nat.and_two_pow_sub_one_eq_mod, UInt64.toNat_or, hshift,
    Nat.or_mod_two_pow]
  have hzero : drive % 2 ^ 64 * 2 ^ 56 % 2 ^ 64 % 2 ^ 56 = 0 := by omega
  rw [hzero, Nat.zero_or]

/-! ## The ledger -/

/-- What the ledger knows about a key. -/
structure PinState where
  /-- The write-through pin is held. -/
  pinned : Bool := false
  /-- The job owning the pin is queued and has not started. -/
  queued : Bool := false
  /-- The job owning the pin is running. -/
  running : Bool := false
  /-- The entry was removed while the job ran: the job frees the slot. -/
  removed : Bool := false
  /-- Queued jobs whose pin was already released. -/
  stale : ℕ := 0
  deriving DecidableEq, Repr

/-- Nothing is left to remember about the key. -/
def PinState.idle (s : PinState) : Bool :=
  !s.pinned && !s.queued && !s.running && decide (s.stale = 0)

/-- How a write job starts. -/
inductive JobStart
  | owned
  | stale
  | untracked
  deriving DecidableEq, Repr

/-- The ledger: the pins, and the keys whose latest write-through failed. -/
structure WriteThroughPins where
  keys : OrdMap CacheKey PinState
  failed : OrdMap CacheKey Unit

namespace WriteThroughPins

/-- The empty ledger. -/
def empty : WriteThroughPins := ⟨OrdMap.empty, OrdMap.empty⟩

section

variable (pins : WriteThroughPins) (key : CacheKey)

/-- The state of a key; a key that is not recorded has none of the flags. -/
def state : PinState := (pins.keys.get? key).getD {}

/-- Record the state of a key. -/
def set (s : PinState) : WriteThroughPins :=
  { pins with keys := pins.keys.insert key s }

/-- Forget a key that is idle. -/
def forgetIfIdle : WriteThroughPins :=
  match pins.keys.get? key with
  | some s => if s.idle then { pins with keys := pins.keys.erase key } else pins
  | none => pins

/-- Record the pin of a new entry; `enqueued` is whether its job could be queued. -/
def pin (enqueued : Bool) : WriteThroughPins :=
  pins.set key { pins.state key with pinned := true, queued := enqueued }

/-- A write job for the key was dequeued. -/
def start : JobStart × WriteThroughPins :=
  match pins.keys.get? key with
  | none => (.untracked, pins)
  | some s =>
    if s.stale > 0 then
      (.stale, (pins.set key { s with stale := s.stale - 1 }).forgetIfIdle key)
    else if !s.queued then (.untracked, pins)
    else (.owned, pins.set key { s with queued := false, running := true })

/-- The owned job is done with the slot: does it still own the pin? -/
def finish : Bool × WriteThroughPins :=
  match pins.keys.get? key with
  | none => (true, pins)
  | some s =>
    (!s.removed, pins.set key { s with running := false, pinned := false, removed := false })

/-- `remove` has taken the entry of a pinned key: must the job free the slot? -/
def takeOver : Bool × WriteThroughPins :=
  let s := pins.state key
  (s.running, (pins.set key
    { s with
      pinned := false
      queued := false
      stale := if s.queued then s.stale + 1 else s.stale
      removed := s.running }).forgetIfIdle key)

/-- A write-through was settled: did its data reach the drive? -/
def recordWrite (landed : Bool) : WriteThroughPins :=
  if landed then { pins with failed := pins.failed.erase key }
  else { pins with failed := pins.failed.insert key () }

end

variable (pins : WriteThroughPins) (key k : CacheKey)

@[simp] theorem state_set (s : PinState) :
    (pins.set key s).state k = if k = key then s else pins.state k := by
  simp only [state, set, OrdMap.get?_insert]
  split_ifs <;> rfl

@[simp] theorem state_recordWrite (landed : Bool) :
    (pins.recordWrite key landed).state k = pins.state k := by
  unfold recordWrite
  split_ifs <;> rfl

@[simp] theorem state_pin (enqueued : Bool) : (pins.pin key enqueued).state k
      = if k = key then { pins.state key with pinned := true, queued := enqueued }
        else pins.state k := by
  rw [pin, state_set]

end WriteThroughPins

end Certus.Dispatcher
