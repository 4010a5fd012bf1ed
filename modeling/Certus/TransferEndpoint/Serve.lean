import Certus.Dispatcher.IoSegmenter
import Certus.Dispatcher.WriteThroughPins
import Certus.Interfaces
import Certus.Lib.Tiling

/-! # Serving an entry to a peer

`serve.rs`: an entry of a peer's `OP_FETCH` is looked up once. An entry of the memory tier is written
to the peer from its slot; an entry on a drive is first read into a bounce buffer by
`read_to_bounce`. The memory tier compares the size of the entry with the requested length, the block
tier takes the length from the request.

* **`serve_faithful_iff`** — hits deliver exactly the stored bytes, from either tier, exactly if an
  entry on a drive is asked for with its own length. -/

namespace Certus.TransferEndpoint

open Dispatcher List

/-! ## What is stored -/

/-- The bytes at an address. -/
def bytesAt (mem : ℕ → UInt8) (addr len : ℕ) : List UInt8 :=
  (List.range len).map fun i => mem (addr + i)

@[simp] theorem length_bytesAt (mem : ℕ → UInt8) (addr len : ℕ) :
    (bytesAt mem addr len).length = len := by
  simp [bytesAt]

/-- A drive. Transfers are of whole blocks. -/
structure Drive where
  blockSize : ℕ
  maxTransferSize : ℕ
  data : ℕ → UInt8
  transfer_dvd : blockSize ∣ max maxTransferSize 4096

/-- Where an entry is. -/
inductive Location where
  | memoryTier (pointer : Pointer) (size : UInt32)
  | blockDevice (offset : UInt64)
  deriving DecidableEq

def selectDrive (drives : List Drive) (loc : UInt64) : Option (Drive × ℕ) :=
  (drives[(decodeLoc loc).1]?).map fun drive => (drive, (decodeLoc loc).2.toNat)

/-- The serving node. `value` is what was stored under a key: the bytes of its slot, or the bytes from
the start of its extent on. -/
structure Source where
  entry : CacheKey → Option Location
  value : CacheKey → List UInt8
  memory : ℕ → UInt8
  poolAddr : ℕ
  poolLen : ℕ
  drives : List Drive
  dmaCapable : Bool
  reserve : ℕ
  memory_value : ∀ {key pointer size}, entry key = some (.memoryTier pointer size) →
    value key = bytesAt memory pointer size.toNat
  block_value : ∀ {key offset drive raw}, entry key = some (.blockDevice offset) →
    selectDrive drives offset = some (drive, raw) →
      drive.blockSize ∣ raw ∧ value key = bytesAt drive.data raw (value key).length

/-! ## Resolving an entry -/

/-- What one lookup resolved an entry to. -/
inductive Resolved where
  | write (pointer : Pointer) (len : UInt32)
  | block (offset : UInt64)
  | miss
  | failed
  deriving DecidableEq

section

variable (s : Source)

/-- The answer of the dispatch map; `error` if the lookup fails. -/
def Source.lookup (error : Option DispatchMapError) (key : CacheKey) :
    Except DispatchMapError LookupResult :=
  match error with
  | some e => .error e
  | none =>
    match s.entry key with
    | none => .ok .notExist
    | some (.memoryTier pointer size) => .ok (.memoryTier pointer size)
    | some (.blockDevice offset) => .ok (.blockDevice offset)

/-- `Pool::contains` -/
def Source.contains (addr len : ℕ) : Bool :=
  decide (s.poolAddr ≤ addr ∧ addr - s.poolAddr + len ≤ s.poolLen)

/-- Resolve one entry with one lookup. `blocks` says whether a block source is bound. -/
def resolve (error : Option DispatchMapError) (blocks : Bool) (key : CacheKey)
    (length : UInt32) : Resolved :=
  match s.lookup error key with
  | .ok .notExist => .miss
  | .ok .mismatchSize => .miss
  | .ok (.blockDevice offset) => if blocks then .block offset else .miss
  | .ok (.memoryTier pointer size) =>
    if size ≠ length then .miss
    else if !s.contains pointer size.toNat then .failed
    else .write pointer size
  | .error _ => .failed

/-! ## Reading into a bounce buffer -/

/-- The errors of a bounce read. -/
inductive BounceError where
  | noSpace
  | neverFits (message : String)
  | io (message : String)
  | notInitialized (message : String)
  deriving DecidableEq

/-- Whether the same request may succeed later. -/
def BounceError.isTransient : BounceError → Bool
  | .noSpace => true
  | _ => false

/-- What the components answer while an entry is served: the lookup's error, whether a reader is
free, the error of a dispatcher that does not run, whether the reserve has room, the error of the
read and whether the write to the peer completes. -/
structure ServeIo where
  lookupError : Option DispatchMapError
  canRead : Bool
  notInitialized : Option String
  space : Bool
  readError : Option String
  written : Bool

/-- Nothing fails. -/
def ServeIo.ok : ServeIo := ⟨none, true, none, true, none, true⟩

def bounceAlloc (io : ServeIo) (len : UInt32) : Except BounceError Unit :=
  if !s.dmaCapable then .error (.neverFits "the pool is not DMA-capable (no SPDK environment)")
  else if len = 0 ∨ nextMultipleOf len.toNat 4096 > s.reserve then
    .error (.neverFits (toString len ++ " bytes against a bounce reserve of " ++ toString s.reserve))
  else if io.space then .ok ()
  else .error .noSpace

/-- `read_into_bounce` when all its reads succeed: the buffer, whatever was in it before. Segments
write different bytes, so that their order does not matter. -/
def readIntoBounce (drive : Drive) (startLba totalBytes chunkSize : ℕ) (buffer : ℕ → UInt8) :
    ℕ → UInt8 :=
  let alignedBytes := nextMultipleOf totalBytes drive.blockSize
  ((segmentIo startLba alignedBytes chunkSize drive.blockSize).getD []).foldl
    (land drive.blockSize drive.data) buffer

/-- `read_to_bounce`: the bytes of the buffer. -/
def readToBounce (io : ServeIo) (key : CacheKey) (offset : UInt64) (len : UInt32) :
    Except BounceError (List UInt8) :=
  match io.notInitialized with
  | some e => .error (.notInitialized e)
  | none =>
    if s.drives.isEmpty then .error (.neverFits "no data drives")
    else
      match selectDrive s.drives offset with
      | none =>
        .error (.io ("key " ++ toString key ++ ": SSD location 0x" ++
          String.ofList (Nat.toDigits 16 offset.toNat) ++ " names drive " ++
          toString (decodeLoc offset).1 ++ " of " ++ toString s.drives.length))
      | some (drive, raw) =>
        if drive.blockSize = 0 ∨ 4096 % drive.blockSize ≠ 0 then
          .error (.neverFits ("drive block size " ++ toString drive.blockSize ++
            " does not divide the reserve's 4 KiB pages"))
        else
          match bounceAlloc s io len with
          | .error e => .error e
          | .ok _ =>
            match io.readError with
            | some e =>
              .error (.io ("key " ++ toString key ++ " at offset " ++ toString raw ++ ": " ++ e))
            | none =>
              .ok (bytesAt (readIntoBounce drive (raw / drive.blockSize) len.toNat
                (max drive.maxTransferSize 4096) fun _ => 0) 0 len.toNat)

/-! ## The answer -/

/-- What became of an entry: a hit with the bytes written into the peer's region, a miss or a failure;
a deferred entry is looked up again later. -/
inductive EntryOutcome where
  | hit (written : List UInt8)
  | miss
  | failed
  | deferred
  deriving DecidableEq

/-- One pass over an entry of a peer's request: look up, read if need be, write. -/
def serve (io : ServeIo) (blocks : Bool) (key : CacheKey) (length : UInt32) :
    EntryOutcome :=
  match resolve s io.lookupError blocks key length with
  | .miss => .miss
  | .failed => .failed
  | .write pointer len =>
    if io.written then .hit (bytesAt s.memory pointer len.toNat) else .failed
  | .block offset =>
    if !io.canRead then .deferred
    else
      match readToBounce s io key offset length with
      | .ok bytes => if io.written then .hit bytes else .failed
      | .error e => if e.isTransient then .deferred else .failed

/-- The request can be read from the block tier: the checks of `read_to_bounce` and
`bounce_alloc`. -/
def CanRead (offset : UInt64) (length : UInt32) : Prop :=
  (∃ drive raw, selectDrive s.drives offset = some (drive, raw) ∧ drive.blockSize ≠ 0 ∧
    4096 % drive.blockSize = 0) ∧
    s.dmaCapable ∧ length ≠ 0 ∧ nextMultipleOf length.toNat 4096 ≤ s.reserve

/-- An entry on a drive is asked for with the length it was stored with, or not readable at all. -/
def OwnLength (blocks : Bool) (key : CacheKey) (length : UInt32) : Prop :=
  ∀ offset, blocks → s.entry key = some (.blockDevice offset) → CanRead s offset length →
    length.toNat = (s.value key).length

/-- Every hit delivers the stored bytes, and their number is the requested length. -/
def Faithful (blocks : Bool) (key : CacheKey) (length : UInt32) : Prop :=
  ∀ io written, serve s io blocks key length = .hit written →
    s.entry key ≠ none ∧ written = s.value key ∧ written.length = length.toNat

/-- The key is in the memory tier of `m` with the value it has in `s`. -/
def Resident (m s : Source) (key : CacheKey) : Prop :=
  m.value key = s.value key ∧ ∃ pointer size, m.entry key = some (.memoryTier pointer size)

/-- A hit where the key is elsewhere is no miss where it is in the memory tier, and delivers the same
bytes. -/
def TierNeutral (blocks : Bool) (key : CacheKey) (length : UInt32) : Prop :=
  ∀ m, Resident m s key → ∀ io io' written, serve s io blocks key length = .hit written →
    serve m io' blocks key length ≠ .miss ∧
      ∀ written', serve m io' blocks key length = .hit written' → written' = written

end

section Serve

variable {s : Source} {io : ServeIo} {key : CacheKey} {length : UInt32} {written : List UInt8}

/-! ## The block tier reads what it is asked for -/

theorem bytesAt_congr {mem mem' : ℕ → UInt8} {addr addr' len : ℕ}
    (h : ∀ i < len, mem (addr + i) = mem' (addr' + i)) :
    bytesAt mem addr len = bytesAt mem' addr' len :=
  map_congr_left fun i hi => h i (mem_range.mp hi)

variable {drive : Drive} {offset : UInt64} {blocks : Bool}

/-- The buffer holds the bytes from the start of the extent on. -/
theorem readIntoBounce_eq (hblock : drive.blockSize ≠ 0) (startLba len : ℕ) (buffer : ℕ → UInt8)
    {i : ℕ} (hi : i < len) :
    readIntoBounce drive startLba len (max drive.maxTransferSize 4096) buffer i
      = drive.data (startLba * drive.blockSize + i) := by
  have hpos := Nat.pos_of_ne_zero hblock
  obtain ⟨hround, hle, -⟩ := nextMultipleOf_spec (n := len) hpos
  have hle' := (nextMultipleOf_spec (n := nextMultipleOf len drive.blockSize) hpos).2.1
  have htiled := segmentLoop_tiled (by omega) drive.transfer_dvd
    (Nat.le_refl (nextMultipleOf len drive.blockSize)) hround (add_zero (startLba * _)).symm
  rw [zero_add] at htiled
  unfold readIntoBounce segmentIo
  rw [if_neg (by omega), Option.getD_some, foldl_segments hpos hround buffer (Perm.refl _) htiled,
    land, if_pos (by simp only; omega), Nat.sub_zero]

/-- **What a bounce read returns**: as many bytes as asked for from the extent on, if the request can
be read. -/
theorem readToBounce_eq_ok (h : readToBounce s io key offset length = .ok written) :
    CanRead s offset length ∧ ∃ drive raw, selectDrive s.drives offset = some (drive, raw) ∧
      written = bytesAt drive.data (raw / drive.blockSize * drive.blockSize) length.toNat := by
  unfold readToBounce at h
  split at h
  · cases h
  split_ifs at h with hempty
  split at h
  · cases h
  rename_i drive raw hselect
  split_ifs at h with hblock
  obtain ⟨hzero, hdvd⟩ := not_or.mp hblock
  unfold bounceAlloc at h
  by_cases hdma : (!s.dmaCapable)
  · rw [if_pos hdma] at h
    cases h
  rw [if_neg hdma] at h
  by_cases hfit : length = 0 ∨ nextMultipleOf length.toNat 4096 > s.reserve
  · rw [if_pos hfit] at h
    cases h
  split_ifs at h with hspace
  dsimp only at h
  split at h <;> cases h
  obtain ⟨hlength, hreserve⟩ := not_or.mp hfit
  refine ⟨⟨⟨drive, raw, hselect, hzero, not_not.mp hdvd⟩, by simpa using hdma, hlength,
    Nat.le_of_not_lt hreserve⟩, drive, raw, hselect, ?_⟩
  refine bytesAt_congr fun i hi => ?_
  rw [Nat.zero_add, readIntoBounce_eq hzero _ _ _ hi]

/-- A request that can be read is read if nothing fails. -/
theorem exists_readToBounce (key : CacheKey) (h : CanRead s offset length) :
    ∃ bytes, readToBounce s .ok key offset length = .ok bytes ∧ bytes.length = length.toNat := by
  obtain ⟨⟨drive, raw, hselect, hzero, hdvd⟩, hdma, hlength, hreserve⟩ := h
  have hempty : s.drives.isEmpty = false := by
    cases hdrives : s.drives with
    | nil =>
      rw [hdrives] at hselect
      exact nomatch hselect
    | cons drive drives => rfl
  have halloc : bounceAlloc s .ok length = .ok () := by
    unfold bounceAlloc
    rw [if_neg (by simp [hdma]), if_neg (by simp only [not_or, not_lt]; exact ⟨hlength, hreserve⟩)]
    rfl
  refine ⟨bytesAt (readIntoBounce drive (raw / drive.blockSize) length.toNat
    (max drive.maxTransferSize 4096) fun _ => 0) 0 length.toNat, ?_, length_bytesAt ..⟩
  unfold readToBounce
  rw [show ServeIo.ok.notInitialized = none from rfl]
  dsimp only
  rw [hempty, if_neg Bool.false_ne_true, hselect]
  dsimp only
  rw [if_neg (by simp [hzero, hdvd]), halloc]
  rfl

/-! ## Answers -/

/-- What a hit is: an entry of the memory tier of the requested size, or a successful read. -/
theorem serve_eq_hit (h : serve s io blocks key length = .hit written) :
    (∃ pointer, s.entry key = some (.memoryTier pointer length) ∧
        written = bytesAt s.memory pointer length.toNat) ∨
      ∃ offset, blocks ∧ s.entry key = some (.blockDevice offset) ∧
        readToBounce s io key offset length = .ok written := by
  unfold serve resolve Source.lookup at h
  cases herror : io.lookupError with
  | some e => rw [herror] at h; exact nomatch h
  | none =>
    rw [herror] at h
    cases hentry : s.entry key with
    | none => rw [hentry] at h; exact nomatch h
    | some location =>
      rw [hentry] at h
      cases location with
      | memoryTier pointer size =>
        dsimp only at h
        by_cases hsize : size = length
        · subst hsize
          rw [if_neg (not_not.mpr rfl)] at h
          by_cases hpool : (!s.contains pointer size.toNat)
          · rw [if_pos hpool] at h
            cases h
          · rw [if_neg hpool] at h
            dsimp only at h
            split_ifs at h
            cases h
            exact .inl ⟨pointer, rfl, rfl⟩
        · rw [if_pos hsize] at h
          exact nomatch h
      | blockDevice offset =>
        cases blocks with
        | false => exact nomatch h
        | true =>
          dsimp only at h
          rw [if_pos rfl] at h
          dsimp only at h
          cases hread : readToBounce s io key offset length with
          | ok bytes =>
            rw [hread] at h
            split_ifs at h
            cases h
            exact .inr ⟨offset, rfl, rfl, hread⟩
          | error e =>
            rw [hread] at h
            dsimp only at h
            split_ifs at h

/-- The memory tier compares lengths. -/
theorem serve_ne_miss {pointer : Pointer}
    (hentry : s.entry key = some (.memoryTier pointer length)) :
    serve s io blocks key length ≠ .miss := by
  unfold serve resolve Source.lookup
  cases io.lookupError with
  | some e => exact fun h => nomatch h
  | none =>
    rw [hentry]
    dsimp only
    rw [if_neg (not_not.mpr rfl)]
    split_ifs <;> exact fun h => nomatch h

theorem OwnLength.faithful (h : OwnLength s blocks key length) : Faithful s blocks key length := by
  intro io written hhit
  rcases serve_eq_hit hhit with ⟨pointer, hentry, rfl⟩ | ⟨offset, hblocks, hentry, hread⟩
  · exact ⟨by simp [hentry], (s.memory_value hentry).symm, length_bytesAt ..⟩
  · obtain ⟨hcan, drive, raw, hselect, rfl⟩ := readToBounce_eq_ok hread
    obtain ⟨hdvd, hvalue⟩ := s.block_value hentry hselect
    have hlength := h offset hblocks hentry hcan
    refine ⟨by simp [hentry], ?_, length_bytesAt ..⟩
    rw [Nat.div_mul_cancel hdvd, hlength]
    exact hvalue.symm

/-- Where every hit is faithful, demotion changes no answer. -/
theorem Faithful.tierNeutral (h : Faithful s blocks key length) :
    TierNeutral s blocks key length := by
  rintro m ⟨hvalue, pointer, size, hentry⟩ io io' written hhit
  obtain ⟨-, hwritten, hlength⟩ := h io written hhit
  have hmem := m.memory_value hentry
  have hsize : size = length := by
    refine UInt32.toNat_inj.mp ?_
    rw [← hlength, hwritten, ← hvalue, hmem, length_bytesAt]
  subst hsize
  refine ⟨serve_ne_miss hentry, fun written' hhit' => ?_⟩
  rcases serve_eq_hit hhit' with ⟨pointer', hentry', rfl⟩ | ⟨offset, -, hentry', -⟩
  · rw [← m.memory_value hentry', hvalue, hwritten]
  · rw [hentry] at hentry'
    exact nomatch hentry'

/-- A request for another length is answered with bytes that are not the value. -/
theorem ownLength_of_faithful (h : Faithful s blocks key length) :
    OwnLength s blocks key length := by
  intro offset hblocks hentry hcan
  obtain ⟨bytes, hread, hlen⟩ := exists_readToBounce key hcan
  have hhit : serve s .ok blocks key length = .hit bytes := by
    have hresolve : resolve s none blocks key length = .block offset := by
      unfold resolve Source.lookup
      rw [hentry, hblocks]
      rfl
    unfold serve
    rw [show ServeIo.ok.lookupError = none from rfl, hresolve]
    dsimp only
    rw [hread]
    rfl
  obtain ⟨-, hwritten, -⟩ := h .ok bytes hhit
  rw [← hlen, hwritten]

/-- **Either tier gives the same answer.** The hits for a key and a length deliver exactly the stored
bytes, and the same as from the memory tier, if and only if an entry on a drive that can be read is
asked for with the length it was stored with. -/
theorem serve_faithful_iff (s : Source) (blocks : Bool) (key : CacheKey) (length : UInt32) :
    Faithful s blocks key length ∧ TierNeutral s blocks key length ↔
      OwnLength s blocks key length :=
  ⟨fun h => ownLength_of_faithful h.1, fun h => ⟨h.faithful, h.faithful.tierNeutral⟩⟩

/-- A drive with a block of ones and, after it, twos. -/
def sampleDrive : Drive := ⟨512, 131072, fun i => if i < 512 then 1 else 2, by decide⟩

/-- Keys 1 and 2 are on the drive, one block each. -/
def demoted : Source where
  entry key := if key = 1 then some (.blockDevice 0) else if key = 2 then some (.blockDevice 512)
    else none
  value key := bytesAt sampleDrive.data (if key = 1 then 0 else 512) 512
  memory _ := 0
  poolAddr := 0
  poolLen := 1048576
  drives := [sampleDrive]
  dmaCapable := true
  reserve := 1048576
  memory_value := by
    intro key pointer size hentry
    split_ifs at hentry <;> exact nomatch hentry
  block_value := by
    intro key offset drive raw hentry hselect
    rw [length_bytesAt]
    split_ifs at hentry with h1 h2
    · cases hentry
      cases hselect
      exact ⟨by decide, by rw [if_pos h1]; rfl⟩
    · cases hentry
      cases hselect
      exact ⟨by decide, by rw [if_neg h1]; rfl⟩

/-- Key 1 is in the memory tier. -/
def resident : Source where
  entry key := if key = 1 then some (.memoryTier 0 512) else none
  value _ := bytesAt sampleDrive.data 0 512
  memory := sampleDrive.data
  poolAddr := 0
  poolLen := 1048576
  drives := [sampleDrive]
  dmaCapable := true
  reserve := 1048576
  memory_value := by
    intro key pointer size hentry
    split_ifs at hentry
    cases hentry
    rfl
  block_value := by
    intro key offset drive raw hentry
    split_ifs at hentry
    exact nomatch hentry

/-- **The block tier serves the next key's bytes.** A peer asks for 1024 bytes of key 1, which has
512. In the memory tier this is a miss; on the drive it is a hit, with the block of key 2 behind the
value. -/
theorem foreign_bytes_served : Resident resident demoted 1 ∧
    serve resident .ok true 1 1024 = .miss ∧
    serve demoted .ok true 1 1024 = .hit (demoted.value 1 ++ demoted.value 2) ∧
    ¬ (Faithful demoted true 1 1024 ∧ TierNeutral demoted true 1 1024) := by
  have hresident : Resident resident demoted 1 := ⟨rfl, 0, 512, rfl⟩
  have hmiss : serve resident .ok true 1 1024 = .miss := by decide +kernel
  have hhit : serve demoted .ok true 1 1024 = .hit (demoted.value 1 ++ demoted.value 2) := by
    decide +kernel
  exact ⟨hresident, hmiss, hhit, fun h => (h.2 resident hresident .ok .ok _ hhit).1 hmiss⟩

end Serve

end Certus.TransferEndpoint
