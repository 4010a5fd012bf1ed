import Certus.Dispatcher.DataPlacement
import Certus.Dispatcher.KeyView

/-! # The size of an entry

The map holds the size of an entry in blocks of 4096 bytes, and promotions reserve and read as many
bytes. The size is set by the store, by each promotion and by the recovery after a restart.

* **`entrySize_kept`** — what `entrySize` answers in such histories, and what a promotion reads. -/

namespace Certus

open DispatchMap Option ExtentManager

/-- Where on the drives the data of an entry are. -/
def Location.extent : Location → Option UInt64
  | .blockDevice offset => some offset
  | .memoryTier _ _ ssdOffset => ssdOffset

namespace Dispatcher

/-- What happens to the dispatch map. A lookup that promotes passes the total of the regions it is
asked for, and is a call like any other. `promote_to_memory_tier` passes what `entry_size` answered
it before, and a `remove` that is refused takes its demotion back with the size that it looked up. -/
inductive SizeEvent
  | call (keys : List CacheKey) (c : MapCall)
  | promoteAnswered (key : CacheKey) (pointer : Pointer) (size : UInt32)
  | restart (extents : OrdMap UInt64 Extent)

/-- The map, and the sizes it has answered. -/
structure SizeState where
  map : DispatchMap
  answers : List (CacheKey × UInt32)

/-- The size in an answer of the map. -/
def MapCall.sizeAnswered : (c : MapCall) → c.Answer → Option (CacheKey × UInt32)
  | .lookup k, .ok (.memoryTier _ size) => some (k, size)
  | .entrySize k, .ok size => some (k, size)
  | _, _ => none

/-- One event. -/
def SizeEvent.step (s : SizeState) : SizeEvent → Option SizeState
  | .call keys c => (c.exec keys s.map).map fun r =>
    ⟨r.2, (c.sizeAnswered r.1).toList ++ s.answers⟩
  | .promoteAnswered key pointer size =>
    if (key, size) ∈ s.answers then
      some { s with map := (s.map.promoteBlockToMemoryTier key pointer size).2 }
    else none
  | .restart extents => some ⟨recoverEntries extents, []⟩

/-- A write-through of the key with this size put its extent at an offset of a drive with this block
size, and recorded the location. -/
def WrittenAt (blockSize : ℕ) (key : CacheKey) (size : UInt32) (loc : UInt64) (offset : ℕ) : Prop :=
  ∃ (c : BlockDeviceClient) (s : ExtentManager.System c) (maxTransferSize driveIdx : ℕ)
    (job : WriteJob) (w : Written), writeThrough blockSize maxTransferSize driveIdx s job = some w ∧
      job.key = key ∧ job.size = size ∧ w.loc = loc ∧ w.handle.offset = offset ∧ offset < 2 ^ 56

/-- What the events of a key are given: a store, or a lookup that promotes, has a size of as many
blocks; a write-through is one of these data; and no restart recovers an extent of the key. -/
def Sized (blockSize : ℕ) (key : CacheKey) (size : UInt32) (_ : SizeState) : SizeEvent → Prop
  | .call _ (.createMemoryTierEntry k _ given) | .call _ (.promoteBlockToMemoryTier k _ given) =>
    k = key → sizeInBlocks given = sizeInBlocks size
  | .call _ (.convertToStorage k loc) => k = key → ∃ offset, WrittenAt blockSize key size loc offset
  | .restart extents => ∀ loc ext, extents.get? loc = some ext → ext.published = true → ext.key ≠ key
  | _ => True

section

variable {blockSize : ℕ} {key : CacheKey} {size : UInt32}

/-- The entry has as many blocks as the data, also in what it says about its slot, and its extent is
one of the key. -/
structure EntryOk (blockSize : ℕ) (key : CacheKey) (size : UInt32) (x : DispatchEntry) : Prop where
  blocks : x.sizeBlocks = sizeInBlocks size
  slot : ∀ p given o, x.location = .memoryTier p given o → sizeInBlocks given = sizeInBlocks size
  written : ∀ loc ∈ x.location.extent, ∃ offset, WrittenAt blockSize key size loc offset

/-- An operation that changes the references only, or demotes the entry, keeps this. -/
theorem EntryOk.modify {x y : DispatchEntry} (h : EntryOk blockSize key size x)
    (hsize : y.sizeBlocks = x.sizeBlocks)
    (hloc : y.location = x.location ∨ y.location = x.location.demoted) :
    EntryOk blockSize key size y := by
  have hblocks := hsize.trans h.blocks
  rcases hloc with hloc | hloc
  · exact ⟨hblocks, hloc ▸ h.slot, hloc ▸ h.written⟩
  · cases hx : x.location with
    | blockDevice o =>
      rw [hx] at hloc
      exact ⟨hblocks, hx.trans hloc.symm ▸ h.slot, hx.trans hloc.symm ▸ h.written⟩
    | memoryTier p given o =>
      rw [hx] at hloc
      have hwritten := h.written
      rw [hx] at hwritten
      cases o with
      | none => exact ⟨hblocks, hx.trans hloc.symm ▸ h.slot, hx.trans hloc.symm ▸ h.written⟩
      | some o =>
        refine ⟨hblocks, fun p' given' o' hy => ?_, ?_⟩
        · cases hloc.symm.trans hy
        · rw [hloc]
          exact hwritten

/-- So does such an operation on the row of a key. -/
theorem entryOk_of_modifies {guard : DispatchEntry → Prop} {f : DispatchEntry → DispatchEntry}
    {a : Except DispatchMapError Unit} {e e' : Option DispatchEntry} (h : Modifies guard f a e e')
    (hf : ∀ x, EntryOk blockSize key size x → EntryOk blockSize key size (f x))
    (hn : ∀ x ∈ e, EntryOk blockSize key size x) : ∀ x ∈ e', EntryOk blockSize key size x := by
  rcases h with ⟨-, rfl, -⟩ | ⟨-, x, rfl, -, rfl⟩
  · exact hn
  · rintro y ⟨⟩
    exact hf x (hn x rfl)

/-- A promotion with a size of as many blocks keeps the entry. -/
theorem entryOk_of_promote {k : CacheKey} {p : Pointer} {given : UInt32} {e e' : Option DispatchEntry}
    {a : (MapCall.promoteBlockToMemoryTier k p given).Answer}
    (h : (MapCall.promoteBlockToMemoryTier k p given).Effect a e e')
    (hgiven : sizeInBlocks given = sizeInBlocks size)
    (hn : ∀ x ∈ e, EntryOk blockSize key size x) : ∀ x ∈ e', EntryOk blockSize key size x := by
  rcases h with ⟨-, rfl, -⟩ | ⟨-, -, x, o, rfl, hloc, rfl⟩
  · exact hn
  · rintro y ⟨⟩
    refine ⟨hgiven, fun p' given' o' hy => ?_, ?_⟩
    · cases hy
      exact hgiven
    · have hwritten := (hn x rfl).written
      rw [hloc] at hwritten
      exact hwritten

/-- A call keeps the entry of its key. -/
theorem MapCall.Effect.entryOk {s : SizeState} {keys : List CacheKey} {c : MapCall} {a : c.Answer}
    {e e' : Option DispatchEntry} (h : c.Effect a e e') (hkey : c.key = some key)
    (hin : Sized blockSize key size s (.call keys c))
    (hn : ∀ x ∈ e, EntryOk blockSize key size x) : ∀ x ∈ e', EntryOk blockSize key size x := by
  cases c with
  | lookup =>
    rcases h with ⟨-, -, rfl⟩ | ⟨-, rfl⟩ | ⟨x, rfl, -, -, rfl⟩
    · rintro y ⟨⟩
    · exact hn
    · rintro y ⟨⟩
      exact (hn x rfl).modify rfl (.inl rfl)
  | convertToStorage =>
    refine entryOk_of_modifies h (fun x hx => ?_) hn
    unfold withStorage
    split
    · rename_i p n o hloc
      refine ⟨hx.blocks, fun p' given' o' hy => ?_, ?_⟩
      · cases hy
        exact hx.slot _ _ _ hloc
      · rintro loc ⟨⟩
        exact hin (some.inj hkey)
    · exact hx
  | takeRead | releaseRead | releaseWrite =>
    exact entryOk_of_modifies h (fun x hx => hx.modify rfl (.inl rfl)) hn
  | convertMemoryTierToBlock | tryEvictToBlock =>
    exact entryOk_of_modifies h (fun x hx => hx.modify rfl (.inr rfl)) hn
  | downgradeReference =>
    rcases h with h | ⟨x, rfl, -, -, -, rfl⟩
    · exact entryOk_of_modifies h (fun x hx => hx.modify rfl (.inl rfl)) hn
    · rintro y ⟨⟩
      exact (hn x rfl).modify rfl (.inl rfl)
  | remove =>
    rcases h with ⟨-, -, rfl⟩ | ⟨-, rfl, -⟩ | ⟨-, rfl, -⟩
    · rintro y ⟨⟩
    · exact hn
    · rintro y ⟨⟩
  | createMemoryTierEntry =>
    rcases h with ⟨-, -, rfl⟩ | ⟨-, rfl, -⟩ | ⟨-, -, -, rfl⟩
    · exact hn
    · exact hn
    · rintro y ⟨⟩
      refine ⟨hin (some.inj hkey), fun p' given' o' hy => ?_, ?_⟩
      · cases hy
        exact hin (some.inj hkey)
      · rintro loc ⟨⟩
  | promoteBlockToMemoryTier => exact entryOk_of_promote h (hin (some.inj hkey)) hn
  | entrySize => exact h.1 ▸ hn
  | oldestKeys => exact (show e' = e from h) ▸ hn

/-- The blocks of a size hold the size rounded up, and the product does not overflow. -/
theorem sizeInBlocks_mul (hfit : nextMultipleOf size.toNat 4096 < 2 ^ 32) :
    (sizeInBlocks size).toNat * 4096 = nextMultipleOf size.toNat 4096 ∧
      (sizeInBlocks size * 4096).toNat = nextMultipleOf size.toNat 4096 := by
  have hround : (size.toNat + 4095) / 4096 * 4096 = nextMultipleOf size.toNat 4096 := rfl
  have hblocks : (sizeInBlocks size).toNat = (size.toNat + 4095) / 4096 :=
    Nat.mod_eq_of_lt (by omega : (size.toNat + 4095) / 4096 < 2 ^ 32)
  rw [UInt32.toNat_mul, hblocks, show (4096 : UInt32).toNat = 4096 from rfl, hround]
  exact ⟨rfl, Nat.mod_eq_of_lt hfit⟩

/-- The entry of the key is sound, and so is what the map has answered about its size. -/
structure SizesOk (blockSize : ℕ) (key : CacheKey) (size : UInt32) (s : SizeState) : Prop where
  entry : ∀ x ∈ s.map.get? key, EntryOk blockSize key size x
  answers : ∀ given, (key, given) ∈ s.answers → sizeInBlocks given = sizeInBlocks size

/-- What the map answers is about the key of the call. -/
theorem sizeAnswered_key {c : MapCall} {a : c.Answer} {k : CacheKey} {given : UInt32}
    (ha : c.sizeAnswered a = some (k, given)) : c.key = some k := by
  unfold MapCall.sizeAnswered at ha
  split at ha
  · cases ha
    rfl
  · cases ha
    rfl
  · cases ha

/-- What the map answers about the size of a sound entry has as many blocks as the data. -/
theorem sizeAnswered_blocks (hfit : nextMultipleOf size.toNat 4096 < 2 ^ 32) {c : MapCall}
    {a : c.Answer} {e e' : Option DispatchEntry} (h : c.Effect a e e')
    (hn : ∀ x ∈ e, EntryOk blockSize key size x) {k : CacheKey} {given : UInt32}
    (ha : c.sizeAnswered a = some (k, given)) : sizeInBlocks given = sizeInBlocks size := by
  cases c with
  | lookup =>
    rcases h with ⟨rfl, -, -⟩ | ⟨⟨err, rfl⟩, -⟩ | ⟨x, rfl, -, rfl, -⟩
    · cases ha
    · cases ha
    · cases hx : x.location with
      | blockDevice o =>
        rw [hx] at ha
        cases ha
      | memoryTier p n o =>
        rw [hx] at ha
        cases ha
        exact (hn x rfl).slot _ _ _ hx
  | entrySize =>
    obtain ⟨-, rfl⟩ := h
    cases e with
    | none => cases ha
    | some x =>
      cases ha
      obtain ⟨-, hround⟩ := sizeInBlocks_mul hfit
      rw [(hn x rfl).blocks, sizeInBlocks, hround, sizeInBlocks]
      simp only [nextMultipleOf]
      congr 1
      omega
  | _ => cases ha

/-- One event keeps this. -/
theorem SizeEvent.step_sizesOk (hfit : nextMultipleOf size.toNat 4096 < 2 ^ 32) {s s' : SizeState}
    {ev : SizeEvent} (hin : Sized blockSize key size s ev) (hs : SizesOk blockSize key size s)
    (hstep : ev.step s = some s') : SizesOk blockSize key size s' := by
  cases ev with
  | call keys c =>
    obtain ⟨⟨a, m⟩, hexec, rfl⟩ := map_eq_some_iff.mp hstep
    by_cases hkey : c.key = some key
    · have heffect := MapCall.exec_effect hexec hkey
      refine ⟨heffect.entryOk hkey hin hs.entry, fun given hmem => ?_⟩
      rcases List.mem_append.mp hmem with hmem | hmem
      · exact sizeAnswered_blocks hfit heffect hs.entry (mem_toList.mp hmem)
      · exact hs.answers given hmem
    · refine ⟨by rw [MapCall.exec_of_ne hexec hkey]; exact hs.entry, fun given hmem => ?_⟩
      rcases List.mem_append.mp hmem with hmem | hmem
      · exact absurd (sizeAnswered_key (mem_toList.mp hmem)) hkey
      · exact hs.answers given hmem
  | promoteAnswered k p given =>
    rw [SizeEvent.step] at hstep
    split_ifs at hstep with hmem
    cases hstep
    have hexec : (MapCall.promoteBlockToMemoryTier k p given).exec [] s.map
        = some (s.map.promoteBlockToMemoryTier k p given) := rfl
    refine ⟨?_, hs.answers⟩
    by_cases hkey : k = key
    · subst hkey
      exact entryOk_of_promote (MapCall.exec_effect hexec rfl) (hs.answers _ hmem) hs.entry
    · have hsame : (s.map.promoteBlockToMemoryTier k p given).2.get? key = s.map.get? key :=
        MapCall.exec_of_ne hexec fun h => hkey (some.inj h)
      exact hsame ▸ hs.entry
  | restart extents =>
    cases hstep
    refine ⟨fun x hx => ?_, nofun⟩
    obtain ⟨loc, ext, hget, hpub, hk, -⟩ := recoverEntries_get? hx
    exact absurd hk (hin loc ext hget hpub)

/-! ## Promotions read the extent of the key -/

/-- If blocks are multiples of 4096 bytes, or the size is one, the extent holds the size rounded
up. -/
theorem entryBytes_le_extent (hpos : 0 < blockSize) (hdvd : 4096 ∣ blockSize ∨ 4096 ∣ size.toNat) :
    nextMultipleOf size.toNat 4096 ≤ nextMultipleOf size.toNat blockSize := by
  obtain ⟨hmul, hge, -⟩ := @nextMultipleOf_spec size.toNat _ hpos
  rcases hdvd with hblock | hsize
  · exact nextMultipleOf_le (by decide) hge (hblock.trans hmul)
  · exact le_trans (nextMultipleOf_le (by decide) le_rfl hsize) hge

/-- A drive that was written has blocks. -/
theorem WrittenAt.blockSize_pos {loc : UInt64} {offset : ℕ}
    (h : WrittenAt blockSize key size loc offset) : 0 < blockSize := by
  obtain ⟨c, s, mts, idx, job, w, hwrite, -⟩ := h
  obtain ⟨x, -, -, hsegs, -⟩ := writeThrough_ok hwrite
  unfold segmentIo at hsegs
  split_ifs at hsegs with hzero
  exact Nat.pos_of_ne_zero fun h0 => hzero (.inr h0)

/-- A cold read of bytes that the extent holds reads its blocks only. -/
theorem coldRead_in_extent {loc : UInt64} {offset n chunkSize : ℕ} {segs : List IoSegment}
    (hwritten : WrittenAt blockSize key size loc offset) (hn : 0 < n)
    (hle : n ≤ nextMultipleOf size.toNat blockSize)
    (hread : coldRead blockSize chunkSize loc n = some segs) :
    ∀ seg ∈ segs, ∀ b ∈ seg.lbas blockSize, offset / blockSize ≤ b ∧
      b < (offset + nextMultipleOf size.toNat blockSize) / blockSize := by
  have hpos := hwritten.blockSize_pos
  obtain ⟨c, s, mts, idx, job, w, hwrite, -, -, rfl, rfl, hshort⟩ := hwritten
  obtain ⟨x, -, -, -, hloc⟩ := writeThrough_ok hwrite
  have hoffset : (decodeLoc w.loc).2.toNat = w.handle.offset := by
    rw [hloc, decodeLoc_encodeLoc, UInt64.toNat_ofNat', Nat.mod_mod_of_dvd _ (by decide),
      Nat.mod_eq_of_lt hshort]
  obtain ⟨⟨q, hq⟩, -, -⟩ := @nextMultipleOf_spec size.toNat _ hpos
  obtain ⟨⟨t, ht⟩, htge, -⟩ := @nextMultipleOf_spec n _ hpos
  have htq : t ≤ q := by
    have hround : nextMultipleOf n blockSize ≤ nextMultipleOf size.toNat blockSize :=
      nextMultipleOf_le hpos hle ⟨q, hq⟩
    rw [ht, hq] at hround
    exact Nat.le_of_mul_le_mul_left hround hpos
  rw [coldRead, hoffset] at hread
  rw [hq, Nat.add_mul_div_left _ _ hpos]
  refine (segmentIo_inside_iff hread (lt_of_lt_of_le hn htge) ?_).mpr le_rfl
  rw [ht, ceil_mul hpos]
  omega

/-- **The size of a stored entry stays that of its data**, rounded up to blocks, until a restart
recovers the key: `entrySize` does not overflow, is at least the size and at most the size rounded up.
A promotion that reads up to as many bytes reads blocks of the extent of the key only, if the drive
has blocks of 4096 bytes or the size is a multiple of these. -/
theorem entrySize_kept {m : DispatchMap} {pointer : Pointer} {evs : List SizeEvent} {s : SizeState}
    (hfit : nextMultipleOf size.toNat 4096 < 2 ^ 32)
    (hstore : (m.createMemoryTierEntry key pointer size).1 = .ok ())
    (hrun : Run SizeEvent.step (Sized blockSize key size)
      ⟨(m.createMemoryTierEntry key pointer size).2, []⟩ evs s) :
    ∀ e, s.map.get? key = some e → e.sizeBlocks.toNat * 4096 < 2 ^ 32 ∧
      ∃ v, s.map.entrySize key = .ok v ∧ size.toNat ≤ v.toNat ∧
        v.toNat ≤ nextMultipleOf size.toNat 4096 ∧
        (4096 ∣ blockSize ∨ 4096 ∣ size.toNat → ∀ loc, e.location.extent = some loc →
          ∃ offset, WrittenAt blockSize key size loc offset ∧
            v.toNat ≤ nextMultipleOf size.toNat blockSize ∧
            ∀ n chunkSize segs, 0 < n → n ≤ v.toNat →
              coldRead blockSize chunkSize loc n = some segs →
                ∀ seg ∈ segs, ∀ b ∈ seg.lbas blockSize, offset / blockSize ≤ b ∧
                  b < (offset + nextMultipleOf size.toNat blockSize) / blockSize) := by
  have hstored : SizesOk blockSize key size ⟨(m.createMemoryTierEntry key pointer size).2, []⟩ := by
    refine ⟨?_, nofun⟩
    rcases createMemoryTierEntry_effect m key pointer size with
      ⟨ha, -⟩ | ⟨ha, -⟩ | ⟨-, -, -, he⟩
    · cases hstore.symm.trans ha
    · cases hstore.symm.trans ha
    · dsimp only
      rw [he]
      rintro y ⟨⟩
      refine ⟨rfl, fun p given o hy => ?_, nofun⟩
      cases hy
      rfl
  have hok : SizesOk blockSize key size s :=
    hrun.invariant (I := SizesOk blockSize key size) hstored fun _ _ _ hs hin hstep =>
      SizeEvent.step_sizesOk hfit hin hs hstep
  intro e he
  obtain ⟨hmul, hround⟩ := sizeInBlocks_mul hfit
  have hentry := hok.entry e he
  refine ⟨?_, sizeInBlocks size * 4096, ?_, ?_, hround.le, ?_⟩
  · rw [hentry.blocks, hmul]
    exact hfit
  · rw [entrySize, he]
    exact congrArg (fun n => Except.ok (n * 4096)) hentry.blocks
  · rw [hround]
    exact (nextMultipleOf_spec (by decide)).2.1
  · intro hdvd loc hloc
    obtain ⟨offset, hwritten⟩ := hentry.written loc hloc
    have hle := entryBytes_le_extent hwritten.blockSize_pos hdvd
    rw [hround]
    exact ⟨offset, hwritten, hle, fun n chunkSize segs hn hnle hread =>
      coldRead_in_extent hwritten hn (le_trans hnle hle) hread⟩

end

/-- An entry is stored, written through, demoted, and promoted with the size that the map answers. A
read of its bytes stays in the extent. -/
theorem entrySize_kept_promoted :
    ∃ w, writeThrough smallDrive.blockSize 131072 0 smallDrive.fresh ⟨7, 4000, 0⟩ = some w ∧
    ∃ answered s, Run SizeEvent.step (Sized smallDrive.blockSize 7 4000)
        ⟨(empty.createMemoryTierEntry 7 0 4000).2, []⟩
        [.call [] (.downgradeReference 7), .call [] (.convertToStorage 7 w.loc),
          .call [] (.tryEvictToBlock 7), .call [] (.entrySize 7), .promoteAnswered 7 0 answered] s ∧
      ∃ v, s.map.entrySize 7 = .ok v ∧ 4000 ≤ v.toNat ∧ v.toNat ≤ 4096 ∧ ∃ offset,
        ∀ segs, coldRead smallDrive.blockSize 131072 w.loc 4000 = some segs → ∀ seg ∈ segs,
          ∀ b ∈ seg.lbas smallDrive.blockSize, offset / smallDrive.blockSize ≤ b ∧
            b < (offset + 4096) / smallDrive.blockSize := by
  have hsome : ((writeThrough smallDrive.blockSize 131072 0 smallDrive.fresh ⟨7, 4000, 0⟩).any
      fun w => w.handle.offset < 2 ^ 56) = true := by decide +kernel
  obtain ⟨w, hw, hshort⟩ := (Option.any_eq_true _ _).mp hsome
  have hdemoted : ∃ s, Run SizeEvent.step (Sized smallDrive.blockSize 7 4000)
      ⟨(empty.createMemoryTierEntry 7 0 4000).2, []⟩
      ([] ++ [.call [] (.downgradeReference 7)] ++ [.call [] (.convertToStorage 7 w.loc)] ++
        [.call [] (.tryEvictToBlock 7)]) s ∧
      s.map.get? 7 = some ⟨.blockDevice w.loc, sizeInBlocks 4000, 0, 0⟩ :=
    ⟨_, .snoc (.snoc (.snoc (.nil _) trivial rfl)
      (fun _ => ⟨_, _, _, _, _, _, w, hw, rfl, rfl, rfl, rfl, of_decide_eq_true hshort⟩) rfl)
      trivial rfl, rfl⟩
  obtain ⟨s, hrun, he⟩ := hdemoted
  -- the size that `promote_to_memory_tier` is answered
  obtain ⟨-, given, hgiven, hge, -, -⟩ := entrySize_kept (by decide) rfl hrun _ he
  have hanswer : (SizeEvent.call [] (.entrySize 7)).step s
      = some ⟨s.map, (7, given) :: s.answers⟩ := by
    simp only [SizeEvent.step, MapCall.exec, map_some, hgiven, MapCall.sizeAnswered]
    rfl
  have hpromoted : (s.map.promoteBlockToMemoryTier 7 0 given).2.get? 7
      = some ⟨.memoryTier 0 given (some w.loc), sizeInBlocks given, 0, 0⟩ := by
    have hne : given ≠ 0 := by
      rintro rfl
      exact absurd hge (by decide)
    simp [promoteBlockToMemoryTier, modifyEntry, hne, he]
  have hpromote : (SizeEvent.promoteAnswered 7 0 given).step ⟨s.map, (7, given) :: s.answers⟩
      = some ⟨(s.map.promoteBlockToMemoryTier 7 0 given).2, (7, given) :: s.answers⟩ :=
    if_pos List.mem_cons_self
  have hrun' := Run.snoc (Run.snoc hrun (by trivial) hanswer) (by trivial) hpromote
  obtain ⟨-, v, hv, hge, hle, hread⟩ := entrySize_kept (by decide) rfl hrun' _ hpromoted
  obtain ⟨offset, -, -, hread⟩ := hread (.inl (by decide +kernel)) w.loc rfl
  exact ⟨w, hw, given, _, hrun', v, hv, hge, hle, offset, fun segs =>
    hread 4000 131072 segs (by decide) hge⟩

/-- After a restart the entry of a page claims 16 MiB, and that of a mebibyte nothing: the recovery
passes the bytes of an extent as its blocks. -/
theorem entrySize_grows_on_recovery :
    (empty.createMemoryTierEntry 7 0 4096).2.entrySize 7 = .ok 4096 ∧
    (recoverEntries (OrdMap.empty.insert 0 ⟨7, 4096, true⟩)).entrySize 7 = .ok 16777216 ∧
    (recoverEntries (OrdMap.empty.insert 0 ⟨7, 1048576, true⟩)).entrySize 7 = .ok 0 :=
  ⟨rfl, rfl, rfl⟩

end Dispatcher

end Certus
