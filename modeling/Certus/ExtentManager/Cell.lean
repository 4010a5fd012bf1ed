import Certus.ExtentManager.Recovery

/-! # A region with its callers

A region is used through write handles: `reserve_extent` hands one out, and it is later published or
aborted (also by being dropped). A cell is a region together with the handles that are out. Every
operation below holds the lock of the region, so it is one step.

* **`Cell`, `Cell.step`** — the operations on one region.
* **`Cell.Effect`, `Cell.step_effect`** — the five things a step can do to the slots. -/

namespace Certus.ExtentManager

open List Option RegionState Slab

/-- A reservation that is neither published nor aborted yet. -/
structure WriteHandle where
  key : UInt64
  slabStart : ℕ
  slotIdx : ℕ
  offset : ℕ
  alignedSize : UInt32
  deriving DecidableEq, Repr

/-- The slot of a handle. -/
def WriteHandle.slot (h : WriteHandle) : ℕ × ℕ := (h.slabStart, h.slotIdx)

/-- A region and the handles that are out. -/
structure Cell where
  region : RegionState
  handles : List WriteHandle

namespace Cell

/-- The part of `reserve_extent` after the region is chosen. -/
def reserve (x : Cell) (key : UInt64) (size : UInt32) : Outcome WriteHandle × Cell :=
  match x.region.allocExtent size with
  | (.ok (slabStart, slotIdx, offset), r) =>
    let h : WriteHandle :=
      ⟨key, slabStart, slotIdx, offset, alignToSectorSize size r.formatParams.sectorSize⟩
    (.ok h, ⟨r, x.handles ++ [h]⟩)
  | (.err e, r) => (.err e, ⟨r, x.handles⟩)
  | (.panicked, r) => (.panicked, ⟨r, x.handles⟩)

/-- Publish the `n`-th handle. A handle for the key `freeKey` is silently discarded. -/
def publish (x : Cell) (n : ℕ) : Option Cell :=
  x.handles[n]?.map fun h =>
    ⟨if h.key = freeKey then x.region.freeSlot h.slabStart h.slotIdx
      else x.region.publishSlot h.slabStart h.slotIdx h.key, x.handles.eraseIdx n⟩

/-- Abort or drop the `n`-th handle. -/
def abort (x : Cell) (n : ℕ) : Option Cell :=
  x.handles[n]?.map fun h => ⟨x.region.freeSlot h.slabStart h.slotIdx, x.handles.eraseIdx n⟩

/-- The part of `remove_extent` after the region is chosen; an error changes nothing. -/
def remove (x : Cell) (offset : ℕ) : Cell :=
  match x.region.removeExtentByOffset offset with
  | .ok r => { x with region := r }
  | .error _ => x

/-- What a finished checkpoint does to a region. -/
def clear (x : Cell) : Cell :=
  { x with region := { x.region with dirty := false }.flushPendingFrees }

/-- The operations on one region. -/
inductive Action
  | reserve (key : UInt64) (size : UInt32)
  | publish (n : ℕ)
  | abort (n : ℕ)
  | remove (offset : ℕ)
  deriving DecidableEq, Repr

/-- One operation. -/
def step (a : Action) (x : Cell) : Option Cell :=
  match a with
  | .reserve key size => some (x.reserve key size).2
  | .publish n => x.publish n
  | .abort n => x.abort n
  | .remove offset => some (x.remove offset)

/-! ## The invariant -/

/-- The slots of the handles and the pending frees. -/
def held (x : Cell) : List (ℕ × ℕ) := x.handles.map WriteHandle.slot ++ x.region.pendingFrees

/-- The allocated slots without a key are those of the handles and the pending frees, each of them
once. -/
structure Inv (x : Cell) : Prop where
  wf : x.region.WellFormed
  nodup : x.held.Nodup
  slot : ∀ p ∈ x.held, ∃ e, x.region.slotAt p = some (e, freeKey)
  complete : ∀ p e, x.region.slotAt p = some (e, freeKey) → p ∈ x.held
  handle : ∀ h ∈ x.handles, x.region.slotAt h.slot = some (h.alignedSize.toNat, freeKey) ∧
    h.offset = h.slabStart + h.slotIdx * h.alignedSize.toNat

variable {h : WriteHandle} {n : ℕ} {x y : Cell} {a : Action}

/-- The slot of a handle is allocated without a key. -/
theorem Inv.slot_of_handle (hx : x.Inv) (hn : x.handles[n]? = some h) :
    ∃ e, x.region.slotAt h.slot = some (e, freeKey) :=
  hx.slot _ (mem_append_left _ (mem_map_of_mem (mem_of_getElem? hn)))

/-- Taking out the `n`-th handle takes out its slot. -/
theorem held_eraseIdx (hn : x.handles[n]? = some h) :
    x.held.Perm (h.slot :: ((x.handles.eraseIdx n).map WriteHandle.slot ++ x.region.pendingFrees)) := by
  obtain ⟨hlt, rfl⟩ := List.getElem?_eq_some_iff.mp hn
  have hperm := (getElem_cons_eraseIdx_perm hlt).symm
  exact (hperm.map WriteHandle.slot).append_right _

/-! ## What a step can do -/

/-- What a step does to the slots, the pending frees, the flag and the handles. -/
inductive Effect (x y : Cell) : Action → Prop
  /-- Nothing a caller can see. -/
  | unchanged {a : Action} (keeps : x.region.Keeps y.region)
      (slots : ∀ q, y.region.slotAt q = x.region.slotAt q) (handles : y.handles = x.handles) :
      Effect x y a
  /-- A free slot is handed out. -/
  | reserve {key : UInt64} {size : UInt32} (h : WriteHandle) (keeps : x.region.Keeps y.region)
      (free : x.region.slotAt h.slot = none)
      (slots : ∀ q, y.region.slotAt q
        = if q = h.slot then some (h.alignedSize.toNat, freeKey) else x.region.slotAt q)
      (offset : h.offset = h.slabStart + h.slotIdx * h.alignedSize.toNat)
      (handles : y.handles = x.handles ++ [h]) : Effect x y (.reserve key size)
  /-- The slot of a handle gets its key. -/
  | publish {n : ℕ} (h : WriteHandle) (e : ℕ) (taken : x.handles[n]? = some h)
      (key : h.key ≠ freeKey) (wf : y.region.WellFormed) (same : x.region.SameRegion y.region)
      (pending : y.region.pendingFrees = x.region.pendingFrees) (dirty : y.region.dirty)
      (slots : ∀ q, y.region.slotAt q = if q = h.slot then some (e, h.key) else x.region.slotAt q)
      (handles : y.handles = x.handles.eraseIdx n) : Effect x y (.publish n)
  /-- The slot of a handle becomes free. -/
  | release {a : Action} (n : ℕ) (h : WriteHandle) (taken : x.handles[n]? = some h)
      (keeps : x.region.Keeps y.region)
      (slots : ∀ q, y.region.slotAt q = if q = h.slot then none else x.region.slotAt q)
      (handles : y.handles = x.handles.eraseIdx n) : Effect x y a
  /-- A slot loses its key and waits to be freed. -/
  | remove {offset : ℕ} (p : ℕ × ℕ) (e : ℕ) (k : UInt64)
      (found : x.region.removeExtentByOffset offset = .ok y.region)
      (wf : y.region.WellFormed) (same : x.region.SameRegion y.region)
      (occupied : x.region.slotAt p = some (e, k)) (key : k ≠ freeKey)
      (pending : y.region.pendingFrees = x.region.pendingFrees ++ [p])
      (dirty : y.region.dirty)
      (slots : ∀ q, y.region.slotAt q = if q = p then some (e, freeKey) else x.region.slotAt q)
      (handles : y.handles = x.handles) : Effect x y (.remove offset)

theorem reserve_effect (hx : x.region.WellFormed) (key : UInt64) (size : UInt32) :
    Effect x (x.reserve key size).2 (.reserve key size) := by
  obtain ⟨hkeeps, hres⟩ := allocExtent_spec hx size
  revert hkeeps hres
  rw [reserve]
  generalize x.region.allocExtent size = v
  obtain ⟨out, r⟩ := v
  intro hkeeps hres
  cases out with
  | ok res =>
    obtain ⟨start, i, off⟩ := res
    obtain ⟨hoff, hfree, hslots⟩ := hres
    rw [← hkeeps.same.params] at hoff hslots
    exact .reserve ⟨key, start, i, off, _⟩ hkeeps hfree hslots hoff rfl
  | err e | panicked => exact .unchanged hkeeps hres rfl

theorem reserve_free (hx : x.region.WellFormed) {key : UInt64} {size : UInt32}
    (hres : (x.reserve key size).1 = .ok h) : x.region.slotAt h.slot = none := by
  obtain ⟨-, hspec⟩ := allocExtent_spec hx size
  revert hspec hres
  rw [reserve]
  generalize x.region.allocExtent size = v
  obtain ⟨out, r⟩ := v
  intro hres hspec
  cases out with
  | ok res =>
    cases hres
    exact hspec.2.1
  | err e | panicked => cases hres

/-- **What a step can do.** -/
theorem step_effect (hx : x.Inv) (h : step a x = some y) : Effect x y a := by
  cases a with
  | reserve key size =>
    cases h
    exact reserve_effect hx.wf key size
  | publish n =>
    obtain ⟨hd, hn, rfl⟩ := map_eq_some_iff.mp h
    obtain ⟨e, he⟩ := hx.slot_of_handle hn
    split_ifs with hkey
    · obtain ⟨hkeeps, hslots⟩ := RegionState.freeSlot_spec hx.wf he
      exact .release n hd hn hkeeps hslots rfl
    · obtain ⟨hwf, hsame, hpend, hdirty, hslots⟩ :=
        publishSlot_spec hx.wf he hd.key
      exact .publish hd e hn hkey hwf hsame hpend hdirty hslots rfl
  | abort n =>
    obtain ⟨hd, hn, rfl⟩ := map_eq_some_iff.mp h
    obtain ⟨e, he⟩ := hx.slot_of_handle hn
    obtain ⟨hkeeps, hslots⟩ := RegionState.freeSlot_spec hx.wf he
    exact .release n hd hn hkeeps hslots rfl
  | remove offset =>
    cases h
    rw [remove]
    cases hr : x.region.removeExtentByOffset offset with
    | error e =>
      exact .unchanged ⟨hx.wf, RegionState.SameRegion.refl _, rfl, rfl⟩ (fun q => rfl) rfl
    | ok r =>
      obtain ⟨hwf, hsame, hdirty, p, e, k, -, hocc, hkey, hpend, hslots⟩ :=
        removeExtentByOffset_spec hx.wf hr
      exact .remove p e k hr hwf hsame hocc hkey hpend hdirty hslots rfl

theorem Effect.same (h : Effect x y a) : x.region.SameRegion y.region := by
  cases h with
  | unchanged keeps | reserve h keeps | release n h taken keeps => exact keeps.same
  | publish h e taken key wf same | remove p e k found wf same => exact same

/-! ## The invariant is kept -/

namespace Inv

variable {x y : Cell}

section

variable (hx : x.Inv) (hwf : y.region.WellFormed)
include hx hwf

theorem gain {p : ℕ × ℕ} {e : ℕ}
    (hperm : y.held.Perm (p :: x.held)) (hnew : ∀ e, x.region.slotAt p ≠ some (e, freeKey))
    (hslots : ∀ q, y.region.slotAt q = if q = p then some (e, freeKey) else x.region.slotAt q)
    (hhandles : ∀ h ∈ y.handles, h.offset = h.slabStart + h.slotIdx * h.alignedSize.toNat ∧
      ((h.slot = p ∧ h.alignedSize.toNat = e) ∨ h ∈ x.handles)) : y.Inv := by
  have hnot : p ∉ x.held := fun hp => by
    obtain ⟨e', he'⟩ := hx.slot p hp
    exact hnew e' he'
  have hne : ∀ q ∈ x.held, q ≠ p := fun q hq hqp => hnot (hqp ▸ hq)
  refine ⟨hwf, hperm.nodup_iff.mpr (nodup_cons.mpr ⟨hnot, hx.nodup⟩), fun q hq => ?_,
    fun q e' hq => ?_, fun h hh => ?_⟩
  · rw [hslots]
    rcases mem_cons.mp (hperm.mem_iff.mp hq) with rfl | hq
    · exact ⟨e, if_pos rfl⟩
    · rw [if_neg (hne q hq)]
      exact hx.slot q hq
  · rw [hslots] at hq
    refine hperm.mem_iff.mpr (mem_cons.mpr ?_)
    by_cases hqp : q = p
    · exact .inl hqp
    · rw [if_neg hqp] at hq
      exact .inr (hx.complete q e' hq)
  · obtain ⟨hoff, ⟨hslot, he⟩ | hmem⟩ := hhandles h hh
    · exact ⟨by rw [hslots, if_pos hslot, he], hoff⟩
    · have hheld : h.slot ∈ x.held := mem_append_left _ (mem_map_of_mem hmem)
      exact ⟨by rw [hslots, if_neg (hne _ hheld)]; exact (hx.handle h hmem).1, hoff⟩

/-- The slot of a handle is no longer held: it got a key or became free. -/
theorem lose {n : ℕ} {h : WriteHandle}
    {v : Option (ℕ × UInt64)} (hn : x.handles[n]? = some h) (hv : ∀ e, v ≠ some (e, freeKey))
    (hpend : y.region.pendingFrees = x.region.pendingFrees)
    (hslots : ∀ q, y.region.slotAt q = if q = h.slot then v else x.region.slotAt q)
    (hhandles : y.handles = x.handles.eraseIdx n) : y.Inv := by
  have hperm : x.held.Perm (h.slot :: y.held) := by
    have hy : y.held = (x.handles.eraseIdx n).map WriteHandle.slot ++ x.region.pendingFrees := by
      rw [held, hhandles, hpend]
    rw [hy]
    exact held_eraseIdx hn
  obtain ⟨hnot, hnodup⟩ := nodup_cons.mp (hperm.nodup_iff.mp hx.nodup)
  have hne : ∀ q ∈ y.held, q ≠ h.slot := fun q hq hqp => hnot (hqp ▸ hq)
  refine ⟨hwf, hnodup, fun q hq => ?_, fun q e' hq => ?_, fun g hg => ?_⟩
  · rw [hslots, if_neg (hne q hq)]
    exact hx.slot q (hperm.mem_iff.mpr (mem_cons_of_mem _ hq))
  · rw [hslots] at hq
    split_ifs at hq with hqp
    · exact absurd hq (hv e')
    · exact (mem_cons.mp (hperm.mem_iff.mp (hx.complete q e' hq))).resolve_left hqp
  · have hmem : g ∈ x.handles := mem_of_mem_eraseIdx (hhandles ▸ hg)
    have hheld : g.slot ∈ y.held := mem_append_left _ (mem_map_of_mem hg)
    rw [hslots, if_neg (hne _ hheld)]
    exact hx.handle g hmem

/-- The slots, the handles and the pending frees stay as they are. -/
theorem congr (hslots : ∀ q, y.region.slotAt q = x.region.slotAt q)
    (hhandles : y.handles = x.handles)
    (hpend : y.region.pendingFrees = x.region.pendingFrees) : y.Inv := by
  have hheld : y.held = x.held := by rw [held, held, hhandles, hpend]
  refine ⟨hwf, hheld ▸ hx.nodup, fun p hp => ?_, fun p e hp => ?_, fun h hh => ?_⟩
  · rw [hslots]
    exact hx.slot p (hheld ▸ hp)
  · rw [hslots] at hp
    rw [hheld]
    exact hx.complete p e hp
  · rw [hslots]
    exact hx.handle h (hhandles ▸ hh)

end

theorem effect (hx : x.Inv) {a : Action} (h : Effect x y a) : y.Inv := by
  cases h with
  | unchanged keeps slots handles => exact hx.congr keeps.wf slots handles keeps.pending
  | reserve h keeps free slots offset handles =>
    refine hx.gain keeps.wf (p := h.slot) ?_ (fun e he => by rw [free] at he; cases he) slots
      fun g hg => ?_
    · rw [held, held, handles, keeps.pending, map_append, append_assoc]
      exact perm_middle
    · rw [handles] at hg
      rcases mem_append.mp hg with hg | hg
      · exact ⟨(hx.handle g hg).2, .inr hg⟩
      · rw [mem_singleton.mp hg]
        exact ⟨offset, .inl ⟨rfl, rfl⟩⟩
  | publish h e taken key wf same pending dirty slots handles =>
    refine hx.lose wf taken (fun e' he => key ?_) pending slots handles
    exact (Prod.mk.inj (some.inj he)).2
  | release n h taken keeps slots handles =>
    exact hx.lose keeps.wf taken (fun e he => by cases he) keeps.pending slots handles
  | remove p e k found wf same occupied key pending dirty slots handles =>
    refine hx.gain wf (p := p) ?_ (fun e' he => key ?_) slots fun g hg => ?_
    · rw [held, held, handles, pending, ← append_assoc]
      exact perm_append_singleton ..
    · rw [occupied] at he
      exact (Prod.mk.inj (some.inj he)).2
    · exact ⟨(hx.handle g (handles ▸ hg)).2, .inr (handles ▸ hg)⟩

/-- What clearing a region does: the removed slots become free, nothing else changes. -/
theorem clear_slots (hx : x.Inv) : x.clear.region.WellFormed ∧ x.region.SameRegion x.clear.region ∧
      x.clear.region.dirty = false ∧ x.clear.region.pendingFrees = [] ∧
      ∀ q, x.clear.region.slotAt q
        = if q ∈ x.region.pendingFrees then none else x.region.slotAt q := by
  obtain ⟨hwf, hsame, hdirty, hpend, hslots⟩ :=
    flushPendingFrees_spec (r := { x.region with dirty := false })
      (hx.wf.set_marks false x.region.pendingFrees) (nodup_append.mp hx.nodup).2.1
      fun p hp => by
        obtain ⟨e, he⟩ := hx.slot p (mem_append_right _ hp)
        exact ⟨e, freeKey, he⟩
  exact ⟨hwf, ⟨hsame.params, hsame.range⟩, hdirty, hpend, hslots⟩

theorem clear (hx : x.Inv) : x.clear.Inv := by
  obtain ⟨hwf, -, -, hpend, hslots⟩ := hx.clear_slots
  have hheld : x.clear.held = x.handles.map WriteHandle.slot := by
    rw [held, hpend, append_nil]
    rfl
  have hdisj := (nodup_append.mp hx.nodup).2.2
  have hkeep : ∀ p ∈ x.handles.map WriteHandle.slot,
      x.clear.region.slotAt p = x.region.slotAt p := by
    intro p hp
    rw [hslots, if_neg fun hp' => hdisj p hp p hp' rfl]
  refine ⟨hwf, hheld ▸ (nodup_append.mp hx.nodup).1, fun p hp => ?_, fun p e hp => ?_,
    fun h hh => ?_⟩
  · rw [hheld] at hp
    rw [hkeep p hp]
    exact hx.slot p (mem_append_left _ hp)
  · rw [hslots] at hp
    split_ifs at hp with hmem
    rw [hheld]
    exact (mem_append.mp (hx.complete p e hp)).resolve_right hmem
  · rw [hkeep _ (mem_map_of_mem hh)]
    exact hx.handle h hh

end Inv

end Cell

/-! ## Extents -/

/-- A published extent. -/
structure Extent where
  key : UInt64
  offset : ℕ
  size : ℕ
  deriving DecidableEq, Repr

/-- The slots of a slab that have a key. -/
def Slab.occupied (s : Slab) : List ℕ := (range s.numSlots).filter fun i => s.getKey i != freeKey

/-- The extents of a slab. -/
def Slab.extents (s : Slab) : List Extent :=
  s.occupied.map fun i => ⟨s.getKey i, s.slotOffset i, s.elementSize⟩

/-- The loop of `get_extents` for one region. -/
def RegionState.extents (r : RegionState) : List Extent := r.slabs.values.flatMap Slab.extents

/-- The extents that a checkpoint records for a slab. -/
def SlabDescriptor.extents (d : SlabDescriptor) : List Extent :=
  (d.keys.zipIdx.filter fun e => e.1 != freeKey).map fun e =>
    ⟨e.1, d.startOffset + e.2 * d.elementSize, d.elementSize⟩

theorem Slab.extents_describe (s : Slab) : s.describe.extents = s.extents := by
  have hzip : ((List.range s.numSlots).map s.getKey).zipIdx
      = (List.range s.numSlots).map fun i => (s.getKey i, i) := by
    refine ext_getElem (by simp) fun i h₁ h₂ => ?_
    simp
  rw [SlabDescriptor.extents, Slab.describe, hzip, List.filter_map, List.map_map]
  rfl

theorem Slab.mem_occupied {s : Slab} (hs : s.WellFormed) {i : ℕ} :
    i ∈ s.occupied ↔ ∃ k, s.slot i = some k ∧ k ≠ freeKey := by
  rw [occupied, mem_filter, mem_range, bne_iff_ne]
  constructor
  · rintro ⟨hi, hk⟩
    exact ⟨_, slot_eq_some.mpr ⟨⟨hi, hs.isSet_of_getKey hi hk⟩, rfl⟩, hk⟩
  · rintro ⟨k, hslot, hk⟩
    obtain ⟨⟨hi, -⟩, rfl⟩ := slot_eq_some.mp hslot
    exact ⟨hi, hk⟩

namespace RegionState

variable {r t : RegionState}

/-- The slots that have a key, by slab start and index. -/
def occupied (r : RegionState) : List (ℕ × ℕ) :=
  r.slabs.entries.flatMap fun e => e.2.occupied.map fun i => (e.1, i)

theorem mem_occupied (h : r.WellFormed) {p : ℕ × ℕ} :
    p ∈ r.occupied ↔ ∃ e k, r.slotAt p = some (e, k) ∧ k ≠ freeKey := by
  rw [occupied, mem_flatMap]
  constructor
  · rintro ⟨⟨start, s⟩, hmem, hp⟩
    obtain ⟨i, hi, rfl⟩ := mem_map.mp hp
    have hs := OrdMap.mem_entries.mp hmem
    obtain ⟨k, hk, hne⟩ := (Slab.mem_occupied (h.slab _ _ hs).wf).mp hi
    exact ⟨_, k, slotAt_eq_some.mpr ⟨s, hs, hk, rfl⟩, hne⟩
  · rintro ⟨e, k, hp, hne⟩
    obtain ⟨s, hs, hk, -⟩ := slotAt_eq_some.mp hp
    exact ⟨(p.1, s), OrdMap.mem_entries.mpr hs, List.mem_map.mpr
      ⟨p.2, (Slab.mem_occupied (h.slab _ _ hs).wf).mpr ⟨k, hk, hne⟩, rfl⟩⟩

theorem nodup_occupied (r : RegionState) : r.occupied.Nodup := by
  refine nodup_flatMap.mpr ⟨fun e _ => ?_, ?_⟩
  · exact (nodup_range.filter _).map fun i j h => (Prod.mk.inj h).2
  · refine (pairwise_map.mp r.slabs.nodup_keys).imp fun {a b} hne => ?_
    intro p hp hp'
    obtain ⟨i, -, rfl⟩ := mem_map.mp hp
    obtain ⟨j, -, h⟩ := mem_map.mp hp'
    exact hne (Prod.mk.inj h).1.symm

/-- **Extents are the occupied slots.** -/
theorem mem_extents (h : r.WellFormed) {x : Extent} :
    x ∈ r.extents ↔ ∃ p, publishedSlot (r.slotAt p) = some (x.size, x.key) ∧
      x.offset = p.1 + p.2 * x.size := by
  rw [extents, mem_flatMap]
  constructor
  · rintro ⟨s, hmem, hx⟩
    obtain ⟨start, hs⟩ := OrdMap.mem_values.mp hmem
    obtain ⟨i, hi, rfl⟩ := List.mem_map.mp hx
    have hok := h.slab _ _ hs
    obtain ⟨k, hk, hne⟩ := (Slab.mem_occupied hok.wf).mp hi
    obtain ⟨-, rfl⟩ := Slab.slot_eq_some.mp hk
    refine ⟨(start, i), ?_, ?_⟩
    · rw [slotAt_eq_some.mpr ⟨s, hs, hk, rfl⟩]
      simp [publishedSlot, hne]
    · simp [Slab.slotOffset, hok.start_eq]
  · rintro ⟨p, hp, hoff⟩
    obtain ⟨v, hv, hif⟩ := bind_eq_some_iff.mp hp
    split_ifs at hif with hne
    cases hif
    obtain ⟨s, hs, hk, he⟩ := slotAt_eq_some.mp hv
    obtain ⟨hset, hkey⟩ := Slab.slot_eq_some.mp hk
    refine ⟨s, OrdMap.mem_values.mpr ⟨p.1, hs⟩, List.mem_map.mpr
      ⟨p.2, (Slab.mem_occupied (h.slab _ _ hs).wf).mpr ⟨_, hk, hne⟩, ?_⟩⟩
    obtain ⟨key, offset, size⟩ := x
    simp only [Slab.slotOffset, (h.slab _ _ hs).start_eq] at hoff hkey he ⊢
    rw [hkey, he, hoff]

/-- Regions with the same occupied slots have the same extents. -/
theorem mem_extents_congr (hr : r.WellFormed) (ht : t.WellFormed)
    (h : ∀ p, publishedSlot (r.slotAt p) = publishedSlot (t.slotAt p)) (x : Extent) :
    x ∈ r.extents ↔ x ∈ t.extents := by
  rw [mem_extents hr, mem_extents ht]
  exact exists_congr fun p => by rw [h]

end RegionState

end Certus.ExtentManager
