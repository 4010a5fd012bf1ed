import Certus.ExtentManager.DurableCheckpoint

/-! # The durable checkpoint and the regions

What the regions must keep while a checkpoint is under way. A removed slot stays allocated until the
pending frees of its region are flushed, and the dirty flag says that a region changed; both are
reset after the checkpoint is durable, for the region as it is *then*.

* **`System.recorded_slots_kept`** — without a removal between the serialization of a region and its
  flush, no slot of the durable checkpoint is handed out again.
* **`System.clean_means_durable`** — without a change in between, clean regions are what the durable
  checkpoint records.
* **`System.removed_slot_reused`, `System.update_lost`** — what happens otherwise. -/

namespace Certus.ExtentManager

open List Option RegionState

variable {v : Option (ℕ × UInt64)}

theorem publishedSlot_eq_some {w : ℕ × UInt64} :
    publishedSlot v = some w ↔ v = some w ∧ w.2 ≠ freeKey := by
  unfold publishedSlot
  constructor
  · intro h
    obtain ⟨x, hx, hif⟩ := bind_eq_some_iff.mp h
    split_ifs at hif with hfree
    cases hif
    exact ⟨hx, hfree⟩
  · rintro ⟨rfl, hfree⟩
    simp [hfree]

/-- Replacing the contents of a slot without a key by contents without a key. -/
theorem publishedSlot_idem (v : Option (ℕ × UInt64)) :
    publishedSlot (publishedSlot v) = publishedSlot v := by
  cases hv : publishedSlot v with
  | none => rfl
  | some w => exact publishedSlot_eq_some.mpr ⟨rfl, (publishedSlot_eq_some.mp hv).2⟩

theorem publishedSlot_ite {p q : ℕ × ℕ} {u : ℕ × ℕ → Option (ℕ × UInt64)}
    (hv : publishedSlot v = none) (hu : publishedSlot (u p) = none) :
    publishedSlot (if q = p then v else u q) = publishedSlot (u q) := by
  split_ifs with h
  · rw [hv, h, hu]
  · rfl

namespace Cell

/-- An operation that does not remove an extent. -/
def KeepsExtents (a : Action) (x : Cell) : Prop :=
  match a with
  | .remove offset => ∀ e ∈ x.region.extents, e.offset ≠ offset
  | _ => True

/-- An operation that neither removes nor publishes an extent. -/
def SameExtents (a : Action) (x : Cell) : Prop :=
  match a with
  | .remove offset => ∀ e ∈ x.region.extents, e.offset ≠ offset
  | .publish n => ∀ h, x.handles[n]? = some h → h.key = freeKey
  | _ => True

/-- What the record says is occupied is occupied in the same way, and the same slots wait to be
freed. -/
def Keeps (d : RegionState) (x : Cell) : Prop :=
  (∀ p v, publishedSlot (d.slotAt p) = some v → x.region.slotAt p = some v) ∧
    x.region.pendingFrees = d.pendingFrees

/-- What the record says is occupied is occupied in the same way or waits to be freed. -/
def Holds (d : RegionState) (x : Cell) : Prop :=
  ∀ p v, publishedSlot (d.slotAt p) = some v →
    x.region.slotAt p = some v ∨ p ∈ x.region.pendingFrees

variable {x y : Cell} {d : RegionState} {a : Action}

/-- What `remove_extent` removes is an extent. -/
theorem Inv.extent_of_remove (hx : x.Inv) {offset : ℕ} {r : RegionState}
    (h : x.region.removeExtentByOffset offset = .ok r) :
    ∃ e ∈ x.region.extents, e.offset = offset := by
  obtain ⟨-, -, -, p, size, k, hoff, hslot, hkey, -⟩ :=
    removeExtentByOffset_spec hx.wf h
  refine ⟨⟨k, offset, size⟩, (mem_extents hx.wf).mpr ⟨p, ?_, hoff⟩, rfl⟩
  exact publishedSlot_eq_some.mpr ⟨hslot, hkey⟩

variable {p : ℕ × ℕ} {v : ℕ × UInt64}

/-- A slot that is occupied before a step that removes nothing is occupied after it. -/
theorem Effect.occupied_kept (hx : x.Inv) (h : Effect x y a) (hp : x.region.slotAt p = some v)
    (hkey : v.2 ≠ freeKey) : y.region.slotAt p = some v ∨ p ∈ y.region.pendingFrees := by
  have hne : ∀ q e, x.region.slotAt q = some (e, freeKey) → p ≠ q := by
    rintro q e hq rfl
    rw [hp] at hq
    cases hq
    exact hkey rfl
  cases h with
  | unchanged keeps slots handles => exact .inl ((slots p).trans hp)
  | reserve h keeps free slots offset handles =>
    refine .inl ?_
    rw [slots, if_neg fun hq => ?_, hp]
    rw [hq, free] at hp
    cases hp
  | publish h e taken key wf same pending dirty slots handles
  | release n h taken keeps slots handles =>
    obtain ⟨e', he'⟩ := hx.slot_of_handle taken
    exact .inl (by rw [slots, if_neg (hne _ _ he'), hp])
  | remove q e k found wf same occupied key pending dirty slots handles =>
    by_cases hpq : p = q
    · exact .inr (by rw [pending, hpq]; simp)
    · exact .inl (by rw [slots, if_neg hpq, hp])

theorem Effect.pending_subset (h : Effect x y a) (hp : p ∈ x.region.pendingFrees) :
    p ∈ y.region.pendingFrees := by
  cases h with
  | unchanged keeps | reserve h keeps | release n h taken keeps => rwa [keeps.pending]
  | publish h e taken key wf same pending => rwa [pending]
  | remove q e k found wf same occupied key pending =>
    rw [pending]
    exact mem_append_left _ hp

variable (hx : x.Inv)
include hx

theorem Effect.pending_eq (h : Effect x y a) (hq : KeepsExtents a x) :
    y.region.pendingFrees = x.region.pendingFrees := by
  cases h with
  | unchanged keeps | reserve h keeps | release n h taken keeps => exact keeps.pending
  | publish h e taken key wf same pending => exact pending
  | remove q e k found =>
    obtain ⟨v, hv, hoff⟩ := hx.extent_of_remove found
    exact absurd hoff (hq v hv)

/-- A slot that waits to be freed has no key. -/
theorem Inv.not_pending (hp : x.region.slotAt p = some v) (hkey : v.2 ≠ freeKey) :
    p ∉ x.region.pendingFrees := by
  intro hmem
  obtain ⟨e, he⟩ := hx.slot p (mem_append_right _ hmem)
  rw [hp] at he
  cases he
  exact hkey rfl

theorem Keeps.op (hd : Keeps d x) (h : Effect x y a) (hq : KeepsExtents a x) : Keeps d y := by
  have hpend := h.pending_eq hx hq
  refine ⟨fun p v hv => ?_, hpend.trans hd.2⟩
  have hp := hd.1 p v hv
  have hkey := (publishedSlot_eq_some.mp hv).2
  refine (h.occupied_kept hx hp hkey).resolve_right fun hmem => ?_
  rw [hpend] at hmem
  exact hx.not_pending hp hkey hmem

theorem Holds.op (hd : Holds d x) (h : Effect x y a) : Holds d y := by
  intro p v hv
  rcases hd p v hv with hp | hp
  · exact h.occupied_kept hx hp (publishedSlot_eq_some.mp hv).2
  · exact .inr (h.pending_subset hp)

theorem Keeps.clear (hd : Keeps d x) : Holds d x.clear := by
  intro p v hv
  have hp := hd.1 p v hv
  obtain ⟨-, -, -, -, hslots⟩ := hx.clear_slots
  exact .inl (by
    rw [hslots, if_neg (hx.not_pending hp (publishedSlot_eq_some.mp hv).2), hp])

/-- The same slots are occupied, in the same way. -/
def SamePublished (d : RegionState) (x : Cell) : Prop :=
  ∀ p, publishedSlot (x.region.slotAt p) = publishedSlot (d.slotAt p)

/-- A step changes the occupied slots only if it publishes or removes, and then the region is
dirty. -/
theorem Effect.same_or_dirty (h : Effect x y a) : (y.region.dirty = x.region.dirty ∧
        ∀ p, publishedSlot (y.region.slotAt p) = publishedSlot (x.region.slotAt p)) ∨
      (y.region.dirty = true ∧ ¬ SameExtents a x) := by
  have hfree : ∀ e, publishedSlot (some (e, freeKey)) = none := fun e => by simp [publishedSlot]
  cases h with
  | unchanged keeps slots handles => exact .inl ⟨keeps.dirty, fun p => by rw [slots]⟩
  | reserve h keeps free slots offset handles =>
    refine .inl ⟨keeps.dirty, fun p => ?_⟩
    rw [slots]
    exact publishedSlot_ite (hfree _) (by rw [free]; rfl)
  | publish h e taken key wf same pending dirty slots handles =>
    exact .inr ⟨dirty, fun hsame => key (hsame h taken)⟩
  | release n h taken keeps slots handles =>
    obtain ⟨e', he'⟩ := hx.slot_of_handle taken
    refine .inl ⟨keeps.dirty, fun p => ?_⟩
    rw [slots]
    exact publishedSlot_ite rfl (by rw [he']; exact hfree e')
  | remove q e k found wf same occupied key pending dirty slots handles =>
    obtain ⟨v, hv, hoff⟩ := hx.extent_of_remove found
    exact .inr ⟨dirty, fun hsame => hsame v hv hoff⟩

theorem Inv.clear_published (p : ℕ × ℕ) :
    publishedSlot (x.clear.region.slotAt p) = publishedSlot (x.region.slotAt p) := by
  obtain ⟨-, -, -, -, hslots⟩ := hx.clear_slots
  rw [hslots]
  split_ifs with hp
  · obtain ⟨e, he⟩ := hx.slot p (mem_append_right _ hp)
    rw [he]
    simp [publishedSlot]
  · rfl

end Cell

/-! ## What a checkpoint records -/

/-- The checkpoint records slot `p` of region `i` as occupied by the key `k`. -/
def Records (descs : List (List SlabDescriptor)) (i : ℕ) (p : ℕ × ℕ) (k : UInt64) : Prop :=
  ∃ slabs desc, descs[i]? = some slabs ∧ desc ∈ slabs ∧ desc.startOffset = p.1 ∧
    desc.keys[p.2]? = some k ∧ k ≠ freeKey

/-- The extents that a checkpoint records. -/
def recordedExtents (descs : List (List SlabDescriptor)) : List Extent :=
  descs.flatMap fun slabs => slabs.flatMap SlabDescriptor.extents

/-- A recorded slot is an occupied slot of the region at the time. -/
theorem occupied_of_records {regions : List RegionState} {i : ℕ} {p : ℕ × ℕ} {k : UInt64}
    (hwf : ∀ r ∈ regions, r.WellFormed) (h : Records (regions.map describe) i p k) :
    ∃ r e, regions[i]? = some r ∧ publishedSlot (r.slotAt p) = some (e, k) := by
  obtain ⟨slabs, desc, hi, hmem, hstart, hkey, hne⟩ := h
  rw [getElem?_map] at hi
  obtain ⟨r, hr, rfl⟩ := map_eq_some_iff.mp hi
  obtain ⟨s, hs, rfl⟩ := mem_map.mp hmem
  obtain ⟨start, hget⟩ := OrdMap.mem_values.mp hs
  have hok := (hwf r (mem_of_getElem? hr)).slab start s hget
  have hp : p.1 = start := hstart.symm.trans hok.start_eq
  obtain ⟨j, hj, rfl⟩ := map_eq_some_iff.mp ((getElem?_map ..).symm.trans hkey)
  obtain ⟨hlt, rfl⟩ := List.getElem?_eq_some_iff.mp hj
  rw [length_range] at hlt
  rw [getElem_range] at hne ⊢
  refine ⟨r, s.elementSize, hr, publishedSlot_eq_some.mpr ⟨?_, hne⟩⟩
  exact slotAt_eq_some.mpr ⟨s, hp ▸ hget,
    Slab.slot_eq_some.mpr ⟨⟨hlt, hok.wf.isSet_of_getKey hlt hne⟩, rfl⟩, rfl⟩

theorem recordedExtents_describe (regions : List RegionState) :
    recordedExtents (regions.map describe) = regions.flatMap extents := by
  rw [recordedExtents, flatMap_map]
  refine flatMap_congr fun r _ => ?_
  rw [describe, flatMap_map, extents]
  exact flatMap_congr fun s _ => s.extents_describe

namespace System

variable {c : BlockDeviceClient} {sb : Superblock}

/-! ## Removed slots -/

variable {k : ℕ}

theorem keeps_laws (hpow : sb.sectorSize.toNat = 2 ^ k) (hcount : 0 < sb.regionCount.toNat) :
    Snapshot.Laws (protocol sb) Cell.KeepsExtents (CellOk sb) (RegionOk sb) Cell.Keeps
      Cell.Holds := by
  refine placed_laws hpow hcount (fun x _ => ⟨fun p v hv => (publishedSlot_eq_some.mp hv).1, rfl⟩)
    (fun hx hd heff hq => hd.op hx heff hq) (fun hx hd heff => hd.op hx heff)
    (fun _ hd p v hv => .inl (hd.1 p v hv)) (fun hx hd => hd.clear hx) fun hslots p v hv => ?_
  exact .inl ((hslots p).trans hv)

/-- **Removed slots are not reused before the removal is durable**, if no extent is removed from a
region between its serialization and its flush. In every such run: a slot that the checkpoint on the
device records as occupied is still allocated, so that it belongs to no reservation and the next one
gets another slot; and whatever the finished checkpoint is about to free was removed before the
checkpoint was serialized. -/
theorem recorded_slots_kept {numSectors randomId : UInt64} {params : FormatParams} {m : Manager}
    (hdev : Device c params) (hformat : format c numSectors randomId params = .ok m)
    {d : Disk c.sectorSize} {as : List Action} {s : System c}
    (hrun : Run System.step (fun s a => Fits s a ∧ Quietly Cell.KeepsExtents s a)
      (formatted d m) as s) :
    (∀ sb descs i p k x, recover c s.disk = .ok (sb, descs) → Records descs i p k →
      s.cells[i]? = some x →
        (∃ v, x.region.slotAt p = some v) ∧ (∀ h ∈ x.handles, h.slot ≠ p) ∧
          ∀ key size h, (x.reserve key size).1 = .ok h → h.slot ≠ p) ∧
      ∀ k i r x, s.phase = .clear k → k ≤ i → s.durable.regions[i]? = some r →
        s.cells[i]? = some x → ∀ p ∈ x.region.pendingFrees,
          p ∈ r.pendingFrees ∧ publishedSlot (r.slotAt p) = none := by
  have hl := layout_of_format hformat hdev
  obtain ⟨⟨k, hpow⟩, hcount⟩ := volume_of_format hformat hdev
  obtain ⟨hgood, hd⟩ := durably_of_run hdev hformat (keeps_laws hpow hcount)
    (fun s a h => ⟨h.2, h.1⟩) hrun
  refine ⟨fun sb descs i p k x hrec hrecords hx => ?_, fun k i r x hphase hki hr hx p hp => ?_⟩
  · rcases hd.recover_cases hl hgood.frame with hok | ⟨e, he⟩
    swap
    · rw [he] at hrec
      cases hrec
    rw [hrec] at hok
    cases hok
    obtain ⟨r, e, hr, hpub⟩ := occupied_of_records (fun r hr => by
      obtain ⟨j, hj⟩ := mem_iff_getElem?.mp hr
      exact (hgood.inv.durable j r hj).1) hrecords
    obtain ⟨hinv, -⟩ := hgood.inv.cell i x hx
    have hkey := (publishedSlot_eq_some.mp hpub).2
    -- occupied or pending: allocated, and not the slot of a handle
    have halloc : (∃ v, x.region.slotAt p = some v) ∧ ∀ h ∈ x.handles, h.slot ≠ p := by
      rcases hgood.inv.kept i r x hr hx p _ hpub with hp | hp
      · refine ⟨⟨_, hp⟩, fun h hh heq => ?_⟩
        obtain ⟨hslot, -⟩ := hinv.handle h hh
        rw [heq, hp] at hslot
        cases hslot
        exact hkey rfl
      · obtain ⟨e', he'⟩ := hinv.slot p (mem_append_right _ hp)
        refine ⟨⟨_, he'⟩, fun h hh heq => ?_⟩
        exact (nodup_append.mp hinv.nodup).2.2 h.slot (mem_map_of_mem hh) p hp heq
    refine ⟨halloc.1, halloc.2, fun key size h hres heq => ?_⟩
    obtain ⟨v, hv⟩ := halloc.1
    have hfree := Cell.reserve_free hinv.wf hres
    rw [heq, hv] at hfree
    cases hfree
  · have hview : s.view.phase = .clearing k := by simp only [view, hphase]
    have hrec : s.view.record = s.durable.regions := by
      simp only [Snapshot.State.record, hview]
      rfl
    obtain ⟨hkeep, hpend⟩ := hgood.inv.window i r x (by rw [hview]; exact hki)
      (by rw [hrec]; exact hr) hx
    refine ⟨hpend ▸ hp, ?_⟩
    cases hpub : publishedSlot (r.slotAt p) with
    | none => rfl
    | some v =>
      obtain ⟨hinv, -⟩ := hgood.inv.cell i x hx
      exact absurd hp (hinv.not_pending (hkeep p v hpub) (publishedSlot_eq_some.mp hpub).2)

/-! ## Deciding the conditions -/

theorem ok_of_toOption {ε α : Type*} {v : Except ε α} {a : α} (h : v.toOption = some a) :
    v = .ok a := by
  cases v with
  | error e => cases h
  | ok b =>
    cases h
    rfl

instance (a : Cell.Action) (x : Cell) : Decidable (Cell.KeepsExtents a x) := by
  unfold Cell.KeepsExtents
  split <;> infer_instance

instance (n : ℕ) (x : Cell) : Decidable (∀ h, x.handles[n]? = some h → h.key = freeKey) :=
  match hn : x.handles[n]? with
  | none => isTrue fun h hh => by cases hh
  | some h => decidable_of_iff (h.key = freeKey) ⟨fun hk g hg => by cases hg; exact hk,
      fun hall => hall h rfl⟩

instance (a : Cell.Action) (x : Cell) : Decidable (Cell.SameExtents a x) := by
  unfold Cell.SameExtents
  split <;> infer_instance

instance : (phase : CheckpointPhase) → Decidable (phase = .idle)
  | .idle => isTrue rfl
  | .scan _ | .serialize .. | .writeCopy .. | .writeSuperblock .. | .clear _ =>
    isFalse fun h => by cases h

instance (s : System c) (i : ℕ) : Decidable (s.InWindow i) := by
  dsimp only [InWindow]
  generalize s.phase = phase
  exact match phase with
    | .idle | .scan _ => instDecidableFalse
    | .serialize _ snaps => Nat.decLt i snaps.length
    | .writeCopy _ _ _ _ | .writeSuperblock _ _ => instDecidableTrue
    | .clear k => Nat.decLe k i

instance (quiet : Cell.Action → Cell → Prop) [∀ b x, Decidable (quiet b x)] (s : System c)
    (a : Action) : Decidable (Quietly quiet s a) :=
  match ht : s.target a with
  | none => isTrue fun i b x h => by rw [ht] at h; cases h
  | some (i, b) =>
    match hx : s.cells[i]? with
    | none => isTrue fun i' b' x h hx' => by
        rw [ht] at h
        cases h
        rw [hx] at hx'
        cases hx'
    | some x => decidable_of_iff (s.InWindow i → quiet b x)
        ⟨fun hq i' b' x' h hx' => by
          rw [ht] at h
          cases h
          rw [hx] at hx'
          cases hx'
          exact hq, fun hq => hq i b x ht hx⟩

/-- A published extent is removed between two checkpoints, and then another one is reserved. -/
def removeBetween : List Action :=
  [.reserve 0 4096, .publish 0 0, .checkpoint] ++ replicate 11 .next ++
    [.remove 0, .reserve 2 4096]

/-- The reservation gets the second slot; the first one is recorded on the device. -/
theorem recorded_slot_kept_between :
    ∃ s x, Run System.step (fun s a => Fits s a ∧ Quietly Cell.KeepsExtents s a) smallSystem
        removeBetween s ∧ s.cells[0]? = some x ∧ x.handles.map WriteHandle.slot = [(0, 1)] ∧
      ∀ sb descs, recover smallClient s.disk = .ok (sb, descs) → Records descs 0 (0, 0) 0 →
        ∀ h ∈ x.handles, h.slot ≠ (0, 0) := by
  have hsome : ((checkedExec System.step (fun s a => Fits s a ∧ Quietly Cell.KeepsExtents s a)
      smallSystem removeBetween).bind fun s => s.cells[0]?.map fun x =>
        x.handles.map WriteHandle.slot) = some [(0, 1)] := by decide +kernel
  obtain ⟨s, hs, hmap⟩ := bind_eq_some_iff.mp hsome
  obtain ⟨x, hx, hslots⟩ := map_eq_some_iff.mp hmap
  have hrun := run_of_checkedExec hs
  refine ⟨s, x, hrun, hx, hslots, fun sb descs hrec hrecords => ?_⟩
  exact ((recorded_slots_kept smallDevice format_small hrun).1 sb descs 0 (0, 0) 0 x hrec hrecords
    hx).2.1

/-- An extent is removed after its region was serialized; when the checkpoint is finished, another
one is reserved. -/
def removeDuring : List Action :=
  [.reserve 0 4096, .publish 0 0, .checkpoint, .next, .next, .remove 0] ++
    replicate 9 .next ++ [.reserve 2 4096]

/-- **A removed slot is reused although the checkpoint on the device records it.** -/
theorem removed_slot_reused : ∃ s sb descs x h, Run System.step anyStep smallSystem removeDuring s ∧
      recover smallClient s.disk = .ok (sb, descs) ∧ Records descs 0 (0, 0) 0 ∧
      s.cells[0]? = some x ∧ h ∈ x.handles ∧ h.slot = (0, 0) ∧ h.key = 2 := by
  have hsome : ((exec System.step smallSystem removeDuring).bind fun s =>
      (recover smallClient s.disk).toOption.bind fun v => s.cells[0]?.map fun x =>
        (v.2, x.handles.map fun h => (h.slot, h.key)))
      = some ([[⟨0, 8192, 4096, [0, freeKey]⟩], []], [((0, 0), 2)]) := by decide +kernel
  obtain ⟨s, hs, hsome⟩ := bind_eq_some_iff.mp hsome
  obtain ⟨⟨sb, descs⟩, hrec, hsome⟩ := bind_eq_some_iff.mp hsome
  obtain ⟨x, hx, heq⟩ := map_eq_some_iff.mp hsome
  obtain ⟨hdescs, hhandles⟩ := Prod.mk.inj heq
  have hmem : ((0, 0), (2 : UInt64)) ∈ x.handles.map fun h => (h.slot, h.key) := by
    rw [hhandles]
    exact mem_cons_self
  obtain ⟨h, hh, hslot⟩ := mem_map.mp hmem
  obtain ⟨hslot, hkey⟩ := Prod.mk.inj hslot
  refine ⟨s, sb, descs, x, h, run_of_exec hs, ok_of_toOption hrec, ?_, hx, hh, hslot, hkey⟩
  rw [show descs = _ from hdescs]
  exact ⟨_, _, rfl, mem_cons_self, rfl, rfl, by decide⟩

/-! ## Clean regions -/

theorem same_laws (hpow : sb.sectorSize.toNat = 2 ^ k) (hcount : 0 < sb.regionCount.toNat) :
    Snapshot.Laws (protocol sb) Cell.SameExtents (CellOk sb) (RegionOk sb) Cell.SamePublished
      (fun d x => x.region.dirty = false → Cell.SamePublished d x) := by
  refine placed_laws hpow hcount (fun x _ p => rfl) (fun {a d x y} hx hd heff hq p => ?_)
    (fun {a d x y} hx hd heff hclean p => ?_) (fun _ hd _ => hd)
    (fun hx hd _ p => (hx.clear_published p).trans (hd p)) fun {d x} hslots _ p => ?_
  · rcases heff.same_or_dirty hx with ⟨-, hsame⟩ | ⟨-, hno⟩
    · exact (hsame p).trans (hd p)
    · exact absurd hq hno
  · rcases heff.same_or_dirty hx with ⟨hdirty, hsame⟩ | ⟨hdirty, -⟩
    · exact (hsame p).trans (hd (hdirty.symm.trans hclean) p)
    · rw [hclean] at hdirty
      cases hdirty
  · rw [hslots, publishedSlot_idem]

/-- Two lists whose entries yield the same members, place by place. -/
theorem mem_flatMap_congr {α β γ : Type*} {as : List α} {bs : List β} {f : α → List γ}
    {g : β → List γ} (hlen : as.length = bs.length) {e : γ}
    (h : ∀ (i : ℕ) a b, as[i]? = some a → bs[i]? = some b → (e ∈ f a ↔ e ∈ g b)) :
    e ∈ as.flatMap f ↔ e ∈ bs.flatMap g := by
  rw [mem_flatMap, mem_flatMap]
  constructor
  · rintro ⟨a, ha, he⟩
    obtain ⟨i, hi⟩ := mem_iff_getElem?.mp ha
    have hlt : i < bs.length := hlen ▸ (List.getElem?_eq_some_iff.mp hi).1
    exact ⟨_, getElem_mem hlt, (h i a _ hi (getElem?_eq_getElem hlt)).mp he⟩
  · rintro ⟨b, hb, he⟩
    obtain ⟨i, hi⟩ := mem_iff_getElem?.mp hb
    have hlt : i < as.length := hlen ▸ (List.getElem?_eq_some_iff.mp hi).1
    exact ⟨_, getElem_mem hlt, (h i _ b (getElem?_eq_getElem hlt) hi).mpr he⟩

/-- Regions with the same occupied slots as the recorded ones have the same extents. -/
theorem Good.mem_getExtents {R Q : RegionState → Cell → Prop} {s : System c} (hgood : Good sb R Q s)
    (hsame : ∀ (i : ℕ) r x, s.durable.regions[i]? = some r → s.cells[i]? = some x →
      Cell.SamePublished r x) (e : Extent) :
    e ∈ recordedExtents (s.durable.regions.map describe) ↔ e ∈ s.getExtents := by
  rw [recordedExtents_describe, getExtents]
  refine mem_flatMap_congr hgood.inv.length_eq fun i r x hr hx => ?_
  exact mem_extents_congr (hgood.inv.durable i r hr).1 (hgood.inv.cell i x hx).1.wf
    (fun p => (hsame i r x hr hx p).symm) e

/-- **Clean regions are durable**, if no extent is published in or removed from a region between its
serialization and its clearing. In every such run, whenever no region is dirty, the last checkpoint
whose superblock was written records exactly the extents that `get_extents` returns; and that is the
checkpoint which `recover` reads back. -/
theorem clean_means_durable {numSectors randomId : UInt64} {params : FormatParams} {m : Manager}
    (hdev : Device c params) (hformat : format c numSectors randomId params = .ok m)
    {d : Disk c.sectorSize} {as : List Action} {s : System c}
    (hrun : Run System.step (fun s a => Fits s a ∧ Quietly Cell.SameExtents s a)
      (formatted d m) as s) (hclean : ∀ x ∈ s.cells, x.region.dirty = false) :
    (∀ e, e ∈ recordedExtents (s.durable.regions.map describe) ↔
        e ∈ s.getExtents) ∧
      ∀ sb descs, recover c s.disk = .ok (sb, descs) →
        descs = s.durable.regions.map describe := by
  have hl := layout_of_format hformat hdev
  obtain ⟨⟨k, hpow⟩, hcount⟩ := volume_of_format hformat hdev
  obtain ⟨hgood, hd⟩ := durably_of_run hdev hformat (same_laws hpow hcount)
    (fun s a h => ⟨h.2, h.1⟩) hrun
  refine ⟨hgood.mem_getExtents fun i r x hr hx => hgood.inv.kept i r x hr hx
    (hclean x (mem_of_getElem? hx)), fun sb descs hrec => ?_⟩
  have hok := (hd.recover_cases hl hgood.frame).resolve_right fun ⟨e', he'⟩ => by
    rw [hrec] at he'
    cases he'
  rw [hrec] at hok
  cases hok
  rfl

/-- One extent is published and a checkpoint taken; then another extent is reserved and the
reservation dropped, which changes nothing. -/
def settled : List Action :=
  [.reserve 0 4096, .publish 0 0, .checkpoint] ++ replicate 11 .next ++
    [.reserve 2 4096, .abort 0 0]

/-- The checkpoint on the device records the one extent. -/
theorem settled_is_durable :
    ∃ s, Run System.step (fun s a => Fits s a ∧ Quietly Cell.SameExtents s a) smallSystem settled s ∧
      (∀ x ∈ s.cells, x.region.dirty = false) ∧ s.getExtents = [⟨0, 0, 4096⟩] ∧
      ∀ e, e ∈ recordedExtents (s.durable.regions.map describe) ↔
        e ∈ s.getExtents := by
  have hsome : ((checkedExec System.step (fun s a => Fits s a ∧ Quietly Cell.SameExtents s a)
      smallSystem settled).map fun s => (s.cells.all fun x => !x.region.dirty, s.getExtents))
      = some (true, [⟨0, 0, 4096⟩]) := by decide +kernel
  obtain ⟨s, hs, heq⟩ := map_eq_some_iff.mp hsome
  obtain ⟨hall, hextents⟩ := Prod.mk.inj heq
  have hclean : ∀ x ∈ s.cells, x.region.dirty = false := by
    intro x hx
    exact Bool.not_eq_true' _ |>.mp (all_eq_true.mp hall x hx)
  have hrun := run_of_checkedExec hs
  exact ⟨s, hrun, hclean, hextents, (clean_means_durable smallDevice format_small hrun hclean).1⟩

/-- An extent is published in a region that the running checkpoint has serialized. -/
def publishDuring : List Action :=
  [.reserve 0 4096, .publish 0 0, .reserve 2 4096, .checkpoint, .next, .next, .publish 0 0] ++
    replicate 9 .next

/-- **An update is lost.** No checkpoint is running and no region is dirty, but the checkpoint on the
device lacks one of the two extents. -/
theorem update_lost : ∃ s sb descs, Run System.step anyStep smallSystem publishDuring s ∧
      s.phase = .idle ∧ (∀ x ∈ s.cells, x.region.dirty = false) ∧
      recover smallClient s.disk = .ok (sb, descs) ∧
      (⟨2, 4096, 4096⟩ : Extent) ∈ s.getExtents ∧
      (⟨2, 4096, 4096⟩ : Extent) ∉ recordedExtents descs := by
  have hsome : ((exec System.step smallSystem publishDuring).bind fun s =>
      (recover smallClient s.disk).toOption.map fun v =>
        (decide (s.phase = .idle), s.cells.all fun x => !x.region.dirty, s.getExtents, v.2))
      = some (true, true, [⟨0, 0, 4096⟩, ⟨2, 4096, 4096⟩],
        [[⟨0, 8192, 4096, [0, freeKey]⟩], []]) := by decide +kernel
  obtain ⟨s, hs, hsome⟩ := bind_eq_some_iff.mp hsome
  obtain ⟨⟨sb, descs⟩, hrec, heq⟩ := map_eq_some_iff.mp hsome
  obtain ⟨hidle, hrest⟩ := Prod.mk.inj heq
  obtain ⟨hall, hrest⟩ := Prod.mk.inj hrest
  obtain ⟨hextents, hdescs⟩ := Prod.mk.inj hrest
  refine ⟨s, sb, descs, run_of_exec hs, of_decide_eq_true hidle, fun x hx => ?_,
    ok_of_toOption hrec, ?_, ?_⟩
  · exact Bool.not_eq_true' _ |>.mp (all_eq_true.mp hall x hx)
  · rw [hextents]
    exact mem_cons_of_mem _ mem_cons_self
  · rw [show descs = _ from hdescs]
    decide +kernel

end System

end Certus.ExtentManager
