import Certus.MemoryTier.Component

/-! # Histories of the allocator

Allocations and returns in any order, where what is returned is an allocation that is outstanding.
Besides tiling the pool (`FreeList.Accounts`) the free regions stay in order: each starts on a page,
and none ends where another one starts.

* **`Heap.tiled_and_merged`** — the pool after any history; with everything returned it is one
  region again. -/

namespace Certus.MemoryTier

open OrdMap List Option FreeList

namespace FreeList

/-- Free regions start on pages, and none of them ends where another one starts. -/
structure Tidy (regions : OrdMap ℕ ℕ) : Prop where
  apart : ∀ o s, regions.get? o = some s → regions.get? (o + s) = none
  aligned : ∀ o s, regions.get? o = some s → alignment ∣ o

variable {n o s offset size : ℕ} {regions : OrdMap ℕ ℕ} {live : List Seg} {fl fl' : FreeList}

theorem Tidy.erase (h : Tidy regions) : Tidy (regions.erase offset) := by
  refine ⟨fun o s ho => ?_, fun o s ho => ?_⟩ <;> rw [get?_erase] at ho <;> split_ifs at ho
  · rw [get?_erase, h.apart o s ho, ite_self]
  · exact h.aligned o s ho

/-- A region that touches no other one may be added. -/
theorem Tidy.insert (h : Tidy regions) (hpos : 0 < size) (halign : alignment ∣ offset)
    (hend : regions.get? (offset + size) = none)
    (hstart : ∀ o s, regions.get? o = some s → o + s ≠ offset) :
    Tidy (regions.insert offset size) := by
  refine ⟨fun o s ho => ?_, fun o s ho => ?_⟩ <;> rw [get?_insert] at ho <;> split_ifs at ho with hk
  · cases ho
    rw [hk, get?_insert, if_neg (by omega), hend]
  · rw [get?_insert, if_neg (hstart o s ho), h.apart o s ho]
  · rwa [hk]
  · exact h.aligned o s ho

theorem Free.disjoint {o' s' : ℕ} (h : Free n regions live) (ho : regions.get? o = some s)
    (ho' : regions.get? o' = some s') (hne : o ≠ o') : o + s ≤ o' ∨ o' + s' ≤ o := by
  have hsymm : Std.Symm Seg.Disjoint := ⟨fun _ _ => Seg.Disjoint.symm⟩
  exact (pairwise_append.mp (h.1.pairwise h.2)).1.forall (mem_entries.mpr ho)
    (mem_entries.mpr ho') fun heq => hne (congrArg Prod.fst heq)

section

variable (h : Free n regions live) (ho : regions.get? o = some s)
include h ho

theorem Free.pos : 0 < s :=
  h.2 (o, s) (mem_append_left _ (mem_entries.mpr ho))

/-- The region before the end of a free region is that region. -/
theorem Free.regionBefore_end : regionBefore regions (o + s) = some (o, s) := by
  have hs := h.pos ho
  rw [regionBefore, if_neg (by omega)]
  refine floor?_of_greatest ho (by omega) fun a w ha hle => ?_
  -- a region that starts later would start inside this one
  by_contra hlt
  have hw := h.pos ha
  have hdisj := h.disjoint ho ha (by omega)
  omega

end

theorem coalescePrev_tidy (size : ℕ) (h : Free n regions live) (ht : Tidy regions)
    (halign : alignment ∣ offset) :
    Tidy (coalescePrev regions offset size).2.2 ∧
      alignment ∣ (coalescePrev regions offset size).1 ∧
      ∀ o s, (coalescePrev regions offset size).2.2.get? o = some s →
        o + s ≠ (coalescePrev regions offset size).1 := by
  have hends : ∀ o s, regions.get? o = some s → o + s = offset →
      regionBefore regions offset = some (o, s) := by
    rintro o s ho rfl
    exact h.regionBefore_end ho
  unfold coalescePrev
  split
  next prevOffset prevSize hprev =>
    split_ifs with hadj
    · have hget := get?_of_regionBefore hprev
      refine ⟨ht.erase, ht.aligned _ _ hget, fun o s ho hsum => ?_⟩
      rw [get?_erase] at ho
      split_ifs at ho
      have hnone := ht.apart o s ho
      rw [hsum, hget] at hnone
      cases hnone
    · refine ⟨ht, halign, fun o s ho hsum => hadj ?_⟩
      rw [hends o s ho hsum] at hprev
      cases hprev
      exact hsum
  next hprev =>
    refine ⟨ht, halign, fun o s ho hsum => ?_⟩
    rw [hends o s ho hsum] at hprev
    cases hprev

theorem coalesceNext_tidy (ht : Tidy regions)
    (hstart : ∀ o s, regions.get? o = some s → o + s ≠ offset) :
    Tidy (coalesceNext regions offset size).2 ∧
      (coalesceNext regions offset size).2.get? (offset + (coalesceNext regions offset size).1)
        = none ∧ ∀ o s, (coalesceNext regions offset size).2.get? o = some s → o + s ≠ offset := by
  unfold coalesceNext
  split
  next nextSize hget =>
    refine ⟨ht.erase, ?_, fun o s ho => ?_⟩
    · rw [get?_erase, ← Nat.add_assoc, ht.apart _ _ hget, ite_self]
    · rw [get?_erase] at ho
      split_ifs at ho
      exact hstart o s ho
  next hget => exact ⟨ht, hget, hstart⟩

/-- A return leaves the free regions in order: the region is joined with both neighbours. -/
theorem deallocate_tidy (h : fl.Serves ((offset, nextMultipleOf size alignment) :: live))
    (ht : Tidy fl.freeRegions) (halign : alignment ∣ offset) :
    Tidy (fl.deallocate offset size).freeRegions := by
  have hprev := coalescePrev_free (⟨h.tiles, h.pos⟩ : Free fl.capacity fl.freeRegions _)
  obtain ⟨htidy, hstart, hends⟩ :=
    coalescePrev_tidy (nextMultipleOf size alignment) ⟨h.tiles, h.pos⟩ ht halign
  obtain ⟨htidy', hend, hends'⟩ := coalesceNext_tidy htidy hends
  exact htidy'.insert ((coalesceNext_free hprev).2 _ (mem_append_right _ mem_cons_self)) hstart
    hend hends'

/-- An allocation leaves the free regions in order: the rest of the region that was cut still ends
where no other one starts. -/
theorem allocate_tidy (h : fl.Serves live) (ht : Tidy fl.freeRegions)
    (hall : fl.allocate size = some (offset, fl')) : Tidy fl'.freeRegions ∧ alignment ∣ offset := by
  have hfree : Free fl.capacity fl.freeRegions live := ⟨h.tiles, h.pos⟩
  unfold allocate at hall
  split_ifs at hall with hsize
  obtain ⟨hdvd, hle, -⟩ := @nextMultipleOf_spec size alignment (by decide)
  dsimp only at hall
  split at hall
  · cases hall
  next start regionSize hfind =>
    obtain ⟨rfl, rfl⟩ := Prod.mk.inj (some.inj hall)
    have hget := mem_entries.mp (mem_of_find?_eq_some hfind)
    have halign := ht.aligned _ _ hget
    refine ⟨?_, halign⟩
    dsimp only
    split_ifs with hrem
    · refine ht.erase.insert hrem (Nat.dvd_add halign hdvd) ?_ fun o s ho hsum => ?_
      · rw [get?_erase, show start + nextMultipleOf size alignment
          + (regionSize - nextMultipleOf size alignment) = start + regionSize by omega,
          ht.apart _ _ hget, ite_self]
      · -- a region that ends inside the one that was cut would overlap it
        rw [get?_erase] at ho
        split_ifs at ho with hk
        have hpos := hfree.pos ho
        have hdisj := hfree.disjoint ho hget hk
        omega
    · exact ht.erase

/-- With nothing outstanding the pool is one free region, or none if it has no bytes. -/
theorem regions_of_nothing_live (h : fl.Serves []) (ht : Tidy fl.freeRegions) :
    fl.freeRegions = (new fl.capacity).freeRegions := by
  have hfree : Free fl.capacity fl.freeRegions [] := ⟨h.tiles, h.pos⟩
  have hcover : ∀ x < fl.capacity, ∃ o s, fl.freeRegions.get? o = some s ∧ o ≤ x ∧ x < o + s := by
    intro x hx
    have hone := h.tiles x
    rw [if_pos hx, append_nil] at hone
    obtain ⟨⟨o, s⟩, hmem, hhas⟩ := cover_pos_iff.mp (hone.symm ▸ Nat.one_pos)
    exact ⟨o, s, mem_entries.mp hmem, Seg.has_iff.mp hhas⟩
  have hend : ∀ {o s}, fl.freeRegions.get? o = some s → o + s = fl.capacity := by
    intro o s ho
    have hle : o + s ≤ fl.capacity :=
      h.tiles.end_le (mem_append_left _ (mem_entries.mpr ho)) (hfree.pos ho)
    by_contra hne
    -- the region of the next byte would start where this one ends
    obtain ⟨o', s', ho', hlo, hhi⟩ := hcover (o + s) (by omega)
    by_cases heq : o = o'
    · subst heq
      cases ho.symm.trans ho'
      omega
    · have hdisj := hfree.disjoint ho ho' heq
      have hnone := ht.apart o s ho
      rw [show o + s = o' by omega, ho'] at hnone
      cases hnone
  have hzero : ∀ {o s}, fl.freeRegions.get? o = some s → o = 0 := by
    intro o s ho
    have hs := hfree.pos ho
    have hsum := hend ho
    obtain ⟨o', s', ho', hlo, -⟩ := hcover 0 (by omega)
    by_contra hne
    have hdisj := hfree.disjoint ho ho' (by omega)
    have hsum' := hend ho'
    omega
  refine ext_get? fun k => ?_
  by_cases hcap : 0 < fl.capacity
  · simp only [new, hcap, if_true, get?_insert, get?_empty]
    split_ifs with hk
    · obtain ⟨o, s, ho, -, -⟩ := hcover 0 hcap
      obtain rfl := hzero ho
      rw [hk, ho, ← hend ho, Nat.zero_add]
    · exact eq_none_iff_forall_ne_some.mpr fun t ht => hk (hzero ht)
  · simp only [new, hcap, if_false, get?_empty]
    refine eq_none_iff_forall_ne_some.mpr fun t ht => ?_
    have hs := hfree.pos ht
    have hsum := hend ht
    omega

end FreeList

/-! ## Histories -/

/-- The allocator with the allocations that are outstanding, offset and size asked for. -/
structure Heap where
  freeList : FreeList
  live : List (ℕ × ℕ)

/-- What the memory tier does with its allocator. -/
inductive HeapOp
  | allocate (size : ℕ)
  | deallocate (offset size : ℕ)
  deriving DecidableEq, Repr

namespace Heap

/-- The bytes the outstanding allocations take. -/
def segs (h : Heap) : List Seg := h.live.map fun a => (a.1, nextMultipleOf a.2 alignment)

/-- One operation. Only what is outstanding is returned. -/
def step (h : Heap) : HeapOp → Option Heap
  | .allocate size =>
    match h.freeList.allocate size with
    | none => some h
    | some (offset, freeList) => some ⟨freeList, (offset, size) :: h.live⟩
  | .deallocate offset size =>
    if (offset, size) ∈ h.live then
      some ⟨h.freeList.deallocate offset size, h.live.erase (offset, size)⟩
    else none

/-- A pool nothing was allocated from yet. -/
def new (capacity : ℕ) : Heap := ⟨FreeList.new capacity, []⟩

/-- What every history keeps. -/
structure Sound (capacity : ℕ) (h : Heap) : Prop where
  accounts : h.freeList.Accounts h.segs
  capacity : h.freeList.capacity = capacity
  tidy : FreeList.Tidy h.freeList.freeRegions
  aligned : ∀ a ∈ h.live, alignment ∣ a.1

variable {capacity : ℕ} {h h' : Heap} {op : HeapOp} {ops : List HeapOp}

theorem new_sound (capacity : ℕ) : Sound capacity (new capacity) := by
  refine ⟨FreeList.new_accounts capacity, rfl, ?_, fun a ha => absurd ha not_mem_nil⟩
  show FreeList.Tidy (if 0 < capacity then empty.insert 0 capacity else empty)
  have hempty : FreeList.Tidy empty :=
    ⟨fun _ _ h => (by cases h), fun _ _ h => (by cases h)⟩
  split_ifs with hcap
  · exact hempty.insert hcap (Nat.dvd_zero _) rfl fun _ _ h => by cases h
  · exact hempty

/-- **One operation keeps the pool sound.** -/
theorem step_sound (hs : Sound capacity h) (hstep : h.step op = some h') : Sound capacity h' := by
  have hserves := hs.accounts.serves
  cases op with
  | allocate size =>
    rw [step] at hstep
    split at hstep <;> cases hstep
    · exact hs
    next offset freeList hall =>
      obtain ⟨htidy, halign⟩ := allocate_tidy hserves hs.tidy hall
      exact ⟨FreeList.allocate_accounts hs.accounts hall,
        (allocate_serves hserves hall).2.trans hs.capacity, htidy,
        forall_mem_cons.mpr ⟨halign, hs.aligned⟩⟩
  | deallocate offset size =>
    rw [step] at hstep
    split_ifs at hstep with hmem
    cases hstep
    have haccounts := hs.accounts.perm ((perm_cons_erase hmem).map _).symm
    exact ⟨FreeList.deallocate_accounts haccounts,
      (deallocate_serves haccounts.serves).2.trans hs.capacity,
      deallocate_tidy haccounts.serves hs.tidy (hs.aligned _ hmem),
      fun a ha => hs.aligned a (mem_of_mem_erase ha)⟩

/-- **The pool after any history**: free regions and outstanding allocations tile it, no two free
regions are adjacent, `used` is exact, offsets are on pages, the check for room is exact, and with
everything returned the pool is one region again, unless it has no bytes. -/
theorem tiled_and_merged (hrun : Run step anyStep (new capacity) ops h) :
    (Tiles capacity (h.freeList.freeRegions.entries ++ h.segs) ∧
      (h.freeList.freeRegions.entries ++ h.segs).Pairwise Seg.Disjoint) ∧
    (∀ p ∈ h.freeList.freeRegions.entries, ∀ q ∈ h.freeList.freeRegions.entries, p.1 + p.2 ≠ q.1) ∧
    h.freeList.used = (h.live.map fun a => nextMultipleOf a.2 4096).sum ∧
    (∀ size offset fl, h.freeList.allocate size = some (offset, fl) → 4096 ∣ offset) ∧
    (∀ size, h.freeList.canAllocate size ↔
      ∃ offset fl, h.freeList.allocate size = some (offset, fl)) ∧
    (h.live = [] → h.freeList.freeRegions.entries =
      if capacity = 0 then [] else [(0, capacity)]) := by
  have hs : Sound capacity h :=
    hrun.invariant (new_sound capacity) fun _ _ _ hs _ hstep => step_sound hs hstep
  have hserves := hs.accounts.serves
  have htiles : Tiles capacity (h.freeList.freeRegions.entries ++ h.segs) :=
    hs.capacity ▸ hserves.tiles
  refine ⟨⟨htiles, htiles.pairwise hserves.pos⟩, fun p hp q hq heq => ?_, ?_,
    fun size offset fl hall => (allocate_tidy hserves hs.tidy hall).2,
    fun size => ?_, fun hnil => ?_⟩
  · have hnone := hs.tidy.apart _ _ (mem_entries.mp hp)
    rw [heq, mem_entries.mp hq] at hnone
    cases hnone
  · rw [hs.accounts.used_eq, segs, List.map_map]
    rfl
  · rw [canAllocate_eq_isSome, isSome_iff_exists, Prod.exists]
  · rw [segs, hnil, map_nil] at hserves
    rw [regions_of_nothing_live hserves hs.tidy, hs.capacity]
    by_cases hcap : capacity = 0
    · simp [FreeList.new, hcap, OrdMap.empty]
    · simp [FreeList.new, hcap, Nat.pos_of_ne_zero hcap, OrdMap.insert, OrdMap.empty, insertEntry]

/-- Two allocations from a pool that is no multiple of the page size, returned in the order they
were made. -/
theorem tiled_and_merged_two_returned : ∃ h : Heap,
    Run step anyStep (new 20000) [.allocate 5000, .allocate 1, .deallocate 0 5000,
      .deallocate 8192 1] h ∧ h.freeList.freeRegions.entries = [(0, 20000)] := by
  refine exists_run_and_of_exec (·.live.isEmpty) (by decide +kernel) fun hrun hnil => ?_
  exact (tiled_and_merged hrun).2.2.2.2.2 (List.isEmpty_iff.mp hnil)

/-- A pool without bytes has no free region at all. -/
theorem no_region_of_empty_pool : ¬ ∀ capacity ops h, Run step anyStep (new capacity) ops h →
    h.live = [] → h.freeList.freeRegions.entries = [(0, capacity)] := fun hall =>
  absurd (hall 0 [] _ (Run.nil _) rfl) (by decide)

end Heap

end Certus.MemoryTier
