import Certus.ExtentManager.Buddy

/-! # The buddy allocator partitions its region

The free blocks and the blocks handed out are, at all times, a tiling of the whole sectors of the
region by dyadic blocks. Each loop of the allocator is one fact about such tilings: `fill` builds
one, `splitDown` and `markSplit` cut a block, `mergeUp` joins buddies.

* **`new_wellFormed`, `alloc_spec`, `free_spec`** — for every sector size.
* **`markBlock_spec`** — for a power-of-two sector size, and as long as no free block is listed
  beside its buddy (`Coalesced`), which holds for a fresh allocator and is kept by marking. -/

namespace Certus.ExtentManager

open List Option Block
open Nat (log2 lt_log2_self log2_lt)

namespace BuddyAllocator

/-- Free blocks and the blocks `out` handed out tile the region's whole sectors. -/
structure WellFormed (b : BuddyAllocator) (out : List Block) : Prop where
  sector_pos : 0 < b.sectorSize
  maxOrder_eq : b.maxOrder = log2 (b.totalUsableSize / b.sectorSize)
  length_eq : b.freeLists.length = b.maxOrder + 1
  tiling : DyadicTiling b.sectorSize (b.totalUsableSize / b.sectorSize * b.sectorSize)
    (b.freeBlocks ++ out)

/-- Only the free lists differ. -/
structure SameRange (b c : BuddyAllocator) : Prop where
  base : c.baseOffset = b.baseOffset
  total : c.totalUsableSize = b.totalUsableSize
  sector : c.sectorSize = b.sectorSize
  maxOrder : c.maxOrder = b.maxOrder

@[simp] theorem length_pushFree (fl : List (List ℕ)) (o x : ℕ) :
    (pushFree fl o x).length = fl.length :=
  length_modify ..

variable {b : BuddyAllocator} {out rest : List Block} {fl : List (List ℕ)}

theorem WellFormed.order_le (h : b.WellFormed out) {x : Block} (hx : x ∈ b.freeBlocks ++ out) :
    x.1 ≤ b.maxOrder := by
  have hend := h.tiling.end_le h.sector_pos hx
  have hle : span b.sectorSize x.1 ≤ b.totalUsableSize / b.sectorSize * b.sectorSize := by omega
  have hpow : 2 ^ x.1 ≤ b.totalUsableSize / b.sectorSize :=
    Nat.le_of_mul_le_mul_right hle h.sector_pos
  have hne : b.totalUsableSize / b.sectorSize ≠ 0 := by
    have := Nat.two_pow_pos x.1
    omega
  rw [h.maxOrder_eq]
  exact (Nat.le_log2 hne).mpr hpow

/-! ## A fresh allocator -/

theorem length_fill (u fuel : ℕ) (fl : List (List ℕ)) (offset remaining : ℕ) :
    (fill u fuel fl offset remaining).length = fl.length := by
  induction fuel generalizing fl offset remaining with
  | zero => rfl
  | succ fuel ih =>
    rw [fill]
    split_ifs with h
    · rfl
    · rw [ih, length_pushFree]

/-- The loop of `new`. The blocks so far tile the first `offset` sectors, `offset` is a multiple of
the next block, and one iteration per bit of `remaining` finishes the job. -/
theorem fill_tiling {u fuel : ℕ} {offset remaining : ℕ} (hfuel : remaining < 2 ^ fuel)
    (hlen : fuel ≤ fl.length) (hal : ∃ k, remaining < 2 ^ k ∧ 2 ^ k ∣ offset)
    (h : DyadicTiling u (offset * u) (blocksFrom 0 fl)) :
    DyadicTiling u ((offset + remaining) * u) (blocksFrom 0 (fill u fuel fl offset remaining)) := by
  induction fuel generalizing fl offset remaining with
  | zero =>
    have : remaining = 0 := by simpa using hfuel
    subst this
    exact h
  | succ fuel ih =>
    rw [fill]
    split_ifs with hrem
    · subst hrem
      exact h
    -- the block of order `log2 remaining` starts aligned and leaves less than its own size
    obtain ⟨k, hk, hdvd⟩ := hal
    have hlow := Nat.log2_self_le hrem
    have hhigh : remaining < 2 ^ (log2 remaining + 1) := lt_log2_self
    have hord : log2 remaining < k := (log2_lt hrem).mpr hk
    have hordf : log2 remaining ≤ fuel := Nat.le_of_lt_succ ((log2_lt hrem).mpr hfuel)
    have hpd : 2 ^ log2 remaining ∣ offset :=
      Nat.dvd_trans (Nat.pow_dvd_pow 2 hord.le) hdvd
    have hsmall : remaining - 2 ^ log2 remaining < 2 ^ log2 remaining := by
      omega
    have hext := h.extend (o := log2 remaining) (Nat.mul_dvd_mul_right hpd u)
    have hpush := hext.perm (blocksFrom_pushFree (show log2 remaining < fl.length by omega)
      (offset * u))
    rw [span, ← add_mul] at hpush
    have hgoal := ih (lt_of_lt_of_le hsmall (Nat.pow_le_pow_right (by decide) hordf))
      (by rw [length_pushFree]; omega)
      ⟨log2 remaining, hsmall, Nat.dvd_add hpd (Nat.dvd_refl _)⟩ hpush
    rwa [show offset + 2 ^ log2 remaining + (remaining - 2 ^ log2 remaining)
      = offset + remaining by omega] at hgoal

theorem blocksFrom_replicate (k n : ℕ) : blocksFrom k (List.replicate n []) = [] := by
  induction n generalizing k with
  | zero => rfl
  | succ n ih => rw [replicate_succ, blocksFrom, ih]; rfl

theorem new_wellFormed {base total u : ℕ} (hu : 0 < u) : (new base total u).WellFormed [] where
  sector_pos := hu
  maxOrder_eq := rfl
  length_eq := by
    rw [new]
    simp only [length_fill, length_replicate]
  tiling := by
    have hempty : DyadicTiling u (0 * u)
        (blocksFrom 0 (List.replicate (log2 (total / u) + 1) [])) := by
      rw [blocksFrom_replicate]
      refine ⟨fun b hb => absurd hb not_mem_nil, fun x => ?_⟩
      simp
    have h := fill_tiling (show total / u < 2 ^ (log2 (total / u) + 1) from lt_log2_self)
      (by rw [length_replicate])
      ⟨log2 (total / u) + 1, lt_log2_self, Nat.dvd_zero _⟩ hempty
    rw [zero_add] at h
    rw [append_nil]
    exact h

/-! ## Allocation -/

/-- The splitting loop hands the lowest part of the block on and frees the rest. -/
theorem splitDown_tiling {u n x needed : ℕ} (m : ℕ) (hlen : needed + m ≤ fl.length)
    (h : DyadicTiling u n ((needed + m, x) :: (blocksFrom 0 fl ++ rest))) :
    (splitDown u x needed m fl).length = fl.length ∧
      DyadicTiling u n ((needed, x) :: (blocksFrom 0 (splitDown u x needed m fl) ++ rest)) := by
  induction m generalizing fl with
  | zero => exact ⟨rfl, h⟩
  | succ m ih =>
    have hpush := blocksFrom_pushFree (show needed + m < fl.length by omega)
      (x + span u (needed + m))
    have hsplit := h.split.perm (((hpush.append_right rest).cons (needed + m, x)))
    obtain ⟨hlen', htil⟩ := ih (by rw [length_pushFree]; omega) hsplit
    exact ⟨hlen'.trans (length_pushFree ..), htil⟩

/-- An allocated block leaves the free blocks. -/
theorem alloc_spec {b b' : BuddyAllocator} {size off : ℕ} (hb : b.WellFormed out)
    (h : b.alloc size = some (off, b')) :
    b.SameRange b' ∧ ∃ x, off = b.baseOffset + x ∧
      b'.WellFormed ((orderFor ((size + b.sectorSize - 1) / b.sectorSize), x) :: out) := by
  unfold alloc at h
  simp only [bind_eq_bind, bind_eq_some_iff, Option.some.injEq] at h
  obtain ⟨found, hfind, x, hlast, heq⟩ := h
  have hmem := mem_of_find?_eq_some hfind
  rw [mem_range'_1] at hmem
  cases heq
  refine ⟨⟨rfl, rfl, rfl, rfl⟩, x, rfl, ?_⟩
  set needed := orderFor ((size + b.sectorSize - 1) / b.sectorSize) with hneeded
  have hlt : found < b.freeLists.length := by
    rw [hb.length_eq]
    omega
  -- popping the last offset takes its block out of the free blocks
  have hget : b.freeLists[found]? = some (b.freeLists.getD found []) := by
    rw [getElem?_eq_getElem hlt, getD_eq_getElem _ _ hlt]
  have hpop : (b.freeLists.getD found []).Perm (x :: (b.freeLists.getD found []).dropLast) := by
    have := dropLast_append_getLast? x hlast
    exact (List.Perm.of_eq this.symm).trans (perm_append_singleton _ _)
  have hperm := blocksFrom_modify List.dropLast [] [x] hget hpop 0
  rw [zero_add] at hperm
  have htil : DyadicTiling b.sectorSize (b.totalUsableSize / b.sectorSize * b.sectorSize)
      ((needed + (found - needed), x) ::
        (blocksFrom 0 (b.freeLists.modify found List.dropLast) ++ out)) := by
    rw [Nat.add_sub_cancel' hmem.1]
    exact hb.tiling.perm (hperm.append_right out).symm
  obtain ⟨hlen', hsplit⟩ := splitDown_tiling (found - needed) (by rw [length_modify]; omega) htil
  refine ⟨hb.sector_pos, hb.maxOrder_eq, ?_, hsplit.perm perm_middle⟩
  rw [hlen', length_modify]
  exact hb.length_eq

/-! ## Freeing -/

/-- The merging loop joins a returned block with free buddies; the result is not larger than the
largest order. -/
theorem mergeUp_tiling {u n : ℕ} (total : ℕ) (hu : 0 < u) (fuel : ℕ) {order current : ℕ}
    (h : DyadicTiling u n ((order, current) :: (blocksFrom 0 fl ++ rest))) :
    let r := mergeUp total u fuel fl order current
    r.1.length = fl.length ∧ r.2.1 ≤ order + fuel ∧
      DyadicTiling u n (r.2 :: (blocksFrom 0 r.1 ++ rest)) := by
  induction fuel generalizing fl order current with
  | zero => exact ⟨rfl, le_refl _, h⟩
  | succ fuel ih =>
    rw [mergeUp]
    dsimp only
    split_ifs with hover
    · exact ⟨rfl, Nat.le_add_right _ _, h⟩
    cases hpos : positionFree fl order (current ^^^ 2 ^ order * u) with
    | none => exact ⟨rfl, Nat.le_add_right _ _, h⟩
    | some pos =>
      dsimp only
      have hperm := blocksFrom_swapRemove hpos
      set fl' := fl.modify order (fun l => swapRemove l pos) with hfl'
      have htil := h.perm (((hperm.append_right rest).cons (order, current)).symm)
      obtain ⟨hlen, hord, hres⟩ := ih (htil.join_xor hu rfl)
      exact ⟨hlen.trans (length_modify ..), hord.trans (by omega), hres⟩

theorem free_spec {size x : ℕ} (hb : b.WellFormed ((orderFor (size / b.sectorSize), x) :: out)) :
    b.SameRange (b.free (b.baseOffset + x) size) ∧
      (b.free (b.baseOffset + x) size).WellFormed out := by
  set order := orderFor (size / b.sectorSize) with horder
  have hle : order ≤ b.maxOrder := hb.order_le (x := (order, x)) (by simp)
  have hmerge := mergeUp_tiling b.totalUsableSize hb.sector_pos (b.maxOrder - order)
    (hb.tiling.perm perm_middle.symm)
  unfold free
  rw [Nat.add_sub_cancel_left, ← horder]
  dsimp only
  generalize mergeUp b.totalUsableSize b.sectorSize (b.maxOrder - order) b.freeLists order x = r
    at hmerge
  obtain ⟨fl, o, c⟩ := r
  obtain ⟨hlen, hord, htil⟩ := hmerge
  dsimp only at hlen hord htil ⊢
  have ho : o < fl.length := by
    rw [hlen, hb.length_eq]
    omega
  refine ⟨⟨rfl, rfl, rfl, rfl⟩, hb.sector_pos, hb.maxOrder_eq, ?_, ?_⟩
  · rw [length_pushFree, hlen]
    exact hb.length_eq
  · exact htil.perm ((blocksFrom_pushFree ho c).append_right out)

/-! ## Marking blocks of a recovered checkpoint -/

/-- A fresh allocator has at most one free block of each order. -/
theorem fill_unique {u fuel : ℕ} {fl : List (List ℕ)} {offset remaining : ℕ}
    (hfuel : remaining < 2 ^ fuel) (hlen : fuel ≤ fl.length)
    (hbig : ∀ b ∈ blocksFrom 0 fl, remaining < 2 ^ b.1)
    (h : ∀ b ∈ blocksFrom 0 fl, ∀ c ∈ blocksFrom 0 fl, b.1 = c.1 → b = c) :
    ∀ b ∈ blocksFrom 0 (fill u fuel fl offset remaining),
      ∀ c ∈ blocksFrom 0 (fill u fuel fl offset remaining), b.1 = c.1 → b = c := by
  induction fuel generalizing fl offset remaining with
  | zero => exact h
  | succ fuel ih =>
    rw [fill]
    split_ifs with hrem
    · exact h
    have hlow := Nat.log2_self_le hrem
    have hhigh : remaining < 2 ^ (log2 remaining + 1) := lt_log2_self
    have hordf : log2 remaining ≤ fuel := Nat.le_of_lt_succ ((log2_lt hrem).mpr hfuel)
    have hsmall : remaining - 2 ^ log2 remaining < 2 ^ log2 remaining := by
      omega
    have hmem : ∀ b, b ∈ blocksFrom 0 (pushFree fl (log2 remaining) (offset * u)) ↔
        b = (log2 remaining, offset * u) ∨ b ∈ blocksFrom 0 fl := fun b => by
      rw [(blocksFrom_pushFree (by omega) _).mem_iff, mem_cons]
    -- the blocks already there have a larger order than the new one
    have hne : ∀ b ∈ blocksFrom 0 fl, b.1 ≠ log2 remaining := fun b hb heq => by
      have := hbig b hb
      rw [heq] at this
      omega
    refine ih (lt_of_lt_of_le hsmall (Nat.pow_le_pow_right (by decide) hordf))
      (by rw [length_pushFree]; omega) (fun b hb => ?_) fun b hb c hc hbc => ?_
    · rcases (hmem b).mp hb with rfl | hb
      · exact hsmall
      · exact lt_of_le_of_lt (Nat.sub_le _ _) (hbig b hb)
    · rcases (hmem b).mp hb with rfl | hb <;> rcases (hmem c).mp hc with rfl | hc
      · rfl
      · exact absurd hbc.symm (hne c hc)
      · exact absurd hbc (hne b hb)
      · exact h b hb c hc hbc

/-- In a fresh allocator no free block is listed beside its buddy. -/
theorem new_coalesced {base total u : ℕ} (hu : 0 < u) :
    Coalesced u (new base total u).freeBlocks := by
  have hnil := blocksFrom_replicate 0 (log2 (total / u) + 1)
  have huniq := @fill_unique u (log2 (total / u) + 1)
    (List.replicate (log2 (total / u) + 1) []) 0 (total / u)
    lt_log2_self (by rw [length_replicate])
    (by rw [hnil]; exact fun b hb => absurd hb not_mem_nil)
    (by rw [hnil]; exact fun b hb => absurd hb not_mem_nil)
  intro o x hx _ hy
  have heq := huniq (o, x) hx (o, x + span u o) hy rfl
  have := span_pos hu o
  rw [Prod.mk.injEq] at heq
  omega

/-- Masking with the complement of a power of two minus one rounds down. -/
theorem alignDown_two_pow {x m : ℕ} (hx : x < 2 ^ 64) (hm : m ≤ 64) :
    alignDown x (2 ^ m) = 2 ^ m * (x / 2 ^ m) := by
  have hmask : 2 ^ 64 - 1 - (2 ^ m - 1) = 2 ^ m * (2 ^ (64 - m) - 1) := by
    rw [Nat.mul_sub_one, ← Nat.pow_add, Nat.add_sub_cancel' hm]
    have := Nat.two_pow_pos m
    omega
  rw [alignDown, hmask]
  apply Nat.eq_of_testBit_eq
  intro i
  rw [Nat.testBit_and, Nat.testBit_two_pow_mul, Nat.testBit_two_pow_mul,
    Nat.testBit_two_pow_sub_one, Nat.testBit_div_two_pow]
  by_cases hi : m ≤ i
  · rw [Nat.sub_add_cancel hi]
    by_cases hi64 : i < 64
    · simp [hi]
      omega
    · have hbit : x.testBit i = false :=
        Nat.testBit_lt_two_pow (lt_of_lt_of_le hx (Nat.pow_le_pow_right (by decide) (by omega)))
      simp [hbit]
  · simp [hi]

/-- The splitting loop of `mark_allocated`: the block at `offset` is handed out, and what is freed
on the way are blocks whose buddy holds it. -/
theorem markSplit_tiling {u n offset target : ℕ} (hu : 0 < u) (hoff : span u target ∣ offset)
    (m : ℕ) {start : ℕ} (hlen : target + m ≤ fl.length)
    (hstart : start ≤ offset ∧ offset < start + span u (target + m))
    (h : DyadicTiling u n ((target + m, start) :: (blocksFrom 0 fl ++ rest))) :
    (markSplit u offset target m fl start).length = fl.length ∧
      DyadicTiling u n
        ((target, offset) :: (blocksFrom 0 (markSplit u offset target m fl start) ++ rest)) ∧
      ∀ b ∈ blocksFrom 0 (markSplit u offset target m fl start),
        b ∈ blocksFrom 0 fl ∨ BuddyHolds u (seg u (target, offset)) b := by
  -- an aligned block of order at least `target` around `offset` contains the whole target
  have hin : ∀ {o s : ℕ}, target ≤ o → span u o ∣ s → s ≤ offset → offset < s + span u o →
      (seg u (target, offset)).Within (seg u (o, s)) := by
    intro o s ho hs hle hlt
    exact within_of_meet (x := offset) hoff hs ho
      (Seg.has_iff.mpr ⟨le_refl _, Nat.lt_add_of_pos_right (span_pos hu _)⟩)
      (Seg.has_iff.mpr ⟨hle, hlt⟩)
  induction m generalizing fl start with
  | zero =>
    have hal : span u target ∣ start := h.aligned _ mem_cons_self
    have heq : (target, offset) = (target, start) :=
      eq_of_within (u := u) rfl (hin (le_refl _) hal hstart.1 hstart.2)
    rw [Prod.mk.injEq] at heq
    rw [markSplit, heq.2]
    exact ⟨rfl, h, fun b hb => .inl hb⟩
  | succ m ih =>
    rw [← add_assoc] at h hlen hstart
    have hsucc := span_succ u (target + m)
    have hal : span u (target + m + 1) ∣ start := h.aligned _ mem_cons_self
    obtain ⟨hal₁, hal₂⟩ := aligned_halves hal
    have hpush := blocksFrom_pushFree (show target + m < fl.length by omega)
    have hmem : ∀ x b, b ∈ blocksFrom 0 (pushFree fl (target + m) x) →
        b = (target + m, x) ∨ b ∈ blocksFrom 0 fl := fun x b hb => by
      rwa [(hpush x).mem_iff, mem_cons] at hb
    rw [markSplit]
    split_ifs with hside
    · -- the target lies in the upper half, the lower half is freed
      have hside' : start + span u (target + m) ≤ offset := hside
      have htil := (h.split.perm (List.Perm.swap _ _ _)).perm
        (((hpush start).append_right rest).cons _)
      obtain ⟨hlen', hres, hsub⟩ := ih (by rw [length_pushFree]; omega) ⟨hside', by omega⟩ htil
      refine ⟨hlen'.trans (length_pushFree ..), hres, fun b hb => ?_⟩
      have hw := hin (Nat.le_add_right target m) hal₂ hside' (by omega)
      rcases hsub b hb with hb | hb
      · rcases hmem _ b hb with rfl | hb
        · exact .inr ⟨start, hal, .inl ⟨rfl, hw⟩⟩
        · exact .inl hb
      · exact .inr hb
    · have hside' : ¬ start + span u (target + m) ≤ offset := hside
      have htil := h.split.perm (((hpush (start + span u (target + m))).append_right rest).cons _)
      obtain ⟨hlen', hres, hsub⟩ := ih (by rw [length_pushFree]; omega) ⟨hstart.1, by omega⟩ htil
      refine ⟨hlen'.trans (length_pushFree ..), hres, fun b hb => ?_⟩
      have hw := hin (Nat.le_add_right target m) hal₁ hstart.1 (by omega)
      rcases hsub b hb with hb | hb
      · rcases hmem _ b hb with rfl | hb
        · exact .inr ⟨start, hal, .inr ⟨rfl, hw⟩⟩
        · exact .inl hb
      · exact .inr hb

section Marking

variable {b : BuddyAllocator} {out : List Block} {x target k : ℕ}

variable (hb : b.WellFormed out)
include hb

/-- A block in range that overlaps no block handed out is covered by free blocks. -/
theorem WellFormed.covered_of_disjoint
    (hend : x + span b.sectorSize target ≤ b.totalUsableSize / b.sectorSize * b.sectorSize)
    (hout : ∀ c ∈ out, (seg b.sectorSize (target, x)).Disjoint (c.seg b.sectorSize)) :
    ∀ y, x ≤ y → y < x + span b.sectorSize target →
      ∃ c ∈ b.freeBlocks, (c.seg b.sectorSize).has y = true := by
  intro y hy hy'
  have hcov := hb.tiling.tiles y
  rw [if_pos (lt_of_lt_of_le hy' hend)] at hcov
  have hpos : 0 < cover ((b.freeBlocks ++ out).map (seg b.sectorSize)) y := by
    rw [hcov]
    exact one_pos
  obtain ⟨s, hs, hsy⟩ := cover_pos_iff.mp hpos
  obtain ⟨c, hc, rfl⟩ := List.mem_map.mp hs
  rcases mem_append.mp hc with hc | hc
  · exact ⟨c, hc, hsy⟩
  · have hd := hout c hc
    simp only [Seg.Disjoint, seg_fst, seg_snd, Seg.has_iff] at hd hsy
    omega

section

variable (hsec : b.sectorSize = 2 ^ k) (htotal : b.totalUsableSize < 2 ^ 64)
  (hx : x < b.totalUsableSize / b.sectorSize * b.sectorSize)
include hsec htotal hx

/-- In a power-of-two system, the aligned start that `mark_allocated` looks for at an order is the
start of the only aligned block of that order around the offset. -/
theorem WellFormed.alignDown_eq {o : ℕ} (ho : o ≤ b.maxOrder) :
    alignDown x (2 ^ o * b.sectorSize) = span b.sectorSize o * (x / span b.sectorSize o) := by
  have hne : b.totalUsableSize / b.sectorSize ≠ 0 := by
    rintro h0
    rw [h0, zero_mul] at hx
    exact absurd hx (Nat.not_lt_zero _)
  have hpow : 2 ^ o ≤ b.totalUsableSize / b.sectorSize :=
    (Nat.le_log2 hne).mp (hb.maxOrder_eq ▸ ho)
  have hblock : span b.sectorSize o ≤ b.totalUsableSize :=
    le_trans (Nat.mul_le_mul_right _ hpow) (Nat.div_mul_le_self _ _)
  have hspan : span b.sectorSize o = 2 ^ (o + k) := by rw [span, hsec, Nat.pow_add]
  have hle : o + k ≤ 64 := by
    by_contra hgt
    have := Nat.pow_lt_pow_right (a := 2) (by decide) (Nat.lt_of_not_le hgt)
    omega
  have hin : x < b.totalUsableSize := lt_of_lt_of_le hx (Nat.div_mul_le_self _ _)
  have h := alignDown_two_pow (x := x) (m := o + k) (by omega) hle
  rw [← hspan] at h
  exact h

/-- The search finds a free block of an order above `target` that contains the offset. -/
theorem findContaining_spec {o s pos : ℕ} (h : b.findContaining x target = some (o, s, pos)) :
    target < o ∧ o ≤ b.maxOrder ∧ positionFree b.freeLists o s = some pos ∧ s ≤ x ∧
      x < s + span b.sectorSize o := by
  obtain ⟨o', ho, hmap⟩ := exists_of_findSome?_eq_some h
  obtain ⟨pos', hpos, heq⟩ := map_eq_some_iff.mp hmap
  rw [Prod.mk.injEq, Prod.mk.injEq] at heq
  obtain ⟨rfl, rfl, rfl⟩ := heq
  rw [mem_range'_1] at ho
  have ho' : o' ≤ b.maxOrder := by omega
  refine ⟨by omega, ho', hpos, ?_⟩
  rw [hb.alignDown_eq hsec htotal hx ho']
  have hdm := Nat.div_add_mod x (span b.sectorSize o')
  have hml := Nat.mod_lt x (span_pos hb.sector_pos o')
  omega

/-- If a free block of a larger order contains the target, the search does not fail. -/
theorem findContaining_isSome {q z : ℕ} (hq : (q, z) ∈ b.freeBlocks) (hlt : target < q)
    (hzx : z ≤ x) (hxz : x < z + span b.sectorSize q) : b.findContaining x target ≠ none := by
  intro hnone
  have hqmax : q ≤ b.maxOrder := hb.order_le (mem_append_left out hq)
  have hat := findSome?_eq_none_iff.mp hnone q (by rw [mem_range'_1]; omega)
  -- the aligned start at order `q` is that of the free block
  have hz : span b.sectorSize q * (x / span b.sectorSize q) = z := by
    obtain ⟨i, hi⟩ : span b.sectorSize q ∣ z := hb.tiling.aligned _ (mem_append_left _ hq)
    have hdiv : x / span b.sectorSize q = i := by
      refine Nat.div_eq_of_lt_le ?_ ?_
      · rw [mul_comm]
        omega
      · rw [mul_comm, Nat.mul_succ]
        omega
    rw [hdiv, hi]
  rw [map_eq_none_iff, hb.alignDown_eq hsec htotal hx hqmax, hz] at hat
  have hsome := positionFree_isSome.mpr hq
  rw [hat] at hsome
  cases hsome

end

/-- **Marking.** In a power-of-two system without listed buddies, a block in range that overlaps no
block handed out moves from the free blocks to those handed out. -/
theorem markBlock_spec (hco : Coalesced b.sectorSize b.freeBlocks)
    (hsec : b.sectorSize = 2 ^ k) (htotal : b.totalUsableSize < 2 ^ 64)
    (hal : span b.sectorSize target ∣ x)
    (hend : x + span b.sectorSize target ≤ b.totalUsableSize / b.sectorSize * b.sectorSize)
    (hout : ∀ c ∈ out, (seg b.sectorSize (target, x)).Disjoint (c.seg b.sectorSize)) :
    b.SameRange (b.markBlock x target) ∧ (b.markBlock x target).WellFormed ((target, x) :: out) ∧
      Coalesced b.sectorSize (b.markBlock x target).freeBlocks := by
  have hu := hb.sector_pos
  have htpos := span_pos hu target
  cases hexact : positionFree b.freeLists target x with
  | some pos =>
    -- the block itself is free
    have hperm := blocksFrom_swapRemove hexact
    simp only [markBlock, hexact]
    refine ⟨⟨rfl, rfl, rfl, rfl⟩, ⟨hu, hb.maxOrder_eq, ?_, ?_⟩, ?_⟩
    · exact (length_modify ..).trans hb.length_eq
    · exact (hb.tiling.perm (hperm.append_right out).symm).perm perm_middle
    · exact hco.subset fun c hc => hperm.mem_iff.mpr (mem_cons_of_mem _ hc)
  | none =>
    -- every byte of the block is free, so one larger free block contains it
    obtain ⟨⟨q, z⟩, hq, hqo, hqw⟩ := exists_containing hu
      (fun c hc => hb.tiling.aligned c (mem_append_left _ hc)) hco hal
      (hb.covered_of_disjoint hend hout)
    have hqne : target ≠ q := by
      rintro rfl
      have heq : (target, x) = (target, z) := eq_of_within rfl hqw
      have hsome := positionFree_isSome.mpr (heq ▸ hq)
      rw [hexact] at hsome
      cases hsome
    simp only [Seg.Within, seg] at hqw
    have hx : x < b.totalUsableSize / b.sectorSize * b.sectorSize := by omega
    obtain ⟨⟨o, s, pos⟩, hfound⟩ := ne_none_iff_exists'.mp
      (findContaining_isSome hb hsec htotal hx hq (lt_of_le_of_ne hqo hqne) hqw.1 (by omega))
    obtain ⟨hto, homax, hpos, hsx, hxs⟩ := findContaining_spec hb hsec htotal hx hfound
    have hperm := blocksFrom_swapRemove hpos
    have hotm : target + (o - target) = o := by omega
    have htil : DyadicTiling b.sectorSize (b.totalUsableSize / b.sectorSize * b.sectorSize)
        ((target + (o - target), s) ::
          (blocksFrom 0 (b.freeLists.modify o (fun l => swapRemove l pos)) ++ out)) := by
      rw [hotm]
      exact hb.tiling.perm (hperm.append_right out).symm
    obtain ⟨hlen', hres, hsub⟩ := markSplit_tiling hu hal (o - target)
      (by rw [length_modify, hb.length_eq]; omega) (by rw [hotm]; exact ⟨hsx, hxs⟩) htil
    simp only [markBlock, hexact, hfound]
    refine ⟨⟨rfl, rfl, rfl, rfl⟩, ⟨hu, hb.maxOrder_eq, ?_, hres.perm perm_middle⟩, ?_⟩
    · rw [hlen', length_modify]
      exact hb.length_eq
    · exact (hco.subset fun c hc => hperm.mem_iff.mpr (mem_cons_of_mem _ hc)).add hu hres hsub

end Marking

end BuddyAllocator

end Certus.ExtentManager
