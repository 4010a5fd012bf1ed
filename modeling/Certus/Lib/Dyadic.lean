import Certus.Lib.Tiling
import Mathlib.Data.Nat.Bitwise

/-! # Dyadic blocks

Blocks of `2 ^ order` units, each starting at a multiple of its own length: the blocks a binary
buddy system hands out. The unit is an arbitrary positive number of positions.

* **`Block.within_of_meet`** — two aligned blocks that meet are nested.
* **`xor_span`** — flipping the span's bits of an aligned start leads to the buddy, if to any
  aligned start at all. -/

namespace Certus

open List

/-- The length of a block of order `o`, in a system with unit `u`. -/
def span (u o : ℕ) : ℕ := 2 ^ o * u

theorem span_succ (u o : ℕ) : span u (o + 1) = span u o + span u o := by
  unfold span
  rw [Nat.pow_succ, Nat.mul_right_comm, Nat.mul_two]

variable {u : ℕ}

theorem span_pos (hu : 0 < u) (o : ℕ) : 0 < span u o :=
  Nat.mul_pos (Nat.two_pow_pos o) hu

theorem span_dvd_span (u : ℕ) {o o' : ℕ} (h : o ≤ o') : span u o ∣ span u o' :=
  Nat.mul_dvd_mul_right (Nat.pow_dvd_pow 2 h) u

/-- A block of a buddy system, as its order and start. -/
abbrev Block := ℕ × ℕ

namespace Block

/-- The positions of a block. -/
def seg (u : ℕ) (b : Block) : Seg := (b.2, span u b.1)

/-- A block starts at a multiple of its length. -/
def Aligned (u : ℕ) (b : Block) : Prop := span u b.1 ∣ b.2

@[simp] theorem seg_fst (u : ℕ) (b : Block) : (b.seg u).1 = b.2 := rfl

@[simp] theorem seg_snd (u : ℕ) (b : Block) : (b.seg u).2 = span u b.1 := rfl

variable {b c : Block} {u : ℕ}

/-- Of two aligned blocks that share a position, the one of smaller order lies in the other. -/
theorem within_of_meet (hb : b.Aligned u) (hc : c.Aligned u) (hle : b.1 ≤ c.1) {x : ℕ}
    (hbx : (b.seg u).has x) (hcx : (c.seg u).has x) : (b.seg u).Within (c.seg u) := by
  obtain ⟨i, hi⟩ := hb
  obtain ⟨j, hj⟩ := hc
  obtain ⟨k, hk⟩ := span_dvd_span u hle
  simp only [Seg.has_iff, seg_fst, seg_snd] at hbx hcx
  simp only [Seg.Within, seg_fst, seg_snd]
  rw [hi] at hbx ⊢
  rw [hj, hk] at hcx ⊢
  rw [Nat.mul_assoc] at hcx ⊢
  -- in multiples of the smaller span: `k * j ≤ i < k * j + k`
  have h₁ : k * j < i + 1 := by
    refine Nat.lt_of_mul_lt_mul_left (a := span u b.1) ?_
    rw [Nat.mul_succ]
    omega
  have h₂ : i < k * j + k := by
    refine Nat.lt_of_mul_lt_mul_left (a := span u b.1) ?_
    rw [Nat.mul_add]
    omega
  have h₃ := Nat.mul_le_mul_left (span u b.1) (Nat.le_of_lt_succ h₁)
  have h₄ := Nat.mul_le_mul_left (span u b.1) (Nat.succ_le_of_lt h₂)
  rw [Nat.mul_succ, Nat.mul_add] at h₄
  exact ⟨h₃, h₄⟩

/-- An aligned block of order `o + 1` is its two aligned halves. -/
theorem aligned_halves {u o x : ℕ} (h : Aligned u (o + 1, x)) :
    Aligned u (o, x) ∧ Aligned u (o, x + span u o) := by
  have hx : span u o ∣ x := Nat.dvd_trans (span_dvd_span u (Nat.le_succ o)) h
  exact ⟨hx, Nat.dvd_add hx (Nat.dvd_refl _)⟩

/-- A block of the same order that contains an aligned block is that block. -/
theorem eq_of_within (ho : b.1 = c.1) (h : (b.seg u).Within (c.seg u)) : b = c := by
  simp only [Seg.Within, seg_fst, seg_snd, ho] at h
  exact Prod.ext ho (by omega)

end Block

/-! ## Buddies and exclusive or -/

/-- Exclusive or in terms of sum and common bits. -/
theorem xor_add_two_mul_and (a b : ℕ) : (a ^^^ b) + 2 * (a &&& b) = a + b := by
  induction a using Nat.strong_induction_on generalizing b with
  | _ a ih =>
    by_cases ha : a = 0
    · subst ha
      simp
    · have h := ih (a / 2) (by omega) (b / 2)
      have hx := Nat.div_add_mod (a ^^^ b) 2
      have hy := Nat.div_add_mod (a &&& b) 2
      rw [Nat.xor_div_two] at hx
      rw [Nat.and_div_two] at hy
      have hxm : (a ^^^ b) % 2 = (a % 2 + b % 2) % 2 := by
        rw [Nat.xor_mod_two_eq]
        omega
      have hym : (a &&& b) % 2 = (a % 2) * (b % 2) := by
        have ha2 := Nat.mod_two_eq_zero_or_one a
        have hb2 := Nat.mod_two_eq_zero_or_one b
        have := Nat.and_mod_two_pow (a := a) (b := b) (n := 1)
        rw [this]
        rcases ha2 with h | h <;> rcases hb2 with h' | h' <;> rw [h, h'] <;> rfl
      rcases Nat.mod_two_eq_zero_or_one a with h₁ | h₁ <;>
        rcases Nat.mod_two_eq_zero_or_one b with h₂ | h₂ <;>
        rw [h₁, h₂] at hxm hym <;> omega

/-- A multiple of `s > 0` without a common bit with `s` is an even multiple. -/
theorem even_of_and_eq_zero {s j : ℕ} (hs : 0 < s) (h : s * j &&& s = 0) : Even j := by
  induction s using Nat.strong_induction_on with
  | _ s ih =>
    by_cases hodd : s % 2 = 1
    · -- the lowest bit of `s` is set, so the lowest bit of `s * j`, that of `j`, is not
      have hbit : (s * j &&& s).testBit 0 = false := by rw [h, Nat.zero_testBit]
      rw [Nat.testBit_and, Nat.testBit_zero, Nat.testBit_zero, Nat.mul_mod, hodd] at hbit
      rw [Nat.even_iff]
      rcases Nat.mod_two_eq_zero_or_one j with hj | hj
      · exact hj
      · rw [hj] at hbit
        exact absurd hbit (by decide)
    · have hhalf : s / 2 * j &&& s / 2 = 0 := by
        have hmul : s * j / 2 = s / 2 * j := by
          conv_lhs => rw [show s = s / 2 * 2 by omega, Nat.mul_right_comm]
          exact Nat.mul_div_cancel _ (by decide)
        rw [← hmul, ← Nat.and_div_two, h]
      exact ih (s / 2) (by omega) (by omega) hhalf

/-- **Buddies by exclusive or.** If flipping the bits of `s` in one multiple of `s` gives another,
the two are neighbours and the lower one is an even multiple. -/
theorem xor_span {s i j : ℕ} (hs : 0 < s) (h : s * i ^^^ s = s * j) :
    (Even i ∧ j = i + 1) ∨ (Even j ∧ i = j + 1) := by
  have hadd := xor_add_two_mul_and (s * i) s
  rw [h] at hadd
  have hle : s * i &&& s ≤ s := Nat.and_le_right
  -- `s * j` is at most `s` away from `s * i`
  have hup : j ≤ i + 1 := by
    refine Nat.le_of_mul_le_mul_left ?_ hs
    rw [Nat.mul_succ]
    omega
  have hdown : i ≤ j + 1 := by
    refine Nat.le_of_mul_le_mul_left ?_ hs
    rw [Nat.mul_succ]
    omega
  have hne : i ≠ j := by
    rintro rfl
    have h0 : s = 0 := by
      have := congrArg (fun n => s * i ^^^ n) h
      simpa using this
    omega
  rcases Nat.lt_or_ge i j with hlt | hge
  · have hj : j = i + 1 := by omega
    refine .inl ⟨even_of_and_eq_zero hs ?_, hj⟩
    rw [hj, Nat.mul_succ] at hadd
    omega
  · have hi : i = j + 1 := by omega
    refine .inr ⟨?_, hi⟩
    -- the same argument from the other side
    have h' : s * j ^^^ s = s * i := by
      rw [← h, Nat.xor_assoc, Nat.xor_self, Nat.xor_zero]
    have hadd' := xor_add_two_mul_and (s * j) s
    rw [h', hi, Nat.mul_succ] at hadd'
    exact even_of_and_eq_zero hs (by omega)

/-! ## Tilings by dyadic blocks -/

/-- Aligned blocks that tile `[0, n)`. -/
structure DyadicTiling (u n : ℕ) (bs : List Block) : Prop where
  aligned : ∀ b ∈ bs, b.Aligned u
  tiles : Tiles n (bs.map (Block.seg u))

namespace DyadicTiling

variable {u n : ℕ} {as bs : List Block}

theorem perm (h : as.Perm bs) (hb : DyadicTiling u n bs) : DyadicTiling u n as where
  aligned b hb' := hb.aligned b (h.mem_iff.mp hb')
  tiles := (Tiles.perm (h.map _)).mpr hb.tiles

variable {o x : ℕ} {b c : Block}

/-- A block of order `o + 1` can be replaced by its two halves. -/
theorem split (h : DyadicTiling u n ((o + 1, x) :: bs)) :
    DyadicTiling u n ((o, x) :: (o, x + span u o) :: bs) where
  aligned b hb := by
    have hhalves := Block.aligned_halves (h.aligned _ mem_cons_self)
    rcases mem_cons.mp hb with rfl | hb
    · exact hhalves.1
    rcases mem_cons.mp hb with rfl | hb
    · exact hhalves.2
    · exact h.aligned b (mem_cons_of_mem _ hb)
  tiles := by
    have ht := h.tiles
    rw [map_cons, Block.seg, span_succ, Tiles.split] at ht
    exact ht

/-- Two buddies can be joined. -/
theorem join (hx : span u (o + 1) ∣ x) (h : DyadicTiling u n ((o, x) :: (o, x + span u o) :: bs)) :
    DyadicTiling u n ((o + 1, x) :: bs) where
  aligned b hb := by
    rcases mem_cons.mp hb with rfl | hb
    · exact hx
    · exact h.aligned b (mem_cons_of_mem _ (mem_cons_of_mem _ hb))
  tiles := by
    rw [map_cons, Block.seg, span_succ, Tiles.split]
    exact h.tiles

/-- Two blocks of one order whose starts differ in the bits of their span are buddies, and can be
joined to the block at the lower start. -/
theorem join_xor (hu : 0 < u) {o c d : ℕ} (hxor : c ^^^ span u o = d)
    (h : DyadicTiling u n ((o, c) :: (o, d) :: bs)) :
    DyadicTiling u n ((o + 1, min c d) :: bs) := by
  obtain ⟨i, hi⟩ : span u o ∣ c := h.aligned _ mem_cons_self
  obtain ⟨j, hj⟩ : span u o ∣ d := h.aligned _ (mem_cons_of_mem _ mem_cons_self)
  have hij : span u o * i ^^^ span u o = span u o * j := by rw [← hi, ← hj, hxor]
  have heven : ∀ m, Even m → span u (o + 1) ∣ span u o * m := by
    rintro m ⟨k, rfl⟩
    exact ⟨k, by rw [span_succ, Nat.mul_add, Nat.add_mul]⟩
  rcases xor_span (span_pos hu o) hij with ⟨hev, hnext⟩ | ⟨hev, hnext⟩
  · have hd : d = c + span u o := by rw [hj, hnext, hi, Nat.mul_succ]
    subst hd
    rw [min_eq_left (Nat.le_add_right _ _)]
    exact join (hi ▸ heven i hev) h
  · have hc : c = d + span u o := by rw [hj, hi, hnext, Nat.mul_succ]
    subst hc
    rw [min_eq_right (Nat.le_add_right _ _)]
    exact join (hj ▸ heven j hev) (h.perm (List.Perm.swap _ _ _))

/-- One more block at the end of the tiled range. -/
theorem extend (hal : span u o ∣ n) (h : DyadicTiling u n bs) :
    DyadicTiling u (n + span u o) ((o, n) :: bs) where
  aligned b hb := by
    rcases mem_cons.mp hb with rfl | hb
    · exact hal
    · exact h.aligned b hb
  tiles x := by
    have hx := h.tiles x
    rw [map_cons, cover_cons, hx]
    simp only [Seg.has_iff, Block.seg]
    split_ifs <;> omega

/-- Two blocks of a tiling, listed first, are disjoint. -/
theorem disjoint (hu : 0 < u) (h : DyadicTiling u n (b :: c :: bs)) :
    (b.seg u).Disjoint (c.seg u) :=
  h.tiles.disjoint_head (span_pos hu _) (span_pos hu _)

/-- The first block of a tiling is disjoint from every other. -/
theorem disjoint_of_mem (hu : 0 < u) (h : DyadicTiling u n (b :: bs)) (hc : c ∈ bs) :
    (b.seg u).Disjoint (c.seg u) :=
  (h.perm ((perm_cons_erase hc).symm.cons b)).disjoint hu

/-- A block of a tiling ends in its range. -/
theorem end_le (hu : 0 < u) (h : DyadicTiling u n bs) (hb : b ∈ bs) : b.2 + span u b.1 ≤ n :=
  h.tiles.end_le (mem_map_of_mem hb) (span_pos hu _)

end DyadicTiling

/-! ## Coalesced lists of blocks -/

/-- No block of the list is listed together with its buddy. -/
def Coalesced (u : ℕ) (bs : List Block) : Prop :=
  ∀ o x, (o, x) ∈ bs → span u (o + 1) ∣ x → (o, x + span u o) ∉ bs

theorem Coalesced.subset {bs cs : List Block} (h : Coalesced u bs) (hsub : cs ⊆ bs) :
    Coalesced u cs :=
  fun o x hx hdvd hy => h o x (hsub hx) hdvd (hsub hy)

/-- The buddy of `b` contains the interval `t`. -/
def BuddyHolds (u : ℕ) (t : Seg) (b : Block) : Prop :=
  ∃ y, span u (b.1 + 1) ∣ y ∧
    ((b.2 = y ∧ t.Within (y + span u b.1, span u b.1)) ∨
      (b.2 = y + span u b.1 ∧ t.Within (y, span u b.1)))

/-- **Splitting keeps a list coalesced.** Blocks whose buddy holds a block `t` in use can be added
to a coalesced list, as long as `t` is disjoint from all of them. -/
theorem Coalesced.add {u n : ℕ} (hu : 0 < u) {t : Block} {bs cs rest : List Block}
    (h : Coalesced u bs) (htil : DyadicTiling u n (t :: (cs ++ rest)))
    (hcs : ∀ b ∈ cs, b ∈ bs ∨ BuddyHolds u (t.seg u) b) : Coalesced u cs := by
  intro o x hx hdvd hy
  have hpos := span_pos hu o
  have hsucc := span_succ u o
  -- no listed block contains `t`
  have hno : ∀ c ∈ cs, ¬ (t.seg u).Within (c.seg u) := fun c hc hw => by
    have hd := htil.disjoint_of_mem hu (mem_append_left rest hc)
    have ht := span_pos hu t.1
    simp only [Seg.Within, Seg.Disjoint, Block.seg] at hw hd
    omega
  -- two multiples of a double span are not one span apart
  have hodd : ∀ y z, span u (o + 1) ∣ y → span u (o + 1) ∣ z → z = y + span u o → False := by
    intro y z hy' hz hzy
    have hd : span u (o + 1) ∣ span u o := (Nat.dvd_add_right hy').mp (hzy ▸ hz)
    have := Nat.le_of_dvd hpos hd
    omega
  rcases hcs _ hx with hxo | ⟨y, hyd, ⟨hxy, hw⟩ | ⟨hxy, -⟩⟩
  · rcases hcs _ hy with hyo | ⟨y, hyd, ⟨hxy, -⟩ | ⟨hxy, hw⟩⟩
    · exact h o x hxo hdvd hyo
    · exact hodd x y hdvd hyd hxy.symm
    · have hxy' : x = y := Nat.add_right_cancel hxy
      exact hno _ hx (hxy' ▸ hw)
  · have hxy' : x = y := hxy
    exact hno _ hy (hxy' ▸ hw)
  · exact hodd y x hyd hdvd hxy

/-- **One block contains it.** An aligned block all of whose positions are covered by a coalesced
list of aligned blocks lies inside one of them. -/
theorem exists_containing (hu : 0 < u) {bs : List Block} (hal : ∀ b ∈ bs, b.Aligned u)
    (hco : Coalesced u bs) {o x : ℕ} (ht : Block.Aligned u (o, x))
    (hcov : ∀ y, x ≤ y → y < x + span u o → ∃ b ∈ bs, (b.seg u).has y) :
    ∃ b ∈ bs, o ≤ b.1 ∧ (Block.seg u (o, x)).Within (b.seg u) := by
  induction o generalizing x with
  | zero =>
    obtain ⟨b, hb, hbx⟩ := hcov x (le_refl x) (Nat.lt_add_of_pos_right (span_pos hu 0))
    refine ⟨b, hb, Nat.zero_le _, Block.within_of_meet ht (hal b hb) (Nat.zero_le _) ?_ hbx⟩
    exact Seg.has_iff.mpr ⟨le_refl x, Nat.lt_add_of_pos_right (span_pos hu 0)⟩
  | succ o ih =>
    obtain ⟨h₁, h₂⟩ := Block.aligned_halves ht
    have hpos := span_pos hu o
    have hsucc := span_succ u o
    -- each half lies in one block; a block larger than the half contains the whole
    obtain ⟨b, hb, hbo, hbw⟩ := ih h₁ fun y hy hy' => hcov y hy (by omega)
    obtain ⟨c, hc, hco', hcw⟩ := ih h₂ fun y hy hy' => hcov y (by omega) (by omega)
    by_cases hb1 : o + 1 ≤ b.1
    · refine ⟨b, hb, hb1, Block.within_of_meet ht (hal b hb) hb1 (x := x) ?_ ?_⟩
      · exact Seg.has_iff.mpr ⟨le_refl x, Nat.lt_add_of_pos_right (span_pos hu _)⟩
      · simp only [Seg.Within, Block.seg] at hbw
        exact Seg.has_iff.mpr ⟨hbw.1, by simp only [Block.seg]; omega⟩
    by_cases hc1 : o + 1 ≤ c.1
    · refine ⟨c, hc, hc1, Block.within_of_meet ht (hal c hc) hc1 (x := x + span u o) ?_ ?_⟩
      · exact Seg.has_iff.mpr ⟨by simp, by simp only [Block.seg]; omega⟩
      · simp only [Seg.Within, Block.seg] at hcw
        exact Seg.has_iff.mpr ⟨hcw.1, by simp only [Block.seg]; omega⟩
    -- otherwise both halves are listed, which coalescing excludes
    have hbeq : (o, x) = b := Block.eq_of_within (by simp only; omega) hbw
    have hceq : (o, x + span u o) = c := Block.eq_of_within (by simp only; omega) hcw
    exact absurd (hceq ▸ hc) (hco o x (hbeq ▸ hb) ht)

end Certus
