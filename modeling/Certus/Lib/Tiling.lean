import Mathlib.Algebra.BigOperators.Intervals
import Mathlib.Algebra.Order.BigOperators.Group.Finset
import Mathlib.Order.Interval.Finset.Nat
import Mathlib.Tactic.Linarith

/-! # Tilings of an initial segment of `ℕ` by half-open intervals

A list of intervals `[start, start + length)` **tiles** `[0, n)` when every position below `n` is
covered exactly once and no other position is covered. Stated as one equation about the covering
count, the property is additive in the list, invariant under permutation, and says at once that the
intervals are disjoint, lie below `n` and leave nothing out.

* **`Tiles.pairwise`, `Tiles.end_le`, `Tiles.sum_length`** — disjointness, range and total length. -/

namespace Certus

open List

/-- The half-open interval `[start, start + length)`, as the pair `(start, length)`. -/
abbrev Seg := ℕ × ℕ

namespace Seg

/-- Membership of a position in an interval. -/
def has (p : Seg) (x : ℕ) : Bool := decide (p.1 ≤ x) && decide (x < p.1 + p.2)

@[simp] theorem has_iff {p : Seg} {x : ℕ} : p.has x ↔ p.1 ≤ x ∧ x < p.1 + p.2 := by
  simp [has]

/-- One interval ends before the other starts. -/
def Disjoint (p q : Seg) : Prop := p.1 + p.2 ≤ q.1 ∨ q.1 + q.2 ≤ p.1

theorem Disjoint.symm {p q : Seg} (h : p.Disjoint q) : q.Disjoint p := Or.symm h

/-- The interval `p` lies inside `q`. -/
def Within (p q : Seg) : Prop := q.1 ≤ p.1 ∧ p.1 + p.2 ≤ q.1 + q.2

/-- Subintervals of disjoint intervals are disjoint. -/
theorem Disjoint.mono {p q p' q' : Seg} (h : p.Disjoint q) (hp : p'.Within p)
    (hq : q'.Within q) : p'.Disjoint q' := by
  unfold Disjoint Within at *
  omega

/-- Nonempty intervals without a common position are disjoint. -/
theorem disjoint_of_forall {p q : Seg} (hp : 0 < p.2) (hq : 0 < q.2)
    (h : ∀ x, p.has x → q.has x → False) : p.Disjoint q := by
  by_contra hd
  unfold Disjoint at hd
  -- the larger of the two starts lies in both intervals
  refine h (max p.1 q.1) ?_ ?_ <;> rw [has_iff] <;> omega

end Seg

/-! ## Rounding up -/

/-- The least multiple of `m` that is at least `n` (`usize::next_multiple_of`). -/
def nextMultipleOf (n m : ℕ) : ℕ := (n + m - 1) / m * m

theorem nextMultipleOf_spec {n m : ℕ} (hm : 0 < m) :
    m ∣ nextMultipleOf n m ∧ n ≤ nextMultipleOf n m ∧ nextMultipleOf n m < n + m := by
  have hmod := Nat.div_add_mod' (n + m - 1) m
  have hlt := Nat.mod_lt (n + m - 1) hm
  refine ⟨Nat.dvd_mul_left _ _, ?_, ?_⟩ <;> unfold nextMultipleOf <;> omega

/-- It is the least multiple that is not smaller. -/
theorem nextMultipleOf_le {n m a : ℕ} (hm : 0 < m) (hle : n ≤ a) (hdvd : m ∣ a) :
    nextMultipleOf n m ≤ a := by
  obtain ⟨q, rfl⟩ := hdvd
  rw [nextMultipleOf, Nat.mul_comm m q]
  refine Nat.mul_le_mul_right _ (Nat.le_of_lt_succ ((Nat.div_lt_iff_lt_mul hm).mpr ?_))
  rw [Nat.succ_mul, Nat.mul_comm q]
  omega

/-! ## The covering count -/

/-- The number of intervals of `bs` that contain `x`. -/
def cover (bs : List Seg) (x : ℕ) : ℕ := bs.countP fun b => b.has x

@[simp] theorem cover_nil (x : ℕ) : cover [] x = 0 := rfl

@[simp] theorem cover_cons (b : Seg) (bs : List Seg) (x : ℕ) :
    cover (b :: bs) x = (if b.has x then 1 else 0) + cover bs x := by
  rw [cover, countP_cons, Nat.add_comm]
  rfl

theorem cover_perm {as bs : List Seg} (h : as.Perm bs) (x : ℕ) : cover as x = cover bs x :=
  h.countP_eq _

theorem cover_pos_iff {bs : List Seg} {x : ℕ} : 0 < cover bs x ↔ ∃ b ∈ bs, b.has x :=
  countP_pos_iff

/-- Cutting an interval in two does not change the covering count. -/
theorem cover_split (s a b : ℕ) (bs : List Seg) (x : ℕ) :
    cover ((s, a + b) :: bs) x = cover ((s, a) :: (s + a, b) :: bs) x := by
  have hcut : (if Seg.has (s, a + b) x then 1 else 0)
      = (if Seg.has (s, a) x then 1 else 0) + (if Seg.has (s + a, b) x then 1 else 0) := by
    simp only [Seg.has_iff]
    split_ifs <;> omega
  rw [cover_cons, cover_cons, cover_cons, hcut, Nat.add_assoc]

/-! ## Tilings -/

/-- The intervals `bs` cover every position below `n` exactly once and nothing else. -/
def Tiles (n : ℕ) (bs : List Seg) : Prop := ∀ x, cover bs x = if x < n then 1 else 0

namespace Tiles

variable {n : ℕ} {as bs : List Seg}

theorem congr (h : ∀ x, cover as x = cover bs x) : Tiles n as ↔ Tiles n bs := by
  unfold Tiles
  simp only [h]

theorem perm (h : as.Perm bs) : Tiles n as ↔ Tiles n bs := congr (cover_perm h)

/-- Cutting one interval of a tiling in two, or joining two adjacent ones, gives a tiling. -/
theorem split {s a b : ℕ} : Tiles n ((s, a + b) :: bs) ↔ Tiles n ((s, a) :: (s + a, b) :: bs) :=
  congr (cover_split s a b bs)

/-- A position covered by a tiling is below its bound. -/
theorem lt_of_has (h : Tiles n bs) {b : Seg} (hb : b ∈ bs) {x : ℕ} (hx : b.has x) : x < n := by
  have hpos : 0 < cover bs x := cover_pos_iff.mpr ⟨b, hb, hx⟩
  rw [h x] at hpos
  by_contra hn
  rw [if_neg hn] at hpos
  exact lt_irrefl _ hpos

/-- Every nonempty interval of a tiling ends at or below its bound. -/
theorem end_le (h : Tiles n bs) {b : Seg} (hb : b ∈ bs) (hpos : 0 < b.2) : b.1 + b.2 ≤ n := by
  have hlast : b.1 + b.2 - 1 < n := h.lt_of_has hb (by rw [Seg.has_iff]; omega)
  omega

/-- Two intervals at the head of a tiling are disjoint. -/
theorem disjoint_head {p q : Seg} (h : Tiles n (p :: q :: bs)) (hp : 0 < p.2) (hq : 0 < q.2) :
    p.Disjoint q := by
  refine Seg.disjoint_of_forall hp hq fun x hpx hqx => ?_
  have hx := h x
  rw [cover_cons, cover_cons, if_pos hpx, if_pos hqx] at hx
  split_ifs at hx <;> omega

/-- Two intervals with the same position are the same entry of the tiling. -/
theorem disjoint_of_perm {p q : Seg} (h : Tiles n bs) (hperm : (p :: q :: as).Perm bs)
    (hp : 0 < p.2) (hq : 0 < q.2) : p.Disjoint q :=
  ((perm hperm).mpr h).disjoint_head hp hq

/-- The intervals of a tiling are pairwise disjoint. -/
theorem pairwise (h : Tiles n bs) (hpos : ∀ b ∈ bs, 0 < b.2) : bs.Pairwise Seg.Disjoint := by
  -- generalised to lists covering each position at most once, which is inherited by tails
  have hle : ∀ x, cover bs x ≤ 1 := fun x => by rw [h x]; split_ifs <;> omega
  clear h
  induction bs with
  | nil => exact List.Pairwise.nil
  | cons p bs ih =>
    refine pairwise_cons.mpr ⟨fun q hq => ?_, ih (fun b hb => ?_) fun x => ?_⟩
    · refine Seg.disjoint_of_forall (hpos p mem_cons_self)
        (hpos q (mem_cons_of_mem _ hq)) fun x hpx hqx => ?_
      have hx := hle x
      rw [cover_cons, if_pos hpx] at hx
      have : 0 < cover bs x := cover_pos_iff.mpr ⟨q, hq, hqx⟩
      omega
    · exact hpos b (mem_cons_of_mem _ hb)
    · have hx := hle x
      rw [cover_cons] at hx
      omega

end Tiles

/-! ## Total length -/

/-- Positions below `N` counted with multiplicity are the lengths of the intervals below `N`. -/
theorem sum_cover (N : ℕ) (bs : List Seg) (h : ∀ b ∈ bs, b.1 + b.2 ≤ N) :
    ∑ x ∈ Finset.range N, cover bs x = (bs.map Prod.snd).sum := by
  induction bs with
  | nil => simp
  | cons b bs ih =>
    have hb : b.1 + b.2 ≤ N := h b mem_cons_self
    have hfilter : (Finset.range N).filter fun x => b.has x = true
        = Finset.Ico b.1 (b.1 + b.2) := by
      ext x
      simp only [Finset.mem_filter, Finset.mem_range, Seg.has_iff, Finset.mem_Ico]
      omega
    simp only [cover_cons, Finset.sum_add_distrib, map_cons, sum_cons]
    rw [ih fun c hc => h c (mem_cons_of_mem _ hc), ← Finset.card_filter, hfilter,
      Nat.card_Ico, Nat.add_sub_cancel_left]

/-- The lengths of a tiling add up to its bound. -/
theorem Tiles.sum_length {n : ℕ} {bs : List Seg} (h : Tiles n bs) (hpos : ∀ b ∈ bs, 0 < b.2) :
    (bs.map Prod.snd).sum = n := by
  rw [← sum_cover n bs fun b hb => h.end_le hb (hpos b hb)]
  calc ∑ x ∈ Finset.range n, cover bs x
      = ∑ x ∈ Finset.range n, 1 :=
        Finset.sum_congr rfl fun x hx => by rw [h x, if_pos (Finset.mem_range.mp hx)]
    _ = n := by rw [← Finset.card_eq_sum_ones, Finset.card_range]

end Certus
