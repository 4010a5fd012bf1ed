import Mathlib.Data.List.Basic
import Mathlib.Tactic.Linarith

/-! # Sectors

A device is a function from sector numbers to byte strings; it is read and written in sectors of one
size. A buffer is written sector by sector, so that any first part of its writes may be all that
happened.

* **`read`** — a number of sectors.
* **`writes`**, **`write`** — the sector writes of a buffer, and one of them.
* **`foldl_write_of_not_mem`** — what lies outside is left alone.
* **`read_writes`** — a buffer that was written is read back. -/

namespace Certus.Sectors

open List

variable {size : ℕ} {d : ℕ → List UInt8}

/-- A byte string cut or filled up to the size of a sector. -/
def fit (size : ℕ) (bs : List UInt8) : List UInt8 := (bs ++ List.replicate size 0).take size

@[simp] theorem length_fit (bs : List UInt8) : (fit size bs).length = size := by
  simp [fit]

theorem fit_of_length {bs : List UInt8} (h : bs.length = size) : fit size bs = bs := by
  rw [fit, take_append_of_le_length h.ge, take_of_length_le h.le]

/-- The bytes of `count` sectors. -/
def read (size : ℕ) (d : ℕ → List UInt8) (lba count : ℕ) : List UInt8 :=
  (List.range count).flatMap fun i => fit size (d (lba + i))

@[simp] theorem read_zero (lba : ℕ) : read size d lba 0 = [] := rfl

theorem read_succ (lba count : ℕ) :
    read size d lba (count + 1) = fit size (d lba) ++ read size d (lba + 1) count := by
  unfold read
  rw [range_succ_eq_map, flatMap_cons, flatMap_map, add_zero]
  simp only [Nat.succ_eq_add_one, add_comm, add_left_comm]

theorem read_one (lba : ℕ) : read size d lba 1 = fit size (d lba) := by
  rw [read_succ, read_zero, append_nil]

@[simp] theorem length_read (lba count : ℕ) : (read size d lba count).length = count * size := by
  induction count generalizing lba with
  | zero => simp
  | succ count ih => rw [read_succ, length_append, length_fit, ih, Nat.succ_mul, add_comm]

theorem read_add (lba n m : ℕ) :
    read size d lba (n + m) = read size d lba n ++ read size d (lba + n) m := by
  induction n generalizing lba with
  | zero => simp
  | succ n ih =>
    rw [Nat.succ_add, read_succ, read_succ, ih, append_assoc, add_assoc, add_comm 1 n]

/-- Reading looks at the sectors asked for only. -/
theorem read_congr {d' : ℕ → List UInt8} {lba count : ℕ}
    (h : ∀ l, lba ≤ l → l < lba + count → d' l = d l) :
    read size d' lba count = read size d lba count := by
  refine flatMap_congr fun i hi => ?_
  have := mem_range.mp hi
  rw [h (lba + i) (by omega) (by omega)]

/-- The number of sectors of a buffer. -/
def count (size len : ℕ) : ℕ := (len + size - 1) / size

theorem count_mul (hsize : 0 < size) (n : ℕ) : count size (n * size) = n := by
  refine Nat.div_eq_of_lt_le ?_ ?_
  · omega
  · rw [Nat.succ_mul]
    omega

/-- The sector writes of a buffer, in order. -/
def writes (size lba : ℕ) (data : List UInt8) : List (ℕ × List UInt8) :=
  (List.range (count size data.length)).map fun i => (lba + i, fit size (data.drop (i * size)))

/-- One sector write. -/
def write (d : ℕ → List UInt8) (w : ℕ × List UInt8) : ℕ → List UInt8 :=
  fun l => if l = w.1 then w.2 else d l

variable {data : List UInt8} {lba n : ℕ}

theorem mem_writes {w : ℕ × List UInt8} (h : w ∈ writes size lba data) :
    lba ≤ w.1 ∧ w.1 < lba + count size data.length := by
  obtain ⟨i, hi, rfl⟩ := mem_map.mp h
  have := mem_range.mp hi
  exact ⟨Nat.le_add_right _ _, by omega⟩

/-- Writes elsewhere leave a sector alone. -/
theorem foldl_write_of_not_mem {ws : List (ℕ × List UInt8)} {l : ℕ} (h : ∀ w ∈ ws, l ≠ w.1) :
    ws.foldl write d l = d l := by
  induction ws generalizing d with
  | nil => rfl
  | cons w ws ih =>
    rw [foldl_cons, ih fun w' hw' => h w' (mem_cons_of_mem _ hw')]
    exact if_neg (h w (mem_cons_self ..))

/-- A buffer of whole sectors is its first sector and the rest. -/
theorem writes_cons (hsize : 0 < size) (hlen : data.length = (n + 1) * size) :
    writes size lba data = (lba, data.take size) :: writes size (lba + 1) (data.drop size) := by
  have hdrop : (data.drop size).length = n * size := by
    rw [length_drop, hlen, Nat.succ_mul, Nat.add_sub_cancel]
  have hfirst : fit size data = data.take size := by
    rw [fit, take_append_of_le_length]
    rw [hlen, Nat.succ_mul]
    omega
  unfold writes
  rw [hlen, hdrop, count_mul hsize, count_mul hsize, range_succ_eq_map, map_cons, map_map]
  simp only [zero_mul, drop_zero, add_zero, hfirst, List.cons.injEq, true_and]
  refine map_congr_left fun i _ => ?_
  simp only [Function.comp_apply, Nat.succ_eq_add_one, drop_drop, Nat.succ_mul]
  rw [add_assoc, add_comm 1 i, add_comm size]

/-- **A buffer of whole sectors that was written is read back.** -/
theorem read_writes (hsize : 0 < size) (hlen : data.length = n * size) :
    read size ((writes size lba data).foldl write d) lba n = data := by
  induction n generalizing d lba data with
  | zero =>
    rw [zero_mul, length_eq_zero_iff] at hlen
    rw [hlen, read_zero]
  | succ n ih =>
    have hdrop : (data.drop size).length = n * size := by
      rw [length_drop, hlen, Nat.succ_mul, Nat.add_sub_cancel]
    rw [writes_cons hsize hlen, foldl_cons, read_succ, ih hdrop,
      foldl_write_of_not_mem fun w hw => ?_]
    · have hself : write d (lba, data.take size) lba = data.take size := if_pos rfl
      rw [hself, fit_of_length, take_append_drop]
      rw [length_take, hlen, Nat.succ_mul]
      omega
    · have := (mem_writes hw).1
      omega

end Certus.Sectors
