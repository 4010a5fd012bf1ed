import Mathlib.Data.List.Basic
import Mathlib.Tactic.Linarith

/-! # Little-endian fields in byte strings

Fixed-width unsigned integers as little-endian byte strings, and the two facts that a sequential
codec needs: a field read at the position where it was written gives the value back, and writing
further fields behind it does not matter.

* **`leNat_leBytes`** — reading back gives `n % 256 ^ k`. -/

namespace Certus

open List

/-- The `k` low bytes of `n`, least significant first (`to_le_bytes`). -/
def leBytes : ℕ → ℕ → List UInt8
  | 0, _ => []
  | k + 1, n => UInt8.ofNat (n % 256) :: leBytes k (n / 256)

/-- The number denoted by a little-endian byte string (`from_le_bytes`). -/
def leNat : List UInt8 → ℕ
  | [] => 0
  | b :: bs => b.toNat + 256 * leNat bs

@[simp] theorem length_leBytes (k n : ℕ) : (leBytes k n).length = k := by
  induction k generalizing n with
  | zero => rfl
  | succ k ih => rw [leBytes, length_cons, ih]

/-- Reading a field back gives its value modulo the field's range. -/
theorem leNat_leBytes (k n : ℕ) : leNat (leBytes k n) = n % 256 ^ k := by
  induction k generalizing n with
  | zero => simp [leBytes, leNat, Nat.mod_one]
  | succ k ih =>
    have hbyte : (UInt8.ofNat (n % 256)).toNat = n % 256 := by
      rw [UInt8.toNat_ofNat', Nat.mod_mod]
    rw [leBytes, leNat, ih, hbyte, Nat.pow_succ, Nat.mul_comm (256 ^ k), Nat.mod_mul]

/-- A value in range is read back unchanged. -/
theorem leNat_leBytes_of_lt {k n : ℕ} (h : n < 256 ^ k) : leNat (leBytes k n) = n := by
  rw [leNat_leBytes, Nat.mod_eq_of_lt h]

/-! ## Fields at the front of a byte string -/

@[simp] theorem take_leBytes_append (k n : ℕ) (rest : List UInt8) :
    (leBytes k n ++ rest).take k = leBytes k n := by
  rw [take_append_of_le_length (by rw [length_leBytes]), take_of_length_le]
  rw [length_leBytes]

@[simp] theorem drop_leBytes_append (k n : ℕ) (rest : List UInt8) :
    (leBytes k n ++ rest).drop k = rest := by
  rw [drop_append_of_le_length (by rw [length_leBytes]), drop_of_length_le]
  · rfl
  · rw [length_leBytes]

/-- A byte string of length `k` denotes a number below `256 ^ k`. -/
theorem leNat_lt (bs : List UInt8) : leNat bs < 256 ^ bs.length := by
  induction bs with
  | nil => decide
  | cons b bs ih =>
    have hb : b.toNat < 256 := b.toNat_lt
    rw [leNat, length_cons, Nat.pow_succ]
    omega

/-- Writing the number that was read gives the bytes back. -/
theorem leBytes_leNat (bs : List UInt8) : leBytes bs.length (leNat bs) = bs := by
  induction bs with
  | nil => rfl
  | cons b bs ih =>
    have hb : b.toNat < 256 := b.toNat_lt
    have hmod : (b.toNat + 256 * leNat bs) % 256 = b.toNat := by omega
    have hdiv : (b.toNat + 256 * leNat bs) / 256 = leNat bs := by omega
    rw [leNat, length_cons, leBytes, hmod, hdiv, ih, UInt8.ofNat_toNat]

/-- The field at the front of a byte string that is long enough, and the rest. -/
theorem leBytes_take_append_drop {k : ℕ} {data : List UInt8} (h : k ≤ data.length) :
    leBytes k (leNat (data.take k)) ++ data.drop k = data := by
  have hlen : (data.take k).length = k := length_take_of_le h
  have hbytes := leBytes_leNat (data.take k)
  rw [hlen] at hbytes
  rw [hbytes, take_append_drop]

end Certus
