import Certus.Lib.Tiling
import Mathlib.Data.List.Basic
import Mathlib.Tactic.Linarith

/-! # Segmentation of device transfers

`io_segmenter.rs`: a transfer is cut into commands of at most the maximal transfer size.

* **`segmentIo_inside_iff`** — all blocks of a transfer that ends inside a range lie in it exactly if
  its first block does. -/

namespace Certus.Dispatcher

open List

/-- One command of a transfer. -/
structure IoSegment where
  bufferOffset : ℕ
  lba : ℕ
  length : ℕ
  deriving DecidableEq, Repr

/-- The blocks that a command touches. -/
def IoSegment.lbas (sectorSize : ℕ) (seg : IoSegment) : List ℕ :=
  List.range' seg.lba ((seg.length + sectorSize - 1) / sectorSize)

/-- The loop of `segment_io`. `fuel` bounds the iterations by the number of bytes. -/
def segmentLoop (mts ss : ℕ) : ℕ → ℕ → ℕ → ℕ → List IoSegment
  | 0, _, _, _ => []
  | fuel + 1, remaining, bufferOffset, lba =>
    if remaining = 0 then []
    else
      let length := min remaining mts
      ⟨bufferOffset, lba, length⟩ ::
        segmentLoop mts ss fuel (remaining - length) (bufferOffset + length) (lba + length / ss)

/-- The commands of a transfer; a size of zero panics. -/
def segmentIo (startLba totalBytes maxTransferSize sectorSize : ℕ) : Option (List IoSegment) :=
  if maxTransferSize = 0 ∨ sectorSize = 0 then none
  else some (segmentLoop maxTransferSize sectorSize totalBytes totalBytes 0 startLba)

/-- Blocks of a first part and of the rest do not exceed those of the whole. -/
theorem div_add_ceil_le {ss : ℕ} (hss : 0 < ss) {length remaining : ℕ} (h : length ≤ remaining) :
    length / ss + (remaining - length + ss - 1) / ss ≤ (remaining + ss - 1) / ss := by
  have hmod := Nat.div_add_mod' length ss
  rw [add_comm, ← Nat.add_mul_div_right _ _ hss]
  refine Nat.div_le_div_right ?_
  omega

/-- **The blocks of a transfer** lie between its start and its end. -/
theorem segmentLoop_lbas {mts ss : ℕ} (hss : 0 < ss) (fuel remaining bufferOffset lba : ℕ)
    {seg : IoSegment} (hseg : seg ∈ segmentLoop mts ss fuel remaining bufferOffset lba) {b : ℕ}
    (hb : b ∈ seg.lbas ss) : lba ≤ b ∧ b < lba + (remaining + ss - 1) / ss := by
  induction fuel generalizing remaining bufferOffset lba with
  | zero => cases hseg
  | succ fuel ih =>
    rw [segmentLoop] at hseg
    split_ifs at hseg with hzero
    · cases hseg
    have hle : min remaining mts ≤ remaining := min_le_left _ _
    generalize min remaining mts = length at hseg hle
    rcases mem_cons.mp hseg with rfl | hseg
    · obtain ⟨hge, hlt⟩ := mem_range'_1.mp hb
      have hdiv : (length + ss - 1) / ss ≤ (remaining + ss - 1) / ss :=
        Nat.div_le_div_right (by omega)
      simp only at hge hlt
      omega
    · have htail := ih _ _ _ hseg
      have hsum := div_add_ceil_le hss hle
      exact ⟨Nat.le_trans (Nat.le_add_right _ _) htail.1, by omega⟩

/-- A transfer touches its first block. -/
theorem exists_first_lba {mts ss fuel remaining : ℕ} (hmts : 0 < mts) (hss : 0 < ss)
    (hfuel : 0 < fuel) (hrem : 0 < remaining) (bufferOffset lba : ℕ) :
    ∃ seg ∈ segmentLoop mts ss fuel remaining bufferOffset lba, lba ∈ seg.lbas ss := by
  obtain ⟨fuel, rfl⟩ := Nat.exists_eq_succ_of_ne_zero (ne_of_gt hfuel)
  rw [segmentLoop]
  dsimp only
  rw [if_neg (ne_of_gt hrem)]
  refine ⟨_, mem_cons_self, mem_range'_1.mpr ⟨Nat.le_refl _, ?_⟩⟩
  have hlen : 0 < min remaining mts := Nat.lt_min.mpr ⟨hrem, hmts⟩
  have hone : 1 ≤ (min remaining mts + ss - 1) / ss :=
    (Nat.le_div_iff_mul_le hss).mpr (by omega)
  show lba < lba + (min remaining mts + ss - 1) / ss
  omega

/-- **A transfer that ends inside a range** lies in it exactly if its first block does. -/
theorem segmentIo_inside_iff {start total mts ss base n : ℕ} {segs : List IoSegment}
    (h : segmentIo start total mts ss = some segs) (htotal : 0 < total)
    (hend : start + (total + ss - 1) / ss ≤ base + n) :
    (∀ seg ∈ segs, ∀ b ∈ seg.lbas ss, base ≤ b ∧ b < base + n) ↔ base ≤ start := by
  unfold segmentIo at h
  split_ifs at h with hzero
  cases h
  rw [not_or] at hzero
  have hmts := pos_of_ne_zero hzero.1
  have hss := pos_of_ne_zero hzero.2
  constructor
  · intro hall
    obtain ⟨seg, hseg, hmem⟩ := exists_first_lba hmts hss htotal htotal 0 start
    exact (hall seg hseg start hmem).1
  · intro hbase seg hseg b hb
    have hb := segmentLoop_lbas hss _ _ _ _ hseg hb
    omega

/-- Commands of at most `mts` bytes, one after the other from `first` to `last`, each as many bytes
after `base` on the device as it is in the buffer. -/
def Tiled (mts ss base : ℕ) : ℕ → ℕ → List IoSegment → Prop
  | first, last, [] => first = last
  | first, last, seg :: segs => seg.bufferOffset = first ∧ 0 < seg.length ∧ seg.length ≤ mts ∧
      seg.lba * ss = base + first ∧ Tiled mts ss base (first + seg.length) last segs

/-- **The commands of a transfer of whole blocks tile it.** -/
theorem segmentLoop_tiled {mts ss base : ℕ} (hmts : 0 < mts) (hdvd : ss ∣ mts)
    {fuel remaining bufferOffset lba : ℕ} (hfuel : remaining ≤ fuel) (hrem : ss ∣ remaining)
    (hlba : lba * ss = base + bufferOffset) :
    Tiled mts ss base bufferOffset (bufferOffset + remaining)
      (segmentLoop mts ss fuel remaining bufferOffset lba) := by
  induction fuel generalizing remaining bufferOffset lba with
  | zero =>
    obtain rfl := Nat.le_zero.mp hfuel
    rfl
  | succ fuel ih =>
    rw [segmentLoop]
    split_ifs with hzero
    · rw [hzero]
      rfl
    · have hpos : 0 < min remaining mts := Nat.lt_min.mpr ⟨pos_of_ne_zero hzero, hmts⟩
      have hlen : ss ∣ min remaining mts := by
        rcases min_choice remaining mts with h | h <;> rw [h] <;> assumption
      have htail := @ih (remaining - min remaining mts) (bufferOffset + min remaining mts)
        (lba + min remaining mts / ss) (by omega) (Nat.dvd_sub hrem hlen)
        (by rw [add_mul, hlba, Nat.div_mul_cancel hlen, add_assoc])
      rw [add_assoc, Nat.add_sub_of_le (min_le_left _ _)] at htail
      exact ⟨rfl, hpos, min_le_right _ _, hlba, htail⟩

section Tiled

variable {mts ss base first last : ℕ} {segs : List IoSegment}
  (h : Tiled mts ss base first last segs)
include h

theorem Tiled.bounds : first ≤ last ∧ ∀ seg ∈ segs, first ≤ seg.bufferOffset ∧
    seg.bufferOffset + seg.length ≤ last ∧ seg.lba * ss = base + seg.bufferOffset := by
  induction segs generalizing first with
  | nil => exact ⟨h.le, nofun⟩
  | cons seg segs ih =>
    obtain ⟨rfl, -, -, hlba, htail⟩ := h
    obtain ⟨hle, hrest⟩ := ih htail
    refine ⟨by omega, forall_mem_cons.mpr ⟨⟨le_rfl, hle, hlba⟩, fun s hs => ?_⟩⟩
    exact ⟨by have := (hrest s hs).1; omega, (hrest s hs).2⟩

/-- Every byte is in one of the commands. -/
theorem Tiled.covers {i : ℕ} (hge : first ≤ i) (hlt : i < last) :
    ∃ seg ∈ segs, seg.bufferOffset ≤ i ∧ i < seg.bufferOffset + seg.length := by
  induction segs generalizing first with
  | nil => exact absurd (h ▸ hlt) (Nat.not_lt.mpr hge)
  | cons seg segs ih =>
    obtain ⟨rfl, -, -, -, htail⟩ := h
    by_cases hfirst : i < seg.bufferOffset + seg.length
    · exact ⟨seg, mem_cons_self, hge, hfirst⟩
    · obtain ⟨s, hs, hin⟩ := ih htail (Nat.not_lt.mp hfirst)
      exact ⟨s, mem_cons_of_mem _ hs, hin⟩

end Tiled

/-! ## Reading a transfer -/

/-- A segment lands in a buffer. -/
def land (blockSize : ℕ) (data buffer : ℕ → UInt8) (seg : IoSegment) : ℕ → UInt8 := fun i =>
  if seg.bufferOffset ≤ i ∧ i < seg.bufferOffset + nextMultipleOf seg.length blockSize then
    data (seg.lba * blockSize + (i - seg.bufferOffset))
  else buffer i

variable {blockSize : ℕ} {data : ℕ → UInt8}

/-- Segments that all lie where they belong fill the bytes they cover. -/
theorem foldl_land {start i : ℕ} (segs : List IoSegment)
    (haligned : ∀ seg ∈ segs, seg.lba * blockSize = start + seg.bufferOffset)
    (buffer : ℕ → UInt8)
    (h : buffer i = data (start + i) ∨ ∃ seg ∈ segs, seg.bufferOffset ≤ i ∧
      i < seg.bufferOffset + nextMultipleOf seg.length blockSize) :
    segs.foldl (land blockSize data) buffer i = data (start + i) := by
  induction segs generalizing buffer with
  | nil =>
    rcases h with h | ⟨seg, hseg, -⟩
    · exact h
    · exact nomatch hseg
  | cons seg segs ih =>
    refine ih (fun seg' hseg' => haligned seg' (mem_cons_of_mem _ hseg')) _ ?_
    have hseg := haligned seg (mem_cons_self ..)
    by_cases hin : seg.bufferOffset ≤ i ∧
        i < seg.bufferOffset + nextMultipleOf seg.length blockSize
    · left
      rw [land, if_pos hin, hseg]
      congr 1
      omega
    · rcases h with h | ⟨seg', hseg', hin'⟩
      · left
        rw [land, if_neg hin, h]
      · rcases mem_cons.mp hseg' with rfl | hseg'
        · exact absurd hin' hin
        · exact .inr ⟨seg', hseg', hin'⟩

theorem foldl_land_of_le {i : ℕ} (segs : List IoSegment) (buffer : ℕ → UInt8)
    (h : ∀ seg ∈ segs, seg.bufferOffset + nextMultipleOf seg.length blockSize ≤ i) :
    segs.foldl (land blockSize data) buffer i = buffer i := by
  induction segs generalizing buffer with
  | nil => rfl
  | cons seg segs ih =>
    obtain ⟨hseg, htail⟩ := forall_mem_cons.mp h
    rw [foldl_cons, ih _ htail, land, if_neg (by omega)]

section Segments

variable {start total mts : ℕ} {segs : List IoSegment} (hblock : 0 < blockSize)
include hblock

/-- **Segments in any order read what one contiguous command reads.** -/
theorem foldl_segments (htotal : blockSize ∣ total) (buffer : ℕ → UInt8)
    {order : List IoSegment} (hperm : order.Perm segs)
    (htiled : Tiled mts blockSize (start * blockSize) 0 total segs) :
    order.foldl (land blockSize data) buffer = land blockSize data buffer ⟨0, start, total⟩ := by
  have hbounds := fun seg hseg => htiled.bounds.2 seg (hperm.subset hseg)
  funext i
  rw [land]
  dsimp only
  rw [zero_add, Nat.sub_zero]
  split_ifs with hi
  · have hround : nextMultipleOf total blockSize ≤ total :=
      Nat.le_of_lt_add_of_dvd (nextMultipleOf_spec hblock).2.2 (nextMultipleOf_spec hblock).1 htotal
    obtain ⟨seg, hseg, hge, hlt⟩ := htiled.covers hi.1 (by omega)
    have hlength : seg.length ≤ nextMultipleOf seg.length blockSize :=
      (nextMultipleOf_spec hblock).2.1
    exact foldl_land order (fun seg hseg => (hbounds seg hseg).2.2) _
      (.inr ⟨seg, hperm.symm.subset hseg, hge, by omega⟩)
  · have hround : total ≤ nextMultipleOf total blockSize := (nextMultipleOf_spec hblock).2.1
    refine foldl_land_of_le order _ fun seg hseg => ?_
    -- the last segment ends with a block
    obtain ⟨-, hend, hlba⟩ := hbounds seg hseg
    obtain ⟨hmul, -, hlt⟩ := nextMultipleOf_spec (n := seg.length) hblock
    have hoffset : blockSize ∣ seg.bufferOffset :=
      (Nat.dvd_add_right (Nat.dvd_mul_left _ _)).mp (hlba ▸ Nat.dvd_mul_left _ _)
    have hle : seg.bufferOffset + nextMultipleOf seg.length blockSize ≤ total :=
      Nat.le_of_lt_add_of_dvd (by omega) (Nat.dvd_add hoffset hmul) htotal
    omega

/-- **Segmentation.** The segments tile the transfer in order, each starts on the device where its
bytes are, block addresses stay 64-bit words, and read in any order they are one contiguous read. -/
theorem segmentIo_contiguous (hmts : 0 < mts) (hdvd : blockSize ∣ mts)
    (htotal : blockSize ∣ total) (hwords : start * blockSize + total < 2 ^ 64) :
    ∃ segs, segmentIo start total mts blockSize = some segs ∧
      Tiled mts blockSize (start * blockSize) 0 total segs ∧
      (∀ seg ∈ segs, seg.lba + seg.length / blockSize < 2 ^ 64) ∧
      ∀ order : List IoSegment, order.Perm segs → ∀ buffer,
        order.foldl (land blockSize data) buffer = land blockSize data buffer ⟨0, start, total⟩ := by
  have htiled := segmentLoop_tiled hmts hdvd (Nat.le_refl total) htotal (add_zero (start * _)).symm
  rw [zero_add] at htiled
  refine ⟨_, if_neg (by omega), htiled, fun seg hseg => lt_of_le_of_lt ?_ hwords,
    fun order horder buffer => foldl_segments hblock htotal buffer horder htiled⟩
  obtain ⟨-, hend, hlba⟩ := htiled.bounds.2 seg hseg
  calc seg.lba + seg.length / blockSize
      ≤ seg.lba * blockSize + seg.length :=
        Nat.add_le_add (Nat.le_mul_of_pos_right _ hblock) (Nat.div_le_self _ _)
    _ ≤ start * blockSize + total := by omega

end Segments

theorem segmentIo_contiguous_sample :
    ∃ segs, segmentIo 3 1536 1024 512 = some segs ∧ Tiled 1024 512 1536 0 1536 segs := by
  obtain ⟨segs, hsegs, htiled, -⟩ := @segmentIo_contiguous 512 (fun _ => 0) 3 1536 1024
    (by decide) (by decide) (by decide) (by decide) (by decide)
  exact ⟨segs, hsegs, htiled⟩

end Certus.Dispatcher
