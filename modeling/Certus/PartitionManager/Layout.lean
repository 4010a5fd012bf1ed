import Mathlib.Data.List.Basic
import Mathlib.Data.UInt
import Mathlib.Tactic.Linarith

/-! # The partition table layout

`gpt.rs`: how `write_gpt` cuts a device into partitions. All arithmetic is that of the source, on
64-bit words.

* **`GptManager.partition_usable`** — a partition with sectors lies between the two tables.
* **`GptManager.partitions_ordered`** — and behind the partitions before it. -/

namespace Certus.PartitionManager

open List
open UInt64 (ofNat toNat toNat_sub_of_le le_iff_toNat_le toNat_add)

/-- The errors of the partition manager. -/
inductive PartitionTableError
  | noPartitionTable (msg : String)
  | corruptTable (msg : String)
  | invalidPartition (msg : String)
  | ioError (msg : String)
  | layoutError (msg : String)
  | notInitialized (msg : String)
  deriving DecidableEq, Repr

def PartitionTableError.toString : PartitionTableError → String
  | .noPartitionTable msg => "no partition table: " ++ msg
  | .corruptTable msg => "corrupt partition table: " ++ msg
  | .invalidPartition msg => "invalid partition: " ++ msg
  | .ioError msg => "partition I/O error: " ++ msg
  | .layoutError msg => "partition layout error: " ++ msg
  | .notInitialized msg => "not initialized: " ++ msg

/-- A requested partition; `sizeBytes = 0` asks for the rest of the device. -/
structure PartitionSpec where
  typeGuid : List UInt8
  sizeBytes : UInt64
  name : String
  deriving DecidableEq, Repr

/-- An entry of the partition table. -/
structure GptEntry where
  typeGuid : List UInt8
  startingLba : UInt64
  endingLba : UInt64
  name : String
  deriving DecidableEq, Repr

open GptEntry

/-- A partition as callers see it. -/
structure PartitionInfo where
  index : ℕ
  startLba : UInt64
  numSectors : UInt64
  typeGuid : List UInt8
  name : String
  deriving DecidableEq, Repr

/-- The type of an unused entry. -/
def zeroGuid : List UInt8 := List.replicate 16 0

/-- The unused entry. -/
def GptEntry.unused : GptEntry := ⟨zeroGuid, 0, 0, ""⟩

/-- The number of sectors of an entry. -/
def GptEntry.numSectors (e : GptEntry) : UInt64 := e.endingLba - e.startingLba + 1

def gptMaxEntries : ℕ := 128

def gptEntrySize : ℕ := 128

/-- `u64::div_ceil`. -/
def divCeil (a b : UInt64) : UInt64 := a / b + if a % b = 0 then 0 else 1

/-- A device: its sector size, which is not zero, and its number of sectors. -/
structure GptManager where
  sectorSize : UInt32
  numSectors : UInt64
  deriving DecidableEq, Repr

namespace GptManager

section

variable (g : GptManager)

/-- The sectors of one array of partition entries. -/
def entrySectors : ℕ :=
  (gptMaxEntries * gptEntrySize + g.sectorSize.toNat - 1) / g.sectorSize.toNat

def firstUsableLba : UInt64 := 2 + ofNat g.entrySectors

def lastUsableLba : UInt64 := g.numSectors - 1 - ofNat g.entrySectors - 1

/-- The sectors of a partition of a fixed size. -/
def specSectors (spec : PartitionSpec) : UInt64 :=
  divCeil spec.sizeBytes g.sectorSize.toUInt64

/-- The loop of `compute_partition_layout` over the requested partitions. -/
def layoutEntries (g : GptManager) (restSectors : UInt64) :
    List PartitionSpec → UInt64 → UInt64 → Except PartitionTableError (List GptEntry)
  | [], _, _ => .ok []
  | spec :: specs, currentLba, remaining =>
    let numSectors := if spec.sizeBytes = 0 then restSectors else g.specSectors spec
    if numSectors > remaining then
      .error (.layoutError ("partition '" ++ spec.name ++ "' requires " ++ toString numSectors ++
        " sectors but only " ++ toString remaining ++ " remain"))
    else
      let endingLba := currentLba + numSectors - 1
      (layoutEntries g restSectors specs (endingLba + 1) (remaining - numSectors)).map fun es =>
        ⟨spec.typeGuid, currentLba, endingLba, spec.name⟩ :: es

/-- The entries of the partition table, filled up with unused ones. -/
def computePartitionLayout (specs : List PartitionSpec)
    (firstUsableLba lastUsableLba : UInt64) : Except PartitionTableError (List GptEntry) :=
  let totalUsable := lastUsableLba - firstUsableLba + 1
  if (specs.filter fun p => p.sizeBytes = 0).length > 1 then
    .error (.layoutError "at most one partition may use size_bytes=0 (rest of disk)")
  else
    let fixedSectors := ((specs.filter fun p => p.sizeBytes > 0).map g.specSectors).sum
    if fixedSectors > totalUsable then
      .error (.layoutError ("partitions require " ++ toString fixedSectors ++
        " sectors but only " ++ toString totalUsable ++ " usable"))
    else
      (g.layoutEntries (totalUsable - fixedSectors) specs firstUsableLba totalUsable).map fun es =>
        es ++ List.replicate (gptMaxEntries - es.length) unused

/-- The partitions of a list of entries. -/
def partitionInfos (entries : List GptEntry) : List PartitionInfo :=
  (entries.zipIdx.filter fun e => e.1.typeGuid != zeroGuid).map fun e =>
    ⟨e.2, e.1.startingLba, e.1.numSectors, e.1.typeGuid, e.1.name⟩

/-- The partitions that `write_gpt` lays out and returns. -/
def partitions (specs : List PartitionSpec) : Except PartitionTableError (List PartitionInfo) :=
  if g.firstUsableLba ≥ g.lastUsableLba then .error (.layoutError "device too small for GPT")
  else (g.computePartitionLayout specs g.firstUsableLba g.lastUsableLba).map partitionInfos

end

/-! ## Where partitions start -/

variable {g : GptManager}

theorem numSectors_of_layout (guid : List UInt8) (current n : UInt64) (name : String) :
    GptEntry.numSectors ⟨guid, current, current + n - 1, name⟩ = n := by
  simp only [GptEntry.numSectors]
  grind

variable {current remaining rest : UInt64} {es : List GptEntry} {specs : List PartitionSpec}
  {ps : List PartitionInfo}

/-- One iteration: the partition fits, and the next one starts behind it. -/
theorem layoutEntries_cons {spec : PartitionSpec}
    (h : g.layoutEntries rest (spec :: specs) current remaining = .ok es) :
    ∃ n tail, n.toNat ≤ remaining.toNat ∧
      g.layoutEntries rest specs (current + n) (remaining - n) = .ok tail ∧
      es = ⟨spec.typeGuid, current, current + n - 1, spec.name⟩ :: tail := by
  rw [layoutEntries] at h
  dsimp only at h
  generalize (if spec.sizeBytes = 0 then rest else g.specSectors spec) = n at h
  split_ifs at h with hn
  rw [gt_iff_lt, UInt64.lt_iff_toNat_lt, Nat.not_lt] at hn
  rw [UInt64.sub_add_cancel] at h
  cases hrest : g.layoutEntries rest specs (current + n) (remaining - n) with
  | error e =>
    rw [hrest] at h
    cases h
  | ok tail =>
    rw [hrest] at h
    cases h
    exact ⟨n, tail, hn, hrest, rfl⟩

/-- Without sectors left, all partitions are empty. -/
theorem numSectors_eq_zero (h : g.layoutEntries rest specs current 0 = .ok es) :
    ∀ e ∈ es, e.numSectors = 0 := by
  induction specs generalizing current es with
  | nil =>
    cases h
    intro e he
    cases he
  | cons spec specs ih =>
    obtain ⟨n, tail, hn, hrest, rfl⟩ := layoutEntries_cons h
    have hzero : n = 0 := toNat.inj (Nat.eq_zero_of_le_zero hn)
    subst hzero
    intro e he
    rcases mem_cons.mp he with rfl | he
    · exact numSectors_of_layout _ _ _ _
    · exact ih hrest e he

/-- **Partitions lie in the usable sectors and follow one another**, in the loop over them. Only an
empty one can come after the last sector number, where the sum wraps around. -/
theorem layoutEntries_ordered (hroom : current.toNat + remaining.toNat ≤ 2 ^ 64)
    (h : g.layoutEntries rest specs current remaining = .ok es) :
    (∀ e ∈ es, e.numSectors ≠ 0 → current.toNat ≤ e.startingLba.toNat ∧
        e.startingLba.toNat + e.numSectors.toNat ≤ current.toNat + remaining.toNat) ∧
      es.Pairwise fun a b => b.numSectors ≠ 0 →
        a.startingLba.toNat + a.numSectors.toNat ≤ b.startingLba.toNat := by
  induction specs generalizing current remaining es with
  | nil =>
    cases h
    exact ⟨nofun, List.Pairwise.nil⟩
  | cons spec specs ih =>
    obtain ⟨n, tail, hn, hrest, rfl⟩ := layoutEntries_cons h
    have hsub : (remaining - n).toNat = remaining.toNat - n.toNat :=
      toNat_sub_of_le _ _ (le_iff_toNat_le.mpr hn)
    have hle : (current + n).toNat ≤ current.toNat + n.toNat := Nat.mod_le _ _
    obtain ⟨hstart, hpairs⟩ := ih (by omega) hrest
    have hnext : ∀ e ∈ tail, e.numSectors ≠ 0 →
        current.toNat + n.toNat ≤ e.startingLba.toNat ∧
          e.startingLba.toNat + e.numSectors.toNat ≤ current.toNat + remaining.toNat := by
      intro e he hne
      by_cases hwrap : current.toNat + n.toNat < 2 ^ 64
      · have hsum : (current + n).toNat = current.toNat + n.toNat := by
          rw [toNat_add, Nat.mod_eq_of_lt hwrap]
        have := hstart e he hne
        omega
      · -- the partition takes all that is left
        have hnone : remaining - n = 0 := toNat.inj (by
          show _ = 0
          omega)
        rw [hnone] at hrest
        exact absurd (numSectors_eq_zero hrest e he) hne
    refine ⟨forall_mem_cons.mpr ⟨fun _ => ⟨le_rfl, ?_⟩, fun e he hne => ?_⟩,
      pairwise_cons.mpr ⟨fun e he hne => ?_, hpairs⟩⟩
    · rw [numSectors_of_layout]
      exact Nat.add_le_add_left hn _
    · have := hnext e he hne
      omega
    · rw [numSectors_of_layout]
      exact (hnext e he hne).1

/-- What `write_gpt` accepts: the usable sectors, and the entries of the loop over them. -/
theorem partitions_ok (hsmall : g.entrySectors + 2 < 2 ^ 64) (h : g.partitions specs = .ok ps) :
    ∃ rest total es, g.firstUsableLba.toNat = 2 + g.entrySectors ∧
      g.firstUsableLba.toNat + total.toNat = g.lastUsableLba.toNat + 1 ∧
      g.layoutEntries rest specs g.firstUsableLba total = .ok es ∧
      ps = partitionInfos (es ++ List.replicate (gptMaxEntries - es.length) unused) := by
  unfold partitions at h
  split_ifs at h with hfit
  have hfirst : g.firstUsableLba.toNat = 2 + g.entrySectors := by
    rw [firstUsableLba, toNat_add, UInt64.toNat_ofNat',
      Nat.mod_eq_of_lt (show g.entrySectors < 2 ^ 64 by omega)]
    exact Nat.mod_eq_of_lt (by rw [show (2 : UInt64).toNat = 2 from rfl]; omega)
  rw [ge_iff_le, le_iff_toNat_le, Nat.not_le] at hfit
  cases hlay : g.computePartitionLayout specs g.firstUsableLba g.lastUsableLba with
  | error e =>
    rw [hlay] at h
    cases h
  | ok entries =>
    rw [hlay] at h
    cases h
    have hspan : (g.lastUsableLba - g.firstUsableLba).toNat
        = g.lastUsableLba.toNat - g.firstUsableLba.toNat :=
      toNat_sub_of_le _ _ (le_iff_toNat_le.mpr (Nat.le_of_lt hfit))
    have hlast := g.lastUsableLba.toNat_lt
    have htotal : (g.lastUsableLba - g.firstUsableLba + 1).toNat
        = g.lastUsableLba.toNat - g.firstUsableLba.toNat + 1 := by
      rw [toNat_add, hspan]
      exact Nat.mod_eq_of_lt (by rw [show (1 : UInt64).toNat = 1 from rfl]; omega)
    unfold computePartitionLayout at hlay
    dsimp only at hlay
    split_ifs at hlay with hrest hfixed
    generalize hloop : g.layoutEntries _ specs g.firstUsableLba _ = v at hlay
    cases v with
    | error e => cases hlay
    | ok es =>
      cases hlay
      exact ⟨_, _, es, hfirst, by rw [htotal]; omega, hloop, rfl⟩

/-- The partitions that callers see are entries of the loop. -/
theorem mem_partitionInfos {k : ℕ} {p : PartitionInfo}
    (hp : p ∈ partitionInfos (es ++ List.replicate k unused)) :
    ∃ e ∈ es, p.startLba = e.startingLba ∧ p.numSectors = e.numSectors := by
  obtain ⟨⟨e, i⟩, he, rfl⟩ := mem_map.mp hp
  obtain ⟨hmem, hguid⟩ := mem_filter.mp he
  have hmem' : e ∈ es ++ List.replicate k unused :=
    (mem_zipIdx' hmem).2 ▸ getElem_mem _
  rcases mem_append.mp hmem' with hin | hpad
  · exact ⟨e, hin, rfl, rfl⟩
  · rw [eq_of_mem_replicate hpad] at hguid
    exact absurd hguid (by simp [unused])

variable (hsmall : g.entrySectors + 2 < 2 ^ 64) (h : g.partitions specs = .ok ps)
include hsmall h

/-- **A partition with sectors lies between the two tables.** -/
theorem partition_usable : ∀ p ∈ ps, p.numSectors ≠ 0 → 2 + g.entrySectors ≤ p.startLba.toNat ∧
    p.startLba.toNat + p.numSectors.toNat ≤ g.lastUsableLba.toNat + 1 := by
  obtain ⟨rest, total, es, hfirst, hroom, hloop, rfl⟩ := partitions_ok hsmall h
  intro p hp hne
  obtain ⟨e, he, hstart, hnum⟩ := mem_partitionInfos hp
  have hlast := g.lastUsableLba.toNat_lt
  rw [hstart, hnum, ← hfirst, ← hroom]
  exact (layoutEntries_ordered (by omega) hloop).1 e he (hnum ▸ hne)

/-- **Partitions follow one another.** -/
theorem partitions_ordered : ps.Pairwise fun p q => q.numSectors ≠ 0 →
      p.startLba.toNat + p.numSectors.toNat ≤ q.startLba.toNat := by
  obtain ⟨rest, total, es, hfirst, hroom, hloop, rfl⟩ := partitions_ok hsmall h
  have hlast := g.lastUsableLba.toNat_lt
  have hes := (layoutEntries_ordered (by omega) hloop).2
  -- unused entries have no sectors in front of them and are not listed
  have hfilter : (es ++ List.replicate (gptMaxEntries - es.length) unused).zipIdx.filter
      (fun e => e.1.typeGuid != zeroGuid) = es.zipIdx.filter fun e => e.1.typeGuid != zeroGuid := by
    have hpad : ((List.replicate (gptMaxEntries - es.length) unused).zipIdx
        (0 + es.length)).filter (fun e => e.1.typeGuid != zeroGuid) = [] := by
      refine filter_eq_nil_iff.mpr fun e he => ?_
      rw [(mem_zipIdx he).2.2]
      simp [unused]
    rw [zipIdx_append, filter_append, hpad, append_nil]
  rw [partitionInfos, hfilter, pairwise_map]
  refine List.Pairwise.filter _ ?_
  have hmap : es.zipIdx.map Prod.fst = es := zipIdx_map_fst _ _
  rw [← hmap, pairwise_map] at hes
  exact hes

end GptManager

end Certus.PartitionManager
