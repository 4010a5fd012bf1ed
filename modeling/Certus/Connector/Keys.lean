import Mathlib.Data.List.Nodup
import Mathlib.Tactic.Ring
import Mathlib.Tactic.Linarith

/-! # Keys of the connector

`certus-shmq-connector`, `mediums.py` and `manager.py`: the vLLM connector stores a block as one shard
for each rank, and asks the server about all shards of a list of blocks in one request. -/

namespace Certus.Connector

open List

/-- `ns_key`: the rank in the highest 8 of 64 bits, unless there is only one rank. -/
def nsKey (key rank worldSize : ℕ) : ℕ :=
  if worldSize ≤ 1 then key else key % 2 ^ 56 + rank % 256 * 2 ^ 56

/-- `_ns_all` -/
def nsAll (worldSize key : ℕ) : List ℕ := (List.range worldSize).map (nsKey key · worldSize)

theorem length_nsAll (w key : ℕ) : (nsAll w key).length = w := by
  rw [nsAll, length_map, length_range]

theorem mem_nsAll {w key shard : ℕ} : shard ∈ nsAll w key ↔ ∃ r < w, nsKey key r w = shard := by
  simp [nsAll]

/-- Blocks that differ in their low 56 bits share no shard, and ranks share none either. -/
theorem nsKey_inj {w key key' r r' : ℕ} (hw : w ≤ 256) (hr : r < w) (hr' : r' < w)
    (heq : nsKey key r w = nsKey key' r' w) : key % 2 ^ 56 = key' % 2 ^ 56 ∧ r = r' := by
  unfold nsKey at heq
  split_ifs at heq with hone
  · exact ⟨by rw [heq], by omega⟩
  · omega

theorem nodup_nsAll {w : ℕ} (hw : w ≤ 256) (key : ℕ) : (nsAll w key).Nodup :=
  (nodup_map_iff_inj_on nodup_range).mpr fun _ hr _ hr' heq =>
    (nsKey_inj hw (mem_range.mp hr) (mem_range.mp hr') heq).2

/-- The shards of blocks that differ in their low 56 bits are all different. -/
theorem nodup_flatMap_nsAll {w : ℕ} (hw : w ≤ 256) {keys : List ℕ}
    (hkeys : (keys.map (· % 2 ^ 56)).Nodup) : (keys.flatMap (nsAll w)).Nodup := by
  refine nodup_flatMap.mpr ⟨fun key _ => nodup_nsAll hw key, ?_⟩
  refine (pairwise_map.mp hkeys).imp fun hne => disjoint_left.mpr fun shard hs hs' => ?_
  obtain ⟨r, hr, rfl⟩ := mem_nsAll.mp hs
  obtain ⟨r', hr', heq⟩ := mem_nsAll.mp hs'
  exact hne (nsKey_inj hw hr hr' heq.symm).1

/-- Each key with its `w` answers. -/
def chunks {α β : Type*} (w : ℕ) : List α → List β → List (α × List β)
  | [], _ => []
  | key :: keys, answers => (key, answers.take w) :: chunks w keys (answers.drop w)

/-- The answers to the shards of the blocks, in order, are cut into those of each block. -/
theorem chunks_flatMap {α β γ : Type*} {w : ℕ} {shards : α → List β} (hw : ∀ k, (shards k).length = w)
    (f : β → γ) (keys : List α) :
    chunks w keys ((keys.flatMap shards).map f) = keys.map fun k => (k, (shards k).map f) := by
  induction keys with
  | nil => rfl
  | cons k keys ih =>
    have hlen : ((shards k).map f).length = w := by rw [length_map, hw]
    rw [flatMap_cons, map_append, chunks, take_left' hlen, drop_left' hlen, ih]
    rfl

end Certus.Connector
