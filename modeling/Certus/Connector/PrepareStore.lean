import Certus.Connector.Keys

/-! # Preparing a store

`certus-shmq-connector`, `manager.py`, `prepare_store`, with the server's side of it in
`shmq-dispatcher`, `translate.rs`, and `dispatcher`, `evict_and_insert`: the connector asks which
blocks the server has, reserves the shards of the others, and gives up the blocks of which it did not
get every shard. -/

namespace Certus.Connector

open List Option

/-- What the server has of a shard: a reservation, a slot in the memory tier, and an entry in the
dispatch map. -/
structure Shard where
  pending : Bool
  tier : Bool
  mapped : Bool

/-- The states in which `Check` reports a shard. -/
inductive CheckState where
  | miss
  | resident
  | pending
  deriving DecidableEq

def Shard.state (s : Shard) : CheckState :=
  if s.pending then .pending else if s.mapped then .resident else .miss

abbrev Server := ℕ → Shard

/-- How the server fares while it makes room: whether the slot of a shard was demoted for an earlier
reservation by the time the shard has its turn, and whether there is room for a shard. -/
structure Pressure where
  demoted : ℕ → Bool
  room : ℕ → Bool

namespace Server

variable (s : Server) (p : Pressure)

/-- `op_check`; a request with a key twice is refused. -/
def opCheck (keys : List ℕ) : Option (List CheckState) :=
  if keys.Nodup then some (keys.map fun k => (s k).state) else none

/-- The shard has a slot when its turn comes; that of a reservation cannot be demoted. -/
def hasSlot (key : ℕ) : Bool :=
  (s key).tier && !(p.demoted key && !(s key).pending)

/-- `reserve_memory`, `evict_and_insert`: a shard with a slot is refused before any other is evicted. -/
def reserveMemory (key : ℕ) : Bool := !s.hasSlot p key && p.room key

/-- The entry after its turn. -/
def afterReserve (key : ℕ) : Shard :=
  if s.reserveMemory p key then { s key with pending := true, tier := true }
  else { s key with tier := s.hasSlot p key }

def set (key : ℕ) (e : Shard) : Server := fun k => if k = key then e else s k

/-- The loop of `op_reserve`. -/
def reserveAll (p : Pressure) : Server → List ℕ → List Bool × Server
  | s, [] => ([], s)
  | s, key :: keys =>
    let rest := reserveAll p (s.set key (s.afterReserve p key)) keys
    (s.reserveMemory p key :: rest.1, rest.2)

/-- `op_reserve` -/
def opReserve (keys : List ℕ) : Option (List Bool × Server) :=
  if keys.Nodup then some (reserveAll p s keys) else none

/-- `op_abort_store`, `release_memory` -/
def opAbortStore (keys : List ℕ) : Option Server :=
  if keys.Nodup then
    some (keys.foldl (fun s k => s.set k { s k with pending := false, tier := false }) s) else none

end Server

variable {κ : Type} {fold : κ → ℕ} {w : ℕ} {keys : List κ} {s s' : Server} {p : Pressure}

/-- `_check_all_present`: the blocks all of whose shards are there or coming. -/
def checkAllPresent (s : Server) (w : ℕ) (keys : List ℕ) : Option (List (ℕ × Bool)) :=
  if keys = [] then some [] else
    (s.opCheck (keys.flatMap (nsAll w))).map fun states =>
      (chunks w keys states).map fun c => (c.1, c.2.length = w && c.2.all (· ≠ .miss))

section

variable (fold : κ → ℕ)

/-- The blocks with all shards reserved, and the shards that were reserved of others. -/
def sortOut (w : ℕ) (toStore : List κ) (flags : List Bool) : List κ × List ℕ :=
  let answers := chunks w toStore flags
  let ok : κ × List Bool → Bool := fun c => c.2.length = w && c.2.all id
  ((answers.filter ok).map (·.1), (answers.filter (!ok ·)).flatMap fun c =>
    ((nsAll w (fold c.1)).zip c.2).filterMap fun x => if x.2 then some x.1 else none)

/-- `prepare_store`: the blocks to store, and the server after it. -/
def prepareStore (w : ℕ) (s : Server) (p : Pressure) (keys : List κ) :
    Option (List κ × Server) := do
  let present ← checkAllPresent s w (keys.map fold)
  let toStore := keys.filter fun k => !(present.lookup (fold k)).getD false
  if toStore.isEmpty then return ([], s)
  let (flags, s) ← s.opReserve p ((toStore.map fold).flatMap (nsAll w))
  let (stored, orphans) := sortOut fold w toStore flags
  return (stored, if orphans.isEmpty then s else (s.opAbortStore orphans).getD s)

/-- The server lacks the shard. -/
def Lacks (s : Server) (shard : ℕ) : Prop := (s shard).state = .miss

/-- The server refuses the shard for lack of room. -/
def NoRoom (s : Server) (p : Pressure) (shard : ℕ) : Prop :=
  s.hasSlot p shard = false ∧ p.room shard = false

/-- What the connector promises about the blocks it was given, the ones it returns and the server
before and after. -/
structure Covers (fold : κ → ℕ) (w : ℕ) (s : Server) (p : Pressure) (keys stored : List κ)
    (s' : Server) : Prop where
  order : stored.Sublist keys
  reserved : ∀ k ∈ stored, ∀ shard ∈ nsAll w (fold k),
    s.reserveMemory p shard ∧ (s' shard).pending
  rolledBack : ∀ k ∈ keys, k ∉ stored → ∀ shard ∈ nsAll w (fold k),
    ((s' shard).pending → (s shard).pending) ∧
      ((s' shard).tier → (s shard).tier)
  again : ∀ k ∈ keys, (∃ shard ∈ nsAll w (fold k), Lacks s shard) →
    (∀ shard ∈ nsAll w (fold k), (s shard).pending = false) →
      k ∈ stored ∨ ∃ shard ∈ nsAll w (fold k), NoRoom s p shard

/-- No block of which a shard is missing has another one in the memory tier, unless there is no room
for a shard of it. -/
def WhollyOut (w : ℕ) (s : Server) (p : Pressure) (keys : List κ) : Prop :=
  ∀ k ∈ keys, (∃ shard ∈ nsAll w (fold k), Lacks s shard) →
    (∀ shard ∈ nsAll w (fold k), (s shard).pending = false) →
      (∀ shard ∈ nsAll w (fold k), s.hasSlot p shard = false) ∨
        ∃ shard ∈ nsAll w (fold k), NoRoom s p shard

/-! ## The server's answers -/

theorem afterReserve_congr {t : Server} {k : ℕ} (h : t k = s k) :
    t.reserveMemory p k = s.reserveMemory p k ∧ t.afterReserve p k = s.afterReserve p k := by
  constructor
  · unfold Server.reserveMemory Server.hasSlot
    rw [h]
  · unfold Server.afterReserve Server.reserveMemory Server.hasSlot
    rw [h]

/-- Distinct shards are answered independently. -/
theorem reserveAll_eq (p : Pressure) {shards : List ℕ} (hnodup : shards.Nodup) (s : Server) :
    Server.reserveAll p s shards = (shards.map (s.reserveMemory p),
      fun k => if k ∈ shards then s.afterReserve p k else s k) := by
  induction shards generalizing s with
  | nil => rfl
  | cons key shards ih =>
    obtain ⟨hnot, hrest⟩ := nodup_cons.mp hnodup
    have hsame : ∀ k ∈ shards, s.set key (s.afterReserve p key) k = s k := fun k hk => by
      have hne : k ≠ key := fun heq => hnot (heq ▸ hk)
      rw [Server.set, if_neg hne]
    rw [Server.reserveAll, ih hrest]
    refine Prod.ext ?_ (funext fun k => ?_)
    · refine congrArg (_ :: ·) (map_congr_left fun k hk => ?_)
      exact (afterReserve_congr (hsame k hk)).1
    · dsimp only
      by_cases hk : k ∈ shards
      · rw [if_pos hk, if_pos (mem_cons_of_mem _ hk)]
        exact (afterReserve_congr (hsame k hk)).2
      · rw [if_neg hk, Server.set]
        by_cases heq : k = key
        · rw [if_pos heq, heq, if_pos mem_cons_self]
        · rw [if_neg heq, if_neg (fun hin => (mem_cons.mp hin).elim heq hk)]

theorem foldl_abort (shards : List ℕ) (s : Server) (k : ℕ) :
    shards.foldl (fun s k => s.set k { s k with pending := false, tier := false }) s k =
      if k ∈ shards then { s k with pending := false, tier := false } else s k := by
  induction shards generalizing s with
  | nil => rfl
  | cons key shards ih =>
    rw [foldl_cons, ih]
    by_cases hk : k ∈ shards <;> by_cases heq : k = key <;> simp [Server.set, hk, heq]

/-- The dictionary of answers has each key's own. -/
theorem lookup_map (g : ℕ → Bool) {keys : List ℕ} {k : ℕ} (hk : k ∈ keys) :
    (keys.map fun k => (k, g k)).lookup k = some (g k) := by
  induction keys with
  | nil => cases hk
  | cons key keys ih =>
    rw [map_cons, lookup_cons]
    by_cases heq : k = key
    · rw [heq, beq_self_eq_true]
    · rw [beq_false_of_ne heq]
      exact ih ((mem_cons.mp hk).resolve_left heq)

/-! ## What `prepare_store` does -/

/-- All shards of the block are there or coming. -/
def allPresent (s : Server) (w key : ℕ) : Bool := (nsAll w key).all fun shard => (s shard).state ≠ .miss

/-- All shards of the block are reserved. -/
def allReserved (s : Server) (p : Pressure) (w key : ℕ) : Bool := (nsAll w key).all (s.reserveMemory p)

theorem checkAllPresent_eq (hw : w ≤ 256) {keys : List ℕ} (hkeys : (keys.map (· % 2 ^ 56)).Nodup) :
    checkAllPresent s w keys = some (keys.map fun k => (k, allPresent s w k)) := by
  unfold checkAllPresent
  split_ifs with hempty
  · rw [hempty]; rfl
  · rw [Server.opCheck, if_pos (nodup_flatMap_nsAll hw hkeys), map_some,
      chunks_flatMap (length_nsAll w), List.map_map]
    refine congrArg some (map_congr_left fun k _ => ?_)
    simp [allPresent, length_nsAll, List.all_map, Function.comp_def]

/-- The blocks that are asked for. -/
def missing (w : ℕ) (s : Server) (keys : List κ) : List κ :=
  keys.filter fun k => !allPresent s w (fold k)

/-- The shards that are given back. -/
def orphans (w : ℕ) (s : Server) (p : Pressure) (keys : List κ) : List ℕ :=
  ((missing fold w s keys).filter fun k => !allReserved s p w (fold k)).flatMap fun k =>
    (nsAll w (fold k)).filter (s.reserveMemory p)

end

theorem filterMap_zip_map (f : ℕ → Bool) (l : List ℕ) :
    ((l.zip (l.map f)).filterMap fun x => if x.2 then some x.1 else none) = l.filter f := by
  induction l with
  | nil => rfl
  | cons a l ih =>
    rw [map_cons, zip_cons_cons, filterMap_cons, filter_cons, ih]
    cases f a <;> rfl

theorem flatMap_filter_sublist (q : κ → Bool) (g : κ → List ℕ) (f : ℕ → Bool) (l : List κ) :
    ((l.filter q).flatMap fun k => (g k).filter f).Sublist (l.flatMap g) := by
  induction l with
  | nil => exact List.Sublist.slnil
  | cons k l ih =>
    rw [filter_cons, flatMap_cons]
    split_ifs
    · exact filter_sublist.append ih
    · exact ih.trans (sublist_append_right _ _)

theorem sortOut_eq (f : ℕ → Bool) (l : List κ) :
    sortOut fold w l (((l.map fold).flatMap (nsAll w)).map f) =
      (l.filter fun k => (nsAll w (fold k)).all f,
        (l.filter fun k => !(nsAll w (fold k)).all f).flatMap fun k => (nsAll w (fold k)).filter f) := by
  have hanswers : chunks w l (((l.map fold).flatMap (nsAll w)).map f) =
      l.map fun k => (k, (nsAll w (fold k)).map f) := by
    rw [flatMap_map]
    exact chunks_flatMap (fun k => length_nsAll w (fold k)) _ _
  unfold sortOut
  rw [hanswers]
  simp [List.filter_map, flatMap_map, Function.comp_def, length_nsAll, filterMap_zip_map]

section

variable (hw : w ≤ 256) (hkeys : (keys.map (fold · % 2 ^ 56)).Nodup)
include hw hkeys

/-- **What `prepare_store` does**: it returns the missing blocks with all shards reserved, and gives
the reserved shards of the other missing blocks back. -/
theorem prepareStore_eq : ∃ s', prepareStore fold w s p keys =
        some ((missing fold w s keys).filter (fun k => allReserved s p w (fold k)), s') ∧
      ∀ k, s' k = if k ∈ orphans fold w s p keys then
          { s.afterReserve p k with pending := false, tier := false }
        else if k ∈ ((missing fold w s keys).map fold).flatMap (nsAll w) then s.afterReserve p k
        else s k := by
  have hints : ((keys.map fold).map (· % 2 ^ 56)).Nodup := by rwa [List.map_map]
  have hmissing : (((missing fold w s keys).map fold).map (· % 2 ^ 56)).Nodup := by
    rw [List.map_map]
    exact hkeys.sublist (filter_sublist.map _)
  have htoStore : (keys.filter fun k => !(((keys.map fold).map fun k =>
      (k, allPresent s w k)).lookup (fold k)).getD false) = missing fold w s keys :=
    filter_congr fun k hk => by
      rw [lookup_map _ (mem_map_of_mem hk)]
      rfl
  have hshards := nodup_flatMap_nsAll hw hmissing
  have hsub : (orphans fold w s p keys).Sublist
      (((missing fold w s keys).map fold).flatMap (nsAll w)) := by
    rw [flatMap_map]
    exact flatMap_filter_sublist ..
  unfold prepareStore
  rw [checkAllPresent_eq hw hints, bind_eq_bind, bind_some, htoStore]
  by_cases hempty : (missing fold w s keys).isEmpty
  · have hnil := isEmpty_iff.mp hempty
    refine ⟨s, by rw [if_pos hempty, hnil]; rfl, fun k => ?_⟩
    simp [orphans, hnil]
  · rw [if_neg hempty, Server.opReserve, if_pos hshards, reserveAll_eq p hshards]
    refine ⟨_, congrArg some (congrArg (fun x : List κ × List ℕ => (x.1,
      if x.2.isEmpty then (_ : Server) else (Server.opAbortStore _ x.2).getD _))
      (sortOut_eq (s.reserveMemory p) _)), fun k => ?_⟩
    change (if (orphans fold w s p keys).isEmpty then _ else
      ((Server.opAbortStore _ (orphans fold w s p keys)).getD _ : Server)) k = _
    by_cases hnone : (orphans fold w s p keys).isEmpty
    · have hnot : k ∉ orphans fold w s p keys := by
        rw [isEmpty_iff.mp hnone]
        exact not_mem_nil
      rw [if_pos hnone, if_neg hnot]
    · rw [if_neg hnone, Server.opAbortStore, if_pos (hshards.sublist hsub), getD_some, foldl_abort]
      by_cases hk : k ∈ orphans fold w s p keys
      · rw [if_pos hk, if_pos hk, if_pos (hsub.subset hk)]
      · rw [if_neg hk, if_neg hk]

/-- A shard belongs to one block of the list. -/
theorem eq_of_mem_nsAll {k k' : κ} (hk : k ∈ keys) (hk' : k' ∈ keys) {shard : ℕ} (hshard : shard ∈ nsAll w (fold k))
    (hshard' : shard ∈ nsAll w (fold k')) : k = k' := by
  obtain ⟨r, hr, rfl⟩ := mem_nsAll.mp hshard
  obtain ⟨r', hr', heq⟩ := mem_nsAll.mp hshard'
  exact inj_on_of_nodup_map hkeys hk hk' (nsKey_inj hw hr hr' heq.symm).1

theorem mem_orphans {k : κ} (hk : k ∈ keys) {shard : ℕ} (hshard : shard ∈ nsAll w (fold k)) :
    shard ∈ orphans fold w s p keys ↔ k ∈ missing fold w s keys ∧
      allReserved s p w (fold k) = false ∧ s.reserveMemory p shard := by
  constructor
  · intro hin
    obtain ⟨b, hb, hfilter⟩ := mem_flatMap.mp hin
    obtain ⟨hb, hnot⟩ := mem_filter.mp hb
    obtain ⟨hmem, hres⟩ := mem_filter.mp hfilter
    obtain rfl := eq_of_mem_nsAll hw hkeys hk (mem_of_mem_filter hb) hshard hmem
    exact ⟨hb, by simpa using hnot, hres⟩
  · rintro ⟨hmissing, hnot, hres⟩
    exact mem_flatMap.mpr ⟨k, mem_filter.mpr ⟨hmissing, by rw [hnot]; rfl⟩,
      mem_filter.mpr ⟨hshard, hres⟩⟩

end

/-- **A store covers all ranks of a block or none**, and passes over no block with a missing shard
exactly if no such block has another shard in the memory tier. -/
theorem store_covers_iff (hw : w ≤ 256) (hkeys : (keys.map (fold · % 2 ^ 56)).Nodup) :
    ∃ stored s', prepareStore fold w s p keys = some (stored, s') ∧
      (Covers fold w s p keys stored s' ↔ WhollyOut fold w s p keys) := by
  obtain ⟨s', heq, hs'⟩ := @prepareStore_eq κ fold w keys s p hw hkeys
  have hmem : ∀ k, k ∈ (missing fold w s keys).filter (fun k => allReserved s p w (fold k)) ↔
      k ∈ keys ∧ allPresent s w (fold k) = false ∧ allReserved s p w (fold k) := by
    intro k
    simp only [missing, mem_filter, Bool.not_eq_true', and_assoc]
  refine ⟨_, s', heq, fun h => ?_, fun hout => ?_⟩
  · intro k hk hlacks hpending
    refine (h.again k hk hlacks hpending).imp_left fun hin shard hshard => ?_
    have hres := (h.reserved k hin shard hshard).1
    rw [Server.reserveMemory, Bool.and_eq_true, Bool.not_eq_true'] at hres
    exact hres.1
  · refine ⟨filter_sublist.trans filter_sublist, fun k hk shard hshard => ?_,
      fun k hk hnot shard hshard => ?_, fun k hk hlacks hpending => ?_⟩
    · -- all shards of the block were reserved and none given back
      have hin := (mem_filter.mp hk).1
      obtain ⟨hkey, -, hall⟩ := (hmem k).mp hk
      have hres := all_eq_true.mp hall shard hshard
      refine ⟨hres, ?_⟩
      rw [hs', if_neg (fun hor => by
        rw [mem_orphans hw hkeys hkey hshard, hall] at hor
        cases hor.2.1), if_pos (mem_flatMap.mpr ⟨fold k, mem_map_of_mem hin, hshard⟩),
        Server.afterReserve, if_pos hres]
    · rw [hs']
      split
      · exact ⟨nofun, nofun⟩
      · rename_i hor
        split_ifs with hasked
        · -- the block was asked for, so its shard was refused
          obtain ⟨key, hkey, hshard'⟩ := mem_flatMap.mp hasked
          obtain ⟨b, hb, rfl⟩ := mem_map.mp hkey
          obtain rfl := eq_of_mem_nsAll hw hkeys hk (mem_of_mem_filter hb) hshard hshard'
          have hnotall : allReserved s p w (fold k) = false := by
            by_contra hall
            exact hnot (mem_filter.mpr ⟨hb, Bool.not_eq_false _ ▸ hall⟩)
          have hrefused : ¬ s.reserveMemory p shard := fun hres =>
            hor ((mem_orphans hw hkeys hk hshard).mpr ⟨hb, hnotall, hres⟩)
          rw [Server.afterReserve, if_neg hrefused]
          exact ⟨id, fun hslot => (Bool.and_eq_true_iff.mp hslot).1⟩
        · exact ⟨id, id⟩
    · refine or_iff_not_imp_right.mpr fun hroom => ?_
      have hfree := (hout k hk hlacks hpending).resolve_right hroom
      refine (hmem k).mpr ⟨hk, ?_, all_eq_true.mpr fun shard hshard => ?_⟩
      · obtain ⟨shard, hshard, hmiss⟩ := hlacks
        refine Bool.eq_false_iff.mpr fun hall => ?_
        exact of_decide_eq_true (all_eq_true.mp hall shard hshard) hmiss
      · rw [Server.reserveMemory, hfree shard hshard, Bool.not_false, Bool.true_and]
        by_contra hno
        exact hroom ⟨shard, hshard, hfree shard hshard, Bool.not_eq_true _ ▸ hno⟩

/-- Rank 0's shard of a block was evicted and rank 1's is in memory. -/
def halfEvicted : Server := fun k => ⟨false, k = nsKey 1 1 2, k = nsKey 1 1 2⟩

def roomy : Pressure := ⟨fun _ => false, fun _ => true⟩

theorem store_covers_iff_absent :
    ∃ stored s', prepareStore id 2 (fun _ => ⟨false, false, false⟩) roomy [1, 2] = some (stored, s') ∧
      Covers id 2 (fun _ => ⟨false, false, false⟩) roomy [1, 2] stored s' := by
  obtain ⟨stored, s', heq, hiff⟩ := @store_covers_iff ℕ id 2 [1, 2] (fun _ => ⟨false, false, false⟩)
    roomy (by decide) (by decide)
  exact ⟨stored, s', heq, hiff.mpr fun _ _ _ _ => .inl fun _ _ => rfl⟩

/-- A block of which one of two shards was evicted is not stored again, although there is room. -/
theorem half_evicted_not_stored : ((prepareStore id 2 halfEvicted roomy [1]).map (·.1)) = some [] ∧
      Lacks halfEvicted (nsKey 1 0 2) ∧ (∀ shard ∈ nsAll 2 1, (halfEvicted shard).pending = false) ∧
      ∀ shard ∈ nsAll 2 1, ¬ NoRoom halfEvicted roomy shard := by
  refine ⟨by decide +kernel, by unfold Lacks; decide, fun _ _ => rfl, fun _ _ h => ?_⟩
  cases h.2

end Certus.Connector
