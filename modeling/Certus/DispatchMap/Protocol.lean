import Certus.DispatchMap.Effects
import Certus.Lib.Run
import Mathlib.Data.List.Count

/-! # Readers and writers over whole histories of the dispatch map

Any number of callers use the map, one call at a time. A caller that gives a reference up holds it:
the history remembers who holds what.

* **`Session.reader_writer`** — readers and the writer of an entry exclude each other, and a call
  that fails changes nothing.
* **`Session.refs_eq_holders`** — the counts of an entry are its holders. -/

namespace Certus.DispatchMap.Protocol

open List

/-! ## The operations -/

/-- The operations that can change the map. -/
inductive Op
  | lookup
  | convertToStorage (offset : UInt64)
  | takeRead
  | takeWrite
  | releaseRead
  | releaseWrite
  | downgradeReference
  | remove
  | createMemoryTierEntry (pointer : Pointer) (size : UInt32)
  | convertMemoryTierToBlock
  | promoteBlockToMemoryTier (pointer : Pointer) (size : UInt32)
  | tryEvictToBlock
  | recoverExtent (offset : UInt64) (sizeBlocks : UInt32)
  deriving DecidableEq, Repr

/-- An operation that answers nothing but whether it succeeded. -/
def plain (r : Except DispatchMapError Unit × DispatchMap) :
    Except DispatchMapError (Option LookupResult) × DispatchMap :=
  (r.1.map fun _ => none, r.2)

/-- What an operation answers and does to the map. -/
def Op.exec (m : DispatchMap) (key : CacheKey) :
    Op → Except DispatchMapError (Option LookupResult) × DispatchMap
  | .lookup => ((m.lookup key).1.map some, (m.lookup key).2)
  | .convertToStorage offset => plain (m.convertToStorage key offset)
  | .takeRead => plain (m.takeRead key)
  | .takeWrite => plain (m.takeWrite key)
  | .releaseRead => plain (m.releaseRead key)
  | .releaseWrite => plain (m.releaseWrite key)
  | .downgradeReference => plain (m.downgradeReference key)
  | .remove => plain (m.remove key)
  | .createMemoryTierEntry p n => plain (m.createMemoryTierEntry key p n)
  | .convertMemoryTierToBlock => plain (m.convertMemoryTierToBlock key)
  | .promoteBlockToMemoryTier p n => plain (m.promoteBlockToMemoryTier key p n)
  | .tryEvictToBlock => plain (m.tryEvictToBlock key)
  | .recoverExtent offset n => plain (m.recoverExtent key offset n)

/-- The call found an entry and did its work on it. -/
def granted : Except DispatchMapError (Option LookupResult) → Bool
  | .ok (some .notExist) | .error _ => false
  | .ok _ => true

/-- The read and write references of an entry, none without one. -/
def refs : Option DispatchEntry → ℕ × ℕ
  | none => (0, 0)
  | some e => (e.readRef, e.writeRef)

/-- The counts an operation may find and the counts it leaves, when it does its work. -/
def Op.moves : Op → ℕ × ℕ → ℕ × ℕ → Prop
  | .lookup, c, c' | .takeRead, c, c' => c.2 = 0 ∧ c' = (c.1 + 1, 0)
  | .takeWrite, c, c' | .createMemoryTierEntry _ _, c, c' => c = (0, 0) ∧ c' = (0, 1)
  | .releaseRead, c, c' | .convertToStorage _, c, c' => c' = (c.1 - 1, c.2)
  | .releaseWrite, c, c' => c' = (c.1, 0)
  | .downgradeReference, c, c' => c' = (c.1 + 1, 0)
  | .remove, c, c' | .tryEvictToBlock, c, c' | .recoverExtent _ _, c, c' =>
    c = (0, 0) ∧ c' = (0, 0)
  | .convertMemoryTierToBlock, c, c' | .promoteBlockToMemoryTier _ _, c, c' => c' = c

variable {m : DispatchMap} {key k : CacheKey} {op : Op}

/-- What an operation can do to the entry of its key: nothing, if it fails, or its work. The one
failure that changes the entry is a downgrade that finds no room for another reader. -/
def Op.Outcome (op : Op) (a : Except DispatchMapError (Option LookupResult))
    (e e' : Option DispatchEntry) : Prop :=
  (granted a = false ∧ (e' = e ∨ maxRef ≤ (refs e).1 ∧ (refs e).2 ≠ 0)) ∨
    granted a ∧ op.moves (refs e) (refs e')

theorem Op.outcome_of_modifies {guard : DispatchEntry → Prop} {f : DispatchEntry → DispatchEntry}
    {a : Except DispatchMapError Unit} {e e' : Option DispatchEntry} (h : Modifies guard f a e e')
    (hmoves : ∀ x, guard x → op.moves (refs (some x)) (refs (some (f x)))) :
    op.Outcome (a.map fun _ => none) e e' := by
  rcases h with ⟨⟨err, rfl⟩, he, -⟩ | ⟨rfl, x, rfl, hguard, rfl⟩
  · exact .inl ⟨rfl, .inl he⟩
  · exact .inr ⟨rfl, hmoves x hguard⟩

theorem takeWrite_modifies (m : DispatchMap) (key : CacheKey) :
    Modifies (fun x => x.readRef = 0 ∧ x.writeRef = 0) (fun x => { x with writeRef := 1 })
      (m.takeWrite key).1 (m.get? key) ((m.takeWrite key).2.get? key) := by
  refine modifies_of_modifyEntry fun x => ?_
  by_cases href : x.readRef ≠ 0 ∨ x.writeRef ≠ 0
  · exact .inr ⟨fun h => by omega, by simp [href]⟩
  · exact .inl ⟨by omega, by simp [href]⟩

/-- **Every operation has one of its outcomes.** -/
theorem Op.exec_outcome (m : DispatchMap) (key : CacheKey) (op : Op) :
    op.Outcome (op.exec m key).1 (m.get? key) ((op.exec m key).2.get? key) := by
  cases op with
  | lookup =>
    simp only [exec]
    rcases lookup_effect m key with ⟨ha, he, he'⟩ | ⟨⟨err, ha⟩, he'⟩ | ⟨x, he, ⟨hw, -⟩, ha, he'⟩ <;>
      rw [ha, he']
    · exact .inl ⟨rfl, .inl he.symm⟩
    · exact .inl ⟨rfl, .inl rfl⟩
    · rw [he]
      refine .inr ⟨?_, hw, by simp [refs, hw]⟩
      cases x.location <;> rfl
  | convertToStorage offset =>
    refine outcome_of_modifies (convertToStorage_effect m key offset) fun x hx => ?_
    obtain ⟨p, n, o, hloc⟩ := hx
    simp only [withStorage, hloc]
    exact rfl
  | takeRead =>
    exact outcome_of_modifies (takeRead_effect m key) fun x hx => ⟨hx.1, by simp [refs, hx.1]⟩
  | takeWrite =>
    exact outcome_of_modifies (takeWrite_modifies m key) fun x hx =>
      ⟨by simp [refs, hx], by simp [refs, hx]⟩
  | releaseRead => exact outcome_of_modifies (releaseRead_effect m key) fun _ _ => rfl
  | releaseWrite => exact outcome_of_modifies (releaseWrite_effect m key) fun _ _ => rfl
  | downgradeReference =>
    rcases downgradeReference_effect m key with h | ⟨x, he, hw, hmax, ⟨err, ha⟩, he'⟩
    · exact outcome_of_modifies h fun _ _ => rfl
    · refine .inl ⟨?_, .inr ?_⟩
      · simp only [exec, plain, ha]
        rfl
      · rw [he]
        exact ⟨hmax, hw⟩
  | remove =>
    simp only [exec, plain]
    rcases remove_effect m key with ⟨ha, he, he'⟩ | ⟨ha, he', -⟩ | ⟨ha, he', x, he, hr, hw⟩ <;>
      rw [ha, he']
    · exact .inl ⟨rfl, .inl he.symm⟩
    · exact .inl ⟨rfl, .inl rfl⟩
    · rw [he]
      exact .inr ⟨rfl, by simp [refs, hr, hw], rfl⟩
  | createMemoryTierEntry p n =>
    simp only [exec, plain]
    rcases createMemoryTierEntry_effect m key p n with
      ⟨ha, -, he'⟩ | ⟨ha, he', -⟩ | ⟨ha, -, he, he'⟩ <;> rw [ha, he']
    · exact .inl ⟨rfl, .inl rfl⟩
    · exact .inl ⟨rfl, .inl rfl⟩
    · rw [he]
      exact .inr ⟨rfl, rfl, rfl⟩
  | convertMemoryTierToBlock =>
    exact outcome_of_modifies (convertMemoryTierToBlock_effect m key) fun _ _ => rfl
  | promoteBlockToMemoryTier p n =>
    simp only [exec, plain]
    rcases promoteBlockToMemoryTier_effect m key p n with
      ⟨⟨err, ha⟩, he', -⟩ | ⟨ha, -, x, o, he, -, he'⟩ <;> rw [ha, he']
    · exact .inl ⟨rfl, .inl rfl⟩
    · rw [he]
      exact .inr ⟨rfl, rfl⟩
  | tryEvictToBlock =>
    exact outcome_of_modifies (tryEvictToBlock_effect m key) fun x hx =>
      ⟨by simp [refs, hx], by simp [refs, hx]⟩
  | recoverExtent offset n =>
    simp only [exec, plain, DispatchMap.recoverExtent]
    cases he : m.get? key with
    | some x => exact .inl ⟨rfl, .inl he⟩
    | none =>
      rw [get?_put, if_pos rfl]
      exact .inr ⟨rfl, rfl, rfl⟩

theorem Op.exec_of_ne (hne : k ≠ key) : (op.exec m key).2.get? k = m.get? k := by
  cases op
  case lookup => exact get?_lookup_of_ne hne
  case remove => exact get?_remove_of_ne hne
  case createMemoryTierEntry p n => exact get?_createMemoryTierEntry_of_ne hne p n
  case promoteBlockToMemoryTier p n => exact get?_promoteBlockToMemoryTier_of_ne hne p n
  case recoverExtent offset n =>
    simp only [exec, plain, DispatchMap.recoverExtent]
    split
    · rfl
    · rw [get?_put, if_neg hne]
  all_goals exact get?_modifyEntry_of_ne hne

/-- An operation that leaves the entry of its key alone leaves the map as it is. -/
theorem Op.exec_eq_self (h : (op.exec m key).2.get? key = m.get? key) : (op.exec m key).2 = m := by
  have hentries : (op.exec m key).2.entries = m.entries := OrdMap.ext_get? fun k => by
    by_cases hk : k = key
    · exact hk ▸ h
    · exact exec_of_ne hk
  exact congrArg DispatchMap.mk hentries

/-! ## Sessions -/

/-- The map, and who holds a read or a write reference on which key. -/
structure Session where
  map : DispatchMap
  readers : List (ℕ × CacheKey)
  writers : List (ℕ × CacheKey)

/-- A caller makes a call about a key. -/
structure Turn where
  caller : ℕ
  op : Op
  key : CacheKey
  deriving DecidableEq, Repr

namespace Session

/-- The references after a call that did its work. -/
def grant (s : Session) (h : ℕ × CacheKey) : Op → Session
  | .lookup | .takeRead => { s with readers := h :: s.readers }
  | .takeWrite | .createMemoryTierEntry _ _ => { s with writers := h :: s.writers }
  | .releaseRead | .convertToStorage _ => { s with readers := s.readers.erase h }
  | .releaseWrite => { s with writers := s.writers.erase h }
  | .downgradeReference =>
    { s with readers := h :: s.readers, writers := s.writers.erase h }
  | _ => s

/-- One call. -/
def step (s : Session) (t : Turn) : Option Session :=
  some { if granted (t.op.exec s.map t.key).1 then s.grant (t.caller, t.key) t.op else s with
    map := (t.op.exec s.map t.key).2 }

/-- The caller holds the reference it gives up. -/
def Holds (s : Session) (t : Turn) : Prop :=
  match t.op with
  | .releaseRead | .convertToStorage _ => (t.caller, t.key) ∈ s.readers
  | .releaseWrite | .downgradeReference => (t.caller, t.key) ∈ s.writers
  | _ => True

/-- An empty map nobody uses. -/
def start : Session := ⟨DispatchMap.empty, [], []⟩

/-- How many of these references are on the key. -/
def on (k : CacheKey) (hs : List (ℕ × CacheKey)) : ℕ := hs.countP fun h => decide (h.2 = k)

/-- The counts of the entries are the numbers of holders, and a writer is alone. -/
structure Sound (s : Session) : Prop where
  counts : ∀ k, refs (s.map.get? k) = (on k s.readers, on k s.writers)
  alone : ∀ k, on k s.writers = 0 ∨ on k s.writers = 1 ∧ on k s.readers = 0

variable {s s' : Session} {t : Turn} {ts : List Turn} {k : CacheKey} {h : ℕ × CacheKey}
  {hs : List (ℕ × CacheKey)}

theorem on_cons : on k (h :: hs) = on k hs + if h.2 = k then 1 else 0 := by
  simp [on, countP_cons]

theorem on_erase : on k (hs.erase h) = on k hs - if h ∈ hs ∧ h.2 = k then 1 else 0 := by
  simp [on, countP_erase]

/-- A call does its work or leaves the map alone: under the protocol no downgrade overflows. -/
theorem Sound.cases (hs : s.Sound) (t : Turn) :
    granted (t.op.exec s.map t.key).1 = false ∧ (t.op.exec s.map t.key).2 = s.map ∨
      granted (t.op.exec s.map t.key).1 ∧
        t.op.moves (refs (s.map.get? t.key)) (refs ((t.op.exec s.map t.key).2.get? t.key)) := by
  rcases Op.exec_outcome s.map t.key t.op with ⟨hg, he | ⟨hmax, hw⟩⟩ | h
  · exact .inl ⟨hg, Op.exec_eq_self he⟩
  · -- a writer is alone, so the read count is zero
    rw [hs.counts] at hmax hw
    have hpos : 0 < maxRef := by decide
    rcases hs.alone t.key with h | ⟨-, h⟩ <;> omega
  · exact .inr h

/-- The holders after a call that did its work are as many as the counts say. -/
theorem grant_counts (hs : s.Sound) (hhold : s.Holds t) {c : ℕ × ℕ}
    (hmoves : t.op.moves (on t.key s.readers, on t.key s.writers) c) :
    c = (on t.key (s.grant (t.caller, t.key) t.op).readers,
      on t.key (s.grant (t.caller, t.key) t.op).writers) ∧ (c.2 = 0 ∨ c.2 = 1 ∧ c.1 = 0) := by
  obtain ⟨caller, op, key⟩ := t
  have halone := hs.alone key
  unfold grant
  cases op <;> simp only [Op.moves, Holds, on_cons, on_erase, Prod.mk.injEq, if_true] at *
  case lookup | takeRead =>
    obtain ⟨hw, rfl⟩ := hmoves
    exact ⟨by rw [hw], .inl rfl⟩
  case takeWrite | createMemoryTierEntry =>
    obtain ⟨⟨hr, hw⟩, rfl⟩ := hmoves
    exact ⟨by rw [hr, hw], .inr ⟨rfl, rfl⟩⟩
  case releaseRead | convertToStorage =>
    subst hmoves
    rw [if_pos ⟨hhold, trivial⟩]
    exact ⟨rfl, by simp only; omega⟩
  case releaseWrite | downgradeReference =>
    subst hmoves
    rw [if_pos ⟨hhold, trivial⟩]
    exact ⟨by rw [Prod.mk.injEq]; omega, .inl rfl⟩
  case convertMemoryTierToBlock | promoteBlockToMemoryTier =>
    subst hmoves
    exact ⟨rfl, halone⟩
  all_goals
    obtain ⟨⟨hr, hw⟩, rfl⟩ := hmoves
    exact ⟨by rw [hr, hw], .inl rfl⟩

/-- Holders of other keys stay what they are. -/
theorem grant_of_ne (hk : h.2 ≠ k) (op : Op) : on k (s.grant h op).readers = on k s.readers ∧
    on k (s.grant h op).writers = on k s.writers := by
  unfold grant
  cases op <;> simp [on_cons, on_erase, hk]

/-- **One call keeps counts and holders in agreement.** -/
theorem step_sound (hs : s.Sound) (hhold : s.Holds t) (hstep : s.step t = some s') : s'.Sound := by
  obtain rfl := Option.some.inj hstep
  rcases hs.cases t with ⟨hg, hm⟩ | ⟨hg, hmoves⟩
  · rw [hg, hm]
    exact hs
  · rw [hg, if_pos rfl]
    rw [hs.counts] at hmoves
    obtain ⟨hcounts, halone⟩ := grant_counts hs hhold hmoves
    refine ⟨fun k => ?_, fun k => ?_⟩ <;> by_cases hk : t.key = k
    · exact hk ▸ hcounts
    · show refs ((t.op.exec s.map t.key).2.get? k) = (on k (s.grant _ t.op).readers, _)
      rw [Op.exec_of_ne (Ne.symm hk), hs.counts, (grant_of_ne hk t.op).1, (grant_of_ne hk t.op).2]
    · rw [hcounts] at halone
      exact hk ▸ halone
    · show on k (s.grant _ t.op).writers = 0 ∨ _
      rw [(grant_of_ne hk t.op).1, (grant_of_ne hk t.op).2]
      exact hs.alone k

theorem start_sound : start.Sound := ⟨fun _ => rfl, fun _ => .inl rfl⟩

/-- **Readers and the writer of an entry exclude each other** in every history, a lookup answers
while nobody writes, entries are removed and demoted while nobody holds them, and a call that fails
leaves the map as it is. -/
theorem reader_writer (hrun : Run step Holds start ts s) :
    (∀ k e, s.map.get? k = some e → e.readRef = 0 ∨ e.writeRef = 0) ∧
    (∀ k, on k s.writers ≤ 1) ∧
    ∀ key,
      (∀ r m, Op.lookup.exec s.map key = (.ok r, m) → ∀ caller, (caller, key) ∉ s.writers) ∧
      (∀ op ∈ [Op.remove, Op.tryEvictToBlock], ∀ k, (op.exec s.map key).2.get? k ≠ s.map.get? k →
        ∃ e, s.map.get? k = some e ∧ e.readRef = 0 ∧ e.writeRef = 0) ∧
      ∀ (op : Op) err m, op.exec s.map key = (.error err, m) → m = s.map := by
  have hs : s.Sound :=
    hrun.invariant start_sound fun _ _ _ hs hhold hstep => step_sound hs hhold hstep
  have hrefs : ∀ {k e}, s.map.get? k = some e →
      e.readRef = on k s.readers ∧ e.writeRef = on k s.writers := fun {k e} he => by
    have hcounts := hs.counts k
    rw [he] at hcounts
    exact Prod.mk.inj hcounts
  refine ⟨fun k e he => ?_, fun k => ?_, fun key => ⟨fun r m hr caller hmem => ?_, ?_, ?_⟩⟩
  · have halone := hs.alone k
    have hcounts := hrefs he
    omega
  · have halone := hs.alone k
    omega
  · have hzero : on key s.writers = 0 := by
      have hcounts := hs.counts key
      rcases lookup_effect s.map key with ⟨-, he, -⟩ | ⟨⟨err, ha⟩, -⟩ | ⟨x, he, ⟨hw, -⟩, -⟩
      · rw [he] at hcounts
        exact (Prod.mk.inj hcounts).2.symm
      · simp [Op.exec, ha, Except.map] at hr
      · rw [← (hrefs he).2, hw]
    exact countP_eq_zero.mp hzero _ hmem (decide_eq_true rfl)
  · intro op hop k hne
    obtain rfl : k = key := by
      by_contra hk
      exact hne (Op.exec_of_ne hk)
    rcases mem_pair.mp hop with rfl | rfl
    · rcases remove_effect s.map k with ⟨-, he, he'⟩ | ⟨-, he', -⟩ | ⟨-, -, x, he, hrefs⟩
      · exact absurd (he'.trans he.symm) hne
      · exact absurd he' hne
      · exact ⟨x, he, hrefs⟩
    · rcases tryEvictToBlock_effect s.map k with ⟨-, he', -⟩ | ⟨-, x, he, ⟨hr, hw, -⟩, -⟩
      · exact absurd he' hne
      · exact ⟨x, he, hr, hw⟩
  · intro op err m herr
    rcases hs.cases ⟨0, op, key⟩ with ⟨-, hm⟩ | ⟨hg, -⟩
    · rw [herr] at hm
      exact hm
    · rw [herr] at hg
      cases hg

/-- After a store and a lookup two readers hold the entry, and nobody writes it. -/
theorem reader_writer_stored : ∃ s, Run step Holds start
      [⟨0, .createMemoryTierEntry 0 4096, 7⟩, ⟨0, .downgradeReference, 7⟩, ⟨1, .lookup, 7⟩] s ∧
    s.readers = [(1, 7), (0, 7)] ∧ ∀ k, on k s.writers ≤ 1 := by
  have hrun : Run step Holds start ([] ++ [⟨0, .createMemoryTierEntry 0 4096, 7⟩] ++
      [⟨0, .downgradeReference, 7⟩] ++ [⟨1, .lookup, 7⟩]) _ :=
    .snoc (.snoc (.snoc (.nil _) trivial rfl) (mem_singleton.mpr rfl) rfl) trivial rfl
  exact ⟨_, hrun, rfl, (reader_writer hrun).2.1⟩

/-- **The counts of an entry are its holders**: in every history the read and write counts of a key
are the numbers of references that callers hold on it, and zero where there is no entry. -/
theorem refs_eq_holders (hrun : Run step Holds start ts s) (k : CacheKey) :
    refs (s.map.get? k) = (on k s.readers, on k s.writers) :=
  (hrun.invariant start_sound fun _ _ _ hs hhold hstep => step_sound hs hhold hstep).counts k

/-- An entry is written by one caller, read by that and another one, and removed after both have let
it go. -/
theorem refs_eq_holders_stored :
    ∃ ts s s' s'', Run step Holds start ts s ∧ refs (s.map.get? 7) = (0, 1) ∧
      Run step Holds start (ts ++ [⟨0, .downgradeReference, 7⟩] ++ [⟨1, .lookup, 7⟩]) s' ∧
      refs (s'.map.get? 7) = (2, 0) ∧
      Run step Holds start (ts ++ [⟨0, .downgradeReference, 7⟩] ++ [⟨1, .lookup, 7⟩] ++
        [⟨0, .releaseRead, 7⟩] ++ [⟨1, .releaseRead, 7⟩] ++ [⟨2, .remove, 7⟩]) s'' ∧
      refs (s''.map.get? 7) = (0, 0) := by
  have hwrite : Run step Holds start ([] ++ [⟨0, .createMemoryTierEntry 0 4096, 7⟩]) _ :=
    .snoc (.nil _) trivial rfl
  have hread : Run step Holds start ([] ++ [⟨0, .createMemoryTierEntry 0 4096, 7⟩] ++
      [⟨0, .downgradeReference, 7⟩] ++ [⟨1, .lookup, 7⟩]) _ :=
    .snoc (.snoc hwrite (mem_singleton.mpr rfl) rfl) trivial rfl
  have hremoved := ((hread.snoc (show Holds _ ⟨0, .releaseRead, 7⟩ from mem_cons_of_mem _
    mem_cons_self) rfl).snoc (show Holds _ ⟨1, .releaseRead, 7⟩ from mem_cons_self) rfl).snoc
    (show Holds _ ⟨2, .remove, 7⟩ from trivial) rfl
  exact ⟨_, _, _, _, hwrite, refs_eq_holders hwrite 7, hread, refs_eq_holders hread 7, hremoved,
    refs_eq_holders hremoved 7⟩

end Session

end Certus.DispatchMap.Protocol
