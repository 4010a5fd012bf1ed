import Certus.DispatchMap.Map

/-! # What the operations of the dispatch map do

An operation reads and changes the entry of its key only. What it may answer and do to the entry is
said here once, for all that is proved about a key. -/

namespace Certus

open Option DispatchMap

/-- The answer of a lookup that finds this location. -/
def Location.found : Location → LookupResult
  | .blockDevice offset => .blockDevice offset
  | .memoryTier pointer size _ => .memoryTier pointer size

/-- The location of a slot that was written through, without the slot. -/
def Location.demoted : Location → Location
  | .memoryTier _ _ (some offset) => .blockDevice offset
  | loc => loc

/-- The entry is in the memory tier. -/
def Location.Resident (loc : Location) : Prop := ∃ p n o, loc = .memoryTier p n o

/-- The entry is in the memory tier and was written through. -/
def Location.Written (loc : Location) : Prop := ∃ p n o, loc = .memoryTier p n (some o)

theorem Location.Written.demoted_eq {loc : Location} (h : loc.Written) :
    ∃ o, loc.demoted = .blockDevice o := by
  obtain ⟨p, n, o, rfl⟩ := h
  exact ⟨o, rfl⟩

/-- The row of a key either fails to meet the guard of an operation, which then is an error and
changes nothing, or the operation changes it. -/
def Modifies (guard : DispatchEntry → Prop) (f : DispatchEntry → DispatchEntry)
    (a : Except DispatchMapError Unit) (e e' : Option DispatchEntry) : Prop :=
  ((∃ err, a = .error err) ∧ e' = e ∧ ∀ x, e = some x → ¬ guard x) ∨
    (a = .ok () ∧ ∃ x, e = some x ∧ guard x ∧ e' = some (f x))

variable {m : DispatchMap} {op : DispatchEntry → Except DispatchMapError Unit × DispatchEntry}

/-- An operation on an entry changes the entry if it succeeds, and is an error that changes nothing
if it does not. -/
theorem modifies_of_modifyEntry {k : CacheKey} {guard : DispatchEntry → Prop}
    {f : DispatchEntry → DispatchEntry}
    (hop : ∀ x, guard x ∧ op x = (.ok (), f x) ∨ ¬ guard x ∧ ∃ err, op x = (.error err, x)) :
    Modifies guard f (m.modifyEntry k op).1 (m.get? k) ((m.modifyEntry k op).2.get? k) := by
  unfold modifyEntry
  cases he : m.get? k with
  | none => exact .inl ⟨⟨_, rfl⟩, he, fun x hx => by cases hx⟩
  | some x =>
    rcases hop x with ⟨hguard, hx⟩ | ⟨hguard, err, hx⟩
    · exact .inr ⟨congrArg Prod.fst hx, x, rfl, hguard, by simp [hx]⟩
    · refine .inl ⟨⟨err, congrArg Prod.fst hx⟩, by simp [hx], ?_⟩
      rintro y ⟨⟩
      exact hguard

/-- An operation on the entry of a key leaves the other entries alone. -/
theorem get?_modifyEntry_of_ne {key k : CacheKey} (hne : k ≠ key) :
    (m.modifyEntry key op).2.get? k = m.get? k := by
  unfold modifyEntry
  split
  · rfl
  · simp [hne]

namespace DispatchMap

/-! ## What the operations do -/

/-- What a lookup may answer and do to the entry of its key. -/
def LookupEffect (a : Except DispatchMapError LookupResult) (e e' : Option DispatchEntry) : Prop :=
  (a = .ok .notExist ∧ e = none ∧ e' = none) ∨
  ((∃ err, a = .error err) ∧ e' = e) ∨
  ∃ x, e = some x ∧ (x.writeRef = 0 ∧ x.readRef < maxRef) ∧
    a = .ok x.location.found ∧ e' = some { x with readRef := x.readRef + 1 }

/-- The location on the block device is recorded, and a read reference dropped. -/
def withStorage (offset : UInt64) (x : DispatchEntry) : DispatchEntry :=
  match x.location with
  | .memoryTier p n _ =>
    { x with location := .memoryTier p n (some offset), readRef := x.readRef - 1 }
  | .blockDevice _ => x

/-- What the downgrade of a write reference may answer and do. If there are too many read references
the write reference is dropped all the same. -/
def DowngradeEffect (a : Except DispatchMapError Unit) (e e' : Option DispatchEntry) : Prop :=
  Modifies (fun x => x.writeRef ≠ 0 ∧ x.readRef < maxRef)
      (fun x => { x with writeRef := 0, readRef := x.readRef + 1 }) a e e' ∨
    ∃ x, e = some x ∧ x.writeRef ≠ 0 ∧ maxRef ≤ x.readRef ∧
      (∃ err, a = .error err) ∧ e' = some { x with writeRef := 0 }

/-- What a removal may answer and do. -/
def RemoveEffect (k : CacheKey) (a : Except DispatchMapError Unit) (e e' : Option DispatchEntry) :
    Prop :=
  (a = .error (.keyNotFound k) ∧ e = none ∧ e' = none) ∨
  (a = .error (.activeReferences k) ∧ e' = e ∧
    ∃ x, e = some x ∧ (x.readRef ≠ 0 ∨ x.writeRef ≠ 0)) ∨
  (a = .ok () ∧ e' = none ∧ ∃ x, e = some x ∧ x.readRef = 0 ∧ x.writeRef = 0)

/-- What a store may answer and do. -/
def CreateEffect (k : CacheKey) (p : Pointer) (n : UInt32) (a : Except DispatchMapError Unit)
    (e e' : Option DispatchEntry) : Prop :=
  (a = .error .invalidSize ∧ n = 0 ∧ e' = e) ∨
  (a = .error (.alreadyExists k) ∧ e' = e ∧ e ≠ none) ∨
  (a = .ok () ∧ n ≠ 0 ∧ e = none ∧ e' = some ⟨.memoryTier p n none, sizeInBlocks n, 0, 1⟩)

/-- What a promotion may answer and do. -/
def PromoteEffect (p : Pointer) (n : UInt32) (a : Except DispatchMapError Unit)
    (e e' : Option DispatchEntry) : Prop :=
  ((∃ err, a = .error err) ∧ e' = e ∧ (n ≠ 0 → ∀ x, e = some x → x.location.Resident)) ∨
  (a = .ok () ∧ n ≠ 0 ∧ ∃ x o, e = some x ∧ x.location = .blockDevice o ∧
    e' = some { x with location := .memoryTier p n (some o), sizeBlocks := sizeInBlocks n })

section

variable (m : DispatchMap) (k : CacheKey)

theorem lookup_effect : LookupEffect (m.lookup k).1 (m.get? k) ((m.lookup k).2.get? k) := by
  cases he : m.get? k with
  | none => exact .inl (by simp [lookup, he])
  | some x =>
    refine .inr ?_
    by_cases hw : x.writeRef = 0
    · by_cases hr : x.readRef < maxRef
      · refine .inr ⟨x, rfl, ⟨hw, hr⟩, ?_, ?_⟩
        · simp only [lookup, he, hw, addRead, if_pos hr]
          cases x.location <;> rfl
        · simp [lookup, he, hw, addRead, hr]
      · exact .inl (by simp [lookup, he, hw, addRead, hr])
    · exact .inl (by simp [lookup, he, hw])

theorem convertToStorage_effect (o : UInt64) :
    Modifies (·.location.Resident) (withStorage o) (m.convertToStorage k o).1 (m.get? k)
      ((m.convertToStorage k o).2.get? k) := by
  refine modifies_of_modifyEntry fun x => ?_
  unfold withStorage
  rcases hx : x.location with loc | ⟨p, n, old⟩
  · exact .inr ⟨fun ⟨p, n, o, h⟩ => (by simp at h), _, rfl⟩
  · exact .inl ⟨⟨p, n, old, rfl⟩, rfl⟩

theorem takeRead_effect :
    Modifies (fun x => x.writeRef = 0 ∧ x.readRef < maxRef)
      (fun x => { x with readRef := x.readRef + 1 }) (m.takeRead k).1 (m.get? k)
      ((m.takeRead k).2.get? k) := by
  refine modifies_of_modifyEntry fun x => ?_
  by_cases hw : x.writeRef = 0
  · by_cases hr : x.readRef < maxRef
    · exact .inl ⟨⟨hw, hr⟩, by simp [hw, addRead, hr]⟩
    · exact .inr ⟨fun h => hr h.2, by simp [hw, addRead, hr]⟩
  · exact .inr ⟨fun h => hw h.1, by simp [hw]⟩

theorem releaseRead_effect :
    Modifies (fun x => x.readRef ≠ 0) (fun x => { x with readRef := x.readRef - 1 })
      (m.releaseRead k).1 (m.get? k) ((m.releaseRead k).2.get? k) := by
  refine modifies_of_modifyEntry fun x => ?_
  by_cases hr : x.readRef = 0
  · exact .inr ⟨fun h => h hr, by simp [hr]⟩
  · exact .inl ⟨hr, by simp [hr]⟩

theorem releaseWrite_effect :
    Modifies (fun x => x.writeRef ≠ 0) (fun x => { x with writeRef := 0 }) (m.releaseWrite k).1
      (m.get? k) ((m.releaseWrite k).2.get? k) := by
  refine modifies_of_modifyEntry fun x => ?_
  by_cases hw : x.writeRef = 0
  · exact .inr ⟨fun h => h hw, by simp [hw]⟩
  · exact .inl ⟨hw, by simp [hw]⟩

theorem downgradeReference_effect :
    DowngradeEffect (m.downgradeReference k).1 (m.get? k) ((m.downgradeReference k).2.get? k) := by
  by_cases hover : ∃ x, m.get? k = some x ∧ x.writeRef ≠ 0 ∧ maxRef ≤ x.readRef
  · obtain ⟨x, hx, hw, hr⟩ := hover
    refine .inr ⟨x, hx, hw, hr, ?_, ?_⟩ <;>
      simp [downgradeReference, modifyEntry, hx, hw, addRead,
        Nat.not_lt.mpr hr]
  · refine .inl ?_
    unfold downgradeReference modifyEntry
    cases hx : m.get? k with
    | none => exact .inl ⟨⟨_, rfl⟩, hx, fun x hx => by cases hx⟩
    | some x =>
      by_cases hw : x.writeRef = 0
      · refine .inl ⟨⟨.noWriteReference k, by simp [hw]⟩, by simp [hw], ?_⟩
        rintro y ⟨⟩ hguard
        exact hguard.1 hw
      · have hr : x.readRef < maxRef :=
          Nat.lt_of_not_le fun hr => hover ⟨x, hx, hw, hr⟩
        exact .inr ⟨by simp [hw, addRead, hr], x, rfl, ⟨hw, hr⟩,
          by simp [hw, addRead, hr]⟩

theorem remove_effect : RemoveEffect k (m.remove k).1 (m.get? k) ((m.remove k).2.get? k) := by
  cases he : m.get? k with
  | none => exact .inl (by simp [remove, he])
  | some x =>
    by_cases href : x.readRef > 0 ∨ x.writeRef > 0
    · refine .inr (.inl ⟨by simp [remove, he, href], by
        simp [remove, he, href], x, rfl, ?_⟩)
      omega
    · refine .inr (.inr ⟨by simp [remove, he, href], by
        simp [remove, he, href], x, rfl, ?_⟩)
      omega

theorem createMemoryTierEntry_effect (p : Pointer) (n : UInt32) :
    CreateEffect k p n (m.createMemoryTierEntry k p n).1 (m.get? k)
      ((m.createMemoryTierEntry k p n).2.get? k) := by
  by_cases hn : n = 0
  · exact .inl (by simp [createMemoryTierEntry, hn])
  · cases he : m.get? k with
    | none => exact .inr (.inr (by simp [createMemoryTierEntry, hn, he]))
    | some x => exact .inr (.inl (by simp [createMemoryTierEntry, hn, he]))

theorem convertMemoryTierToBlock_effect :
    Modifies (·.location.Written) (fun x => { x with location := x.location.demoted })
      (m.convertMemoryTierToBlock k).1 (m.get? k) ((m.convertMemoryTierToBlock k).2.get? k) := by
  refine modifies_of_modifyEntry fun x => ?_
  rcases hx : x.location with loc | ⟨p, n, _ | o⟩
  · exact .inr ⟨fun ⟨p, n, o, h⟩ => (by simp at h), _, rfl⟩
  · exact .inr ⟨fun ⟨p, n, o, h⟩ => (by simp at h), _, rfl⟩
  · exact .inl ⟨⟨p, n, o, rfl⟩, rfl⟩

theorem tryEvictToBlock_effect :
    Modifies (fun x => x.readRef = 0 ∧ x.writeRef = 0 ∧ x.location.Written)
      (fun x => { x with location := x.location.demoted }) (m.tryEvictToBlock k).1 (m.get? k)
      ((m.tryEvictToBlock k).2.get? k) := by
  refine modifies_of_modifyEntry fun x => ?_
  by_cases href : x.readRef ≠ 0 ∨ x.writeRef ≠ 0
  · exact .inr ⟨fun h => by omega, by simp [href]⟩
  · rw [if_neg href]
    rcases hx : x.location with loc | ⟨p, n, _ | o⟩
    · exact .inr ⟨fun ⟨_, _, p, n, o, h⟩ => (by simp at h), _, rfl⟩
    · exact .inr ⟨fun ⟨_, _, p, n, o, h⟩ => (by simp at h), _, rfl⟩
    · exact .inl ⟨⟨by omega, by omega, p, n, o, rfl⟩, rfl⟩

theorem promoteBlockToMemoryTier_effect (p : Pointer) (n : UInt32) :
    PromoteEffect p n (m.promoteBlockToMemoryTier k p n).1 (m.get? k)
      ((m.promoteBlockToMemoryTier k p n).2.get? k) := by
  unfold promoteBlockToMemoryTier modifyEntry
  by_cases hn : n = 0
  · exact .inl (by simp [hn])
  · cases he : m.get? k with
    | none => exact .inl (by simp [hn, he])
    | some x =>
      rcases hx : x.location with loc | ⟨q, r, o⟩
      · exact .inr ⟨by simp [hn, hx], hn, x, loc, rfl, hx, by simp [hn, hx]⟩
      · refine .inl ⟨by simp [hn, hx], by simp [hn, hx], fun _ => ?_⟩
        rintro y ⟨⟩
        exact ⟨q, r, o, hx⟩

end

/-! ## What they leave alone -/

section

variable {m : DispatchMap} {key k : CacheKey} (hne : k ≠ key)
include hne

theorem get?_lookup_of_ne : (m.lookup key).2.get? k = m.get? k := by
  unfold lookup
  split
  · rfl
  · split_ifs
    · rfl
    · split
      · rfl
      · simp [hne]

theorem get?_remove_of_ne : (m.remove key).2.get? k = m.get? k := by
  unfold remove
  split
  · rfl
  · split_ifs
    · rfl
    · simp [hne]

variable (p : Pointer) (n : UInt32)

theorem get?_createMemoryTierEntry_of_ne :
    (m.createMemoryTierEntry key p n).2.get? k = m.get? k := by
  unfold createMemoryTierEntry
  split_ifs
  · rfl
  · split
    · rfl
    · simp [hne]

theorem get?_promoteBlockToMemoryTier_of_ne :
    (m.promoteBlockToMemoryTier key p n).2.get? k = m.get? k := by
  unfold promoteBlockToMemoryTier
  split_ifs
  · rfl
  · exact get?_modifyEntry_of_ne hne

end

end DispatchMap

end Certus
