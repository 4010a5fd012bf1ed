import Mathlib.Data.List.Basic
import Mathlib.Tactic.Linarith

/-! # Finite maps with ordered keys

An ordered finite map is a list of entries with strictly increasing keys: what a balanced search
tree stores, read in key order. The order is a field of the structure, so that an unsorted map
cannot be built.

* **`get?`, `insert`, `erase`** — lookup and update, with their read-over-write laws.
* **`mem_entries`** — the entries are exactly the key/value pairs that `get?` finds. -/

namespace Certus

open List Prod

universe u v w

/-- Machine words are ordered by value. -/
instance uint64LinearOrder : LinearOrder UInt64 where
  le_refl := UInt64.le_refl
  le_trans _ _ _ := UInt64.le_trans
  lt_iff_le_not_ge a b := by
    simp only [UInt64.lt_iff_toNat_lt, UInt64.le_iff_toNat_le]
    omega
  le_antisymm _ _ := UInt64.le_antisymm
  le_total := UInt64.le_total
  toDecidableLE := inferInstance
  toDecidableEq := inferInstance
  toDecidableLT := inferInstance
  compare_eq_compareOfLessAndEq _ _ := rfl

/-- What is asked of every word of a list is decided along the list, not over all words. -/
instance (priority := 2000) decidableForallMemList {p : UInt64 → Prop} [DecidablePred p]
    (l : List UInt64) :
    Decidable (∀ k ∈ l, p k) :=
  List.decidableBAll p l

/-- A finite map from `κ` to `α`, its entries listed by strictly increasing key. -/
structure OrdMap (κ : Type u) (α : Type v) [LinearOrder κ] where
  /-- The entries in key order. -/
  entries : List (κ × α)
  /-- Keys are strictly increasing, hence distinct. -/
  sorted : entries.Pairwise (fun p q => p.1 < q.1)

namespace OrdMap

variable {κ : Type u} {α : Type v} [LinearOrder κ]

/-! ## Operations on sorted entry lists -/

/-- The value stored under `k` in an entry list. -/
def lookup (k : κ) : List (κ × α) → Option α
  | [] => none
  | e :: es => if k = e.1 then some e.2 else lookup k es

/-- Store `v` under `k`, replacing the entry of that key if there is one. -/
def insertEntry (k : κ) (v : α) : List (κ × α) → List (κ × α)
  | [] => [(k, v)]
  | e :: es =>
    if k < e.1 then (k, v) :: e :: es
    else if k = e.1 then (k, v) :: es
    else e :: insertEntry k v es

/-- The last entry whose key is at most `k`. -/
def floorEntry (k : κ) : List (κ × α) → Option (κ × α)
  | [] => none
  | e :: es => if e.1 ≤ k then (floorEntry k es).or (some e) else none

variable {e : κ × α} {es : List (κ × α)} {k k' : κ} {v : α} {m : OrdMap κ α}

/-- Keys of `insertEntry k v es` come from `k` and `es`. -/
theorem mem_insertEntry (h : e ∈ insertEntry k v es) : e = (k, v) ∨ e ∈ es := by
  induction es with
  | nil => simpa [insertEntry] using h
  | cons d es ih =>
    rw [insertEntry] at h
    split_ifs at h with h₁ h₂
    · simpa using h
    · rcases mem_cons.mp h with h | h
      · exact .inl h
      · exact .inr (mem_cons_of_mem _ h)
    · rcases mem_cons.mp h with h | h
      · exact .inr (h ▸ mem_cons_self)
      · exact (ih h).imp_right (mem_cons_of_mem _)

/-- Insertion keeps the keys strictly increasing. -/
theorem pairwise_insertEntry (k : κ) (v : α) (h : es.Pairwise (fun p q => p.1 < q.1)) :
    (insertEntry k v es).Pairwise (fun p q => p.1 < q.1) := by
  induction es with
  | nil => simp [insertEntry]
  | cons d es ih =>
    obtain ⟨hd, hes⟩ := pairwise_cons.mp h
    rw [insertEntry]
    split_ifs with h₁ h₂
    · refine pairwise_cons.mpr ⟨?_, h⟩
      intro e he
      rcases mem_cons.mp he with rfl | he
      · exact h₁
      · exact lt_trans h₁ (hd e he)
    · exact pairwise_cons.mpr ⟨fun e he => h₂ ▸ hd e he, hes⟩
    · refine pairwise_cons.mpr ⟨?_, ih hes⟩
      intro e he
      rcases mem_insertEntry he with rfl | he
      · exact lt_of_le_of_ne (not_lt.mp h₁) (Ne.symm h₂)
      · exact hd e he

/-- Reading after an insertion. -/
theorem lookup_insertEntry (k k' : κ) (v : α) (es : List (κ × α)) :
    lookup k' (insertEntry k v es) = if k' = k then some v else lookup k' es := by
  induction es with
  | nil => rfl
  | cons d es ih =>
    rw [insertEntry]
    split_ifs with h₁ h₂ h₃ h₃ h₃ <;> simp_all [lookup]

/-- What is found is in the list. -/
theorem mem_of_lookup (h : lookup k es = some v) : (k, v) ∈ es := by
  induction es with
  | nil => cases h
  | cons d es ih =>
    rw [lookup] at h
    split_ifs at h with hk
    · cases h
      subst hk
      exact mem_cons_self
    · exact mem_cons_of_mem _ (ih h)

/-- In a sorted list, an entry is found under its own key. -/
theorem lookup_eq_some_iff (h : es.Pairwise (fun p q => p.1 < q.1)) :
    lookup k es = some v ↔ (k, v) ∈ es := by
  induction es with
  | nil => simp [lookup]
  | cons d es ih =>
    obtain ⟨hd, hes⟩ := pairwise_cons.mp h
    obtain ⟨dk, dv⟩ := d
    rw [lookup]
    split_ifs with hk
    · subst hk
      constructor
      · rintro h; cases h; exact mem_cons_self
      · intro hm
        rcases mem_cons.mp hm with hm | hm
        · cases hm; rfl
        · exact absurd (hd _ hm) (lt_irrefl _)
    · rw [ih hes, mem_cons]
      constructor
      · exact .inr
      · rintro (hm | hm)
        · cases hm; exact absurd rfl hk
        · exact hm

/-! ## The map operations -/

/-- The empty map. -/
def empty : OrdMap κ α := ⟨[], List.Pairwise.nil⟩

section

variable (m : OrdMap κ α) (k : κ)

/-- The value under `k`, if any. -/
def get? : Option α := lookup k m.entries

/-- Store `v` under `k`. -/
def insert (v : α) : OrdMap κ α :=
  ⟨insertEntry k v m.entries, pairwise_insertEntry k v m.sorted⟩

/-- Delete the entry of `k`. -/
def erase : OrdMap κ α :=
  ⟨m.entries.filter (fun e => e.1 ≠ k), m.sorted.filter _⟩

/-- The entry with the greatest key `≤ k`. -/
def floor? : Option (κ × α) := floorEntry k m.entries

/-- The keys in order. -/
def keys : List κ := m.entries.map fst

/-- The values in key order. -/
def values : List α := m.entries.map snd

end

@[simp] theorem get?_empty (k : κ) : (empty : OrdMap κ α).get? k = none := rfl

@[simp] theorem get?_insert (m : OrdMap κ α) (k k' : κ) (v : α) :
    (m.insert k v).get? k' = if k' = k then some v else m.get? k' :=
  lookup_insertEntry k k' v m.entries

/-- The entries of a map are its key/value pairs. -/
theorem mem_entries : (k, v) ∈ m.entries ↔ m.get? k = some v :=
  (lookup_eq_some_iff m.sorted).symm

@[simp] theorem get?_erase (m : OrdMap κ α) (k k' : κ) :
    (m.erase k).get? k' = if k' = k then none else m.get? k' := by
  apply Option.ext
  intro v
  rw [← mem_entries, erase, mem_filter, mem_entries]
  split_ifs with h <;> simp [h]

theorem mem_values : v ∈ m.values ↔ ∃ k, m.get? k = some v := by
  simp only [values, mem_map, Prod.exists, exists_eq_right, mem_entries]

/-! ## Keys under the operations -/

theorem mem_keys : k ∈ m.keys ↔ ∃ v, m.get? k = some v := by
  simp only [keys, mem_map, Prod.exists, exists_and_right, exists_eq_right, mem_entries]

theorem nodup_keys (m : OrdMap κ α) : m.keys.Nodup := by
  rw [keys, List.Nodup, pairwise_map]
  exact m.sorted.imp fun h => ne_of_lt h

/-- Replacing a value keeps the keys. -/
theorem keys_insert_of_some {v v' : α} (h : m.get? k = some v') :
    (m.insert k v).keys.Perm m.keys := by
  refine (perm_ext_iff_of_nodup (nodup_keys _) (nodup_keys _)).mpr fun j => ?_
  rw [mem_keys, mem_keys]
  by_cases hj : j = k
  · subst hj
    simp [h]
  · simp [hj]

/-- Adding a key. -/
theorem keys_insert_of_none (h : m.get? k = none) : (m.insert k v).keys.Perm (k :: m.keys) := by
  have hnot : k ∉ m.keys := by
    rw [mem_keys]
    simp [h]
  refine (perm_ext_iff_of_nodup (nodup_keys _)
    (nodup_cons.mpr ⟨hnot, nodup_keys m⟩)).mpr fun j => ?_
  rw [mem_cons, mem_keys, mem_keys]
  by_cases hj : j = k <;> simp [hj]

/-- Deleting a key. -/
theorem keys_erase (h : m.get? k = some v) : m.keys.Perm (k :: (m.erase k).keys) := by
  have hnot : k ∉ (m.erase k).keys := by
    rw [mem_keys]
    simp
  refine (perm_ext_iff_of_nodup (nodup_keys _)
    (nodup_cons.mpr ⟨hnot, nodup_keys _⟩)).mpr fun j => ?_
  rw [mem_cons, mem_keys, mem_keys]
  by_cases hj : j = k
  · subst hj
    simp [h]
  · simp [hj]

/-! ## Entries under the operations -/

theorem nodup_entries (m : OrdMap κ α) : m.entries.Nodup :=
  m.sorted.imp fun h => ne_of_apply_ne fst (ne_of_lt h)

/-- Adding an entry under a new key. -/
theorem entries_insert_of_none (h : m.get? k = none) :
    (m.insert k v).entries.Perm ((k, v) :: m.entries) := by
  have hnot : (k, v) ∉ m.entries := by
    rw [mem_entries, h]
    simp
  refine (perm_ext_iff_of_nodup (nodup_entries _)
    (nodup_cons.mpr ⟨hnot, nodup_entries m⟩)).mpr fun e => ?_
  obtain ⟨j, w⟩ := e
  rw [mem_cons, mem_entries, mem_entries, get?_insert, Prod.mk.injEq]
  by_cases hj : j = k
  · subst hj
    simp [h, eq_comm]
  · simp [hj]

/-- Deleting an entry. -/
theorem entries_erase (h : m.get? k = some v) : m.entries.Perm ((k, v) :: (m.erase k).entries) := by
  have hnot : (k, v) ∉ (m.erase k).entries := by
    rw [mem_entries]
    simp
  refine (perm_ext_iff_of_nodup (nodup_entries _)
    (nodup_cons.mpr ⟨hnot, nodup_entries _⟩)).mpr fun e => ?_
  obtain ⟨j, w⟩ := e
  rw [mem_cons, mem_entries, mem_entries, get?_erase, Prod.mk.injEq]
  by_cases hj : j = k
  · subst hj
    simp [h, eq_comm]
  · simp [hj]

/-- Maps with the same values are equal. -/
theorem ext_get? {m' : OrdMap κ α} (h : ∀ k, m.get? k = m'.get? k) : m = m' := by
  have hperm : m.entries.Perm m'.entries :=
    (perm_ext_iff_of_nodup m.nodup_entries m'.nodup_entries).mpr fun e => by
      obtain ⟨k, v⟩ := e
      rw [mem_entries, mem_entries, h]
  have heq : m.entries = m'.entries :=
    hperm.eq_of_pairwise (fun a b _ _ hab hba => absurd hab (lt_asymm hba)) m.sorted m'.sorted
  cases m
  cases m'
  cases heq
  rfl

/-! ## Mapping the values -/

/-- The map with `f` applied to every value. -/
def map {β : Type w} (f : α → β) (m : OrdMap κ α) : OrdMap κ β :=
  ⟨m.entries.map (Prod.map id f), pairwise_map.mpr m.sorted⟩

section

variable {β : Type w} (f : α → β) (m : OrdMap κ α) (k : κ)

@[simp] theorem get?_map : (m.map f).get? k = (m.get? k).map f := by
  show lookup k (m.entries.map (Prod.map id f)) = (lookup k m.entries).map f
  induction m.entries with
  | nil => rfl
  | cons e es ih =>
    simp only [map_cons, lookup, map_fst, id_eq, ih]
    split_ifs <;> rfl

theorem map_erase : (m.erase k).map f = (m.map f).erase k := by
  simp only [map, erase, filter_map, mk.injEq]
  rfl

end

/-! ## The entry at or below a bound -/

/-- The entry found by `floor?` is in the list, at or below the bound. -/
theorem floorEntry_mem (h : floorEntry k es = some e) : e ∈ es ∧ e.1 ≤ k := by
  induction es with
  | nil => cases h
  | cons d es ih =>
    rw [floorEntry] at h
    split_ifs at h with hd
    cases hf : floorEntry k es with
    | none => rw [hf] at h; cases h; exact ⟨mem_cons_self, hd⟩
    | some f =>
      rw [hf] at h
      cases h
      obtain ⟨hm, hle⟩ := ih hf
      exact ⟨mem_cons_of_mem _ hm, hle⟩

/-- What `floor?` finds is stored, under a key at or below the bound. -/
theorem floor?_eq_some (h : m.floor? k = some (k', v)) : m.get? k' = some v ∧ k' ≤ k := by
  obtain ⟨hm, hle⟩ := floorEntry_mem h
  exact ⟨mem_entries.mp hm, hle⟩

/-- The greatest key at or below a bound is the one found. -/
theorem floorEntry_of_greatest (hs : es.Pairwise fun p q => p.1 < q.1) (he : e ∈ es) (hle : e.1 ≤ k)
    (hmax : ∀ d ∈ es, d.1 ≤ k → d.1 ≤ e.1) : floorEntry k es = some e := by
  induction es with
  | nil => cases he
  | cons d es ih =>
      obtain ⟨hd, hs⟩ := pairwise_cons.mp hs
      rw [floorEntry]
      rcases mem_cons.mp he with rfl | he
      · rw [if_pos hle]
        cases hf : floorEntry k es with
        | none => rfl
        | some f =>
            obtain ⟨hmem, hfk⟩ := floorEntry_mem hf
            exact absurd (hmax f (mem_cons_of_mem _ hmem) hfk) (not_le_of_gt (hd f hmem))
      · rw [if_pos (le_trans (le_of_lt (hd e he)) hle),
          ih hs he fun d hd => hmax d (mem_cons_of_mem _ hd)]
        rfl

theorem floor?_of_greatest (hget : m.get? k' = some v) (hle : k' ≤ k)
    (hmax : ∀ a w, m.get? a = some w → a ≤ k → a ≤ k') : m.floor? k = some (k', v) :=
  floorEntry_of_greatest m.sorted (mem_entries.mpr hget) hle
    fun d hd hdk => hmax d.1 d.2 (mem_entries.mp hd) hdk

end OrdMap

end Certus
