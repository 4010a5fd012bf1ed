import Certus.DispatchMap.Effects
import Certus.Dispatcher.System

/-! # What the dispatcher knows about one key

The dispatch map, the memory tier and the ledger each keep a table by key, and a call of one of
them reads and changes the row of its key only. The row of a key in the three tables is its **view**;
what a call may do to the view of its key is said here once, and whatever holds of a key along runs
is proved from it.

* **`view_exec`, `view_exec_of_ne`** — the calls of the system have these effects, and no other. -/

namespace Certus

open Option DispatchMap Dispatcher.WriteThroughPins

namespace Dispatcher

open MemoryTier

/-! ## The key of a call -/

/-- The key whose entry a call of the dispatch map is about. -/
def MapCall.key : MapCall → Option CacheKey
  | .lookup k | .convertToStorage k _ | .takeRead k | .releaseRead k | .releaseWrite k
  | .downgradeReference k | .remove k | .createMemoryTierEntry k _ _ | .convertMemoryTierToBlock k
  | .promoteBlockToMemoryTier k _ _ | .tryEvictToBlock k | .entrySize k => some k
  | .oldestKeys _ => none

/-- The key whose slot a call of the memory tier is about. -/
def TierCall.key : TierCall → Option CacheKey
  | .insert k _ | .get k | .peek k | .remove k | .contains k => some k
  | .usage | .oldestKeys _ => none

/-- The key whose pin a call of the ledger is about. -/
def PinCall.key : PinCall → CacheKey
  | .pin job => job.key
  | .start k | .finish k | .settled k | .takeOver k | .tookOver k | .gaveUp k
  | .recordWrite k _ => k

/-- The key whose view a call is about. -/
def Call.key : Call → Option CacheKey
  | .map c => c.key
  | .tier c => c.key
  | .pins c => some c.key
  | _ => none

/-! ## Effects -/

/-- What a call of the dispatch map may answer and do to the entry of its key. -/
def MapCall.Effect : (c : MapCall) → c.Answer → Option DispatchEntry → Option DispatchEntry → Prop
  | .lookup _, a, e, e' => LookupEffect a e e'
  | .convertToStorage _ offset, a, e, e' =>
    Modifies (·.location.Resident) (withStorage offset) a e e'
  | .takeRead _, a, e, e' =>
    Modifies (fun x => x.writeRef = 0 ∧ x.readRef < maxRef)
      (fun x => { x with readRef := x.readRef + 1 }) a e e'
  | .releaseRead _, a, e, e' =>
    Modifies (fun x => x.readRef ≠ 0) (fun x => { x with readRef := x.readRef - 1 }) a e e'
  | .releaseWrite _, a, e, e' =>
    Modifies (fun x => x.writeRef ≠ 0) (fun x => { x with writeRef := 0 }) a e e'
  | .downgradeReference _, a, e, e' => DowngradeEffect a e e'
  | .remove k, a, e, e' => RemoveEffect k a e e'
  | .createMemoryTierEntry k p n, a, e, e' => CreateEffect k p n a e e'
  | .convertMemoryTierToBlock _, a, e, e' =>
    Modifies (·.location.Written) (fun x => { x with location := x.location.demoted }) a e e'
  | .promoteBlockToMemoryTier _ p n, a, e, e' => PromoteEffect p n a e e'
  | .tryEvictToBlock _, a, e, e' =>
    Modifies (fun x => x.readRef = 0 ∧ x.writeRef = 0 ∧ x.location.Written)
      (fun x => { x with location := x.location.demoted }) a e e'
  | .entrySize k, a, e, e' =>
    e' = e ∧ a = match e with
      | none => .error (.keyNotFound k)
      | some x => .ok (x.sizeBlocks * 4096)
  | .oldestKeys _, _, e, e' => e' = e

/-- What a call of the memory tier may answer and do to the slot of its key. -/
def TierCall.Effect : (c : TierCall) → c.Answer → Option Slot → Option Slot → Prop
  | .insert _ n, a, s, s' =>
    ((∃ err, a = .error err) ∧ s' = s) ∨ ∃ p, a = .ok p ∧ n ≠ 0 ∧ s = none ∧ s' = some ⟨p, n⟩
  | .get _, a, s, s' | .peek _, a, s, s' => s' = s ∧ a = s.map fun x => (x.offset, x.size)
  | .remove _, _, _, s' => s' = none
  | .contains _, a, s, s' => s' = s ∧ a = s.isSome
  | .usage, _, s, s' | .oldestKeys _, _, s, s' => s' = s

/-- The state of a key in the ledger, unless it was idle and is forgotten. -/
def PinState.Forgets (p p' : PinState) : Prop := p' = p ∨ (p.idle ∧ p' = {})

/-- What a call of the ledger may answer and do to the pin of its key; `writer` is whether the
background writer runs. -/
def PinCall.Effect (writer : Bool) : (c : PinCall) → c.Answer → PinState → PinState → Prop
  | .pin _, _, p, p' => p' = { p with pinned := true, queued := writer }
  | .start _, a, p, p' =>
    (a = .stale ∧ 0 < p.stale ∧ PinState.Forgets { p with stale := p.stale - 1 } p') ∨
    (a = .untracked ∧ p.stale = 0 ∧ p.queued = false ∧ p' = p) ∨
    (a = .owned ∧ p.stale = 0 ∧ p.queued ∧
      p' = { p with queued := false, running := true })
  | .finish _, a, p, p' =>
    a = !p.removed ∧ p' = { p with running := false, pinned := false, removed := false }
  | .settled _, _, p, p' => p.Forgets p'
  | .takeOver _, a, p, p' => a = p.pinned ∧ p' = p
  | .tookOver _, a, p, p' =>
    a = p.running ∧ PinState.Forgets { p with
      pinned := false
      queued := false
      stale := if p.queued then p.stale + 1 else p.stale
      removed := p.running } p'
  | .gaveUp _, _, p, p' | .recordWrite _ _, _, p, p' => p' = p

/-- What a call of the ledger does to its lock: who takes it, and who looks at the ledger, has waited
until it was free. -/
def PinCall.Locks (c : PinCall) (locked locked' : Bool) : Prop :=
  match c with
  | .pin _ | .start _ => locked = false ∧ locked' = false
  | .finish _ | .takeOver _ => locked = false ∧ locked'
  | .settled _ | .tookOver _ | .gaveUp _ => locked' = false
  | .recordWrite _ _ => locked' = locked

/-- What a call does to the lock of the ledger. -/
def Call.Locks (c : Call) (locked locked' : Bool) : Prop :=
  match c with
  | .pins c => c.Locks locked locked'
  | _ => locked' = locked

/-- The entry, the slot and the pin state of a key. -/
structure KeyView where
  entry : Option DispatchEntry
  slot : Option Slot
  pin : PinState

/-- The view of a key. -/
def Shared.view (s : Shared) (k : CacheKey) : KeyView :=
  ⟨s.map.get? k, s.tier.slots.get? k, s.pins.state k⟩

/-- What a call may answer and do to the view of its key. -/
def Call.Effect (writer : Bool) : (c : Call) → c.Answer → KeyView → KeyView → Prop
  | .map c, a, v, v' => c.Effect a v.entry v'.entry ∧ v'.slot = v.slot ∧ v'.pin = v.pin
  | .tier c, a, v, v' => c.Effect a v.slot v'.slot ∧ v'.entry = v.entry ∧ v'.pin = v.pin
  | .pins c, a, v, v' =>
    c.Effect writer a v.pin v'.pin ∧ v'.entry = v.entry ∧ v'.slot = v.slot
  | _, _, v, v' => v' = v

/-! ## The dispatch map -/

theorem some_eq_some_mk {α β : Type} {x : α × β} {a : α} {b : β} (h : some x = some (a, b)) :
    x.1 = a ∧ x.2 = b := by
  cases h
  exact ⟨rfl, rfl⟩

variable {k : CacheKey} {keys : List CacheKey} {m m' : DispatchMap} {t t' : Tier} {s s' : Shared}
  {o : Oracle} {c : Call}

section

variable {c : MapCall} {a : c.Answer} (h : c.exec keys m = some (a, m'))
include h

/-- A call of the dispatch map has one of its effects on the entry of its key. -/
theorem MapCall.exec_effect (hk : c.key = some k) : c.Effect a (m.get? k) (m'.get? k) := by
  cases c <;> cases hk <;> obtain ⟨rfl, rfl⟩ := some_eq_some_mk h
  case lookup => exact lookup_effect m k
  case convertToStorage => exact convertToStorage_effect m k _
  case takeRead => exact takeRead_effect m k
  case releaseRead => exact releaseRead_effect m k
  case releaseWrite => exact releaseWrite_effect m k
  case downgradeReference => exact downgradeReference_effect m k
  case remove => exact remove_effect m k
  case createMemoryTierEntry => exact createMemoryTierEntry_effect m k _ _
  case convertMemoryTierToBlock => exact convertMemoryTierToBlock_effect m k
  case promoteBlockToMemoryTier => exact promoteBlockToMemoryTier_effect m k _ _
  case tryEvictToBlock => exact tryEvictToBlock_effect m k
  case entrySize =>
    refine ⟨rfl, ?_⟩
    unfold DispatchMap.entrySize
    cases m.get? k <;> rfl

/-- A call of the dispatch map leaves the entries of other keys alone. -/
theorem MapCall.exec_of_ne (hk : c.key ≠ some k) : m'.get? k = m.get? k := by
  have hne : ∀ key, some key ≠ some k → k ≠ key := fun key h hk => h (congrArg some hk.symm)
  cases c
  case oldestKeys =>
    simp only [MapCall.exec] at h
    split_ifs at h
    cases h
    rfl
  all_goals
    obtain ⟨-, rfl⟩ := some_eq_some_mk h
    try exact get?_modifyEntry_of_ne (hne _ hk)
    try rfl
  case lookup => exact get?_lookup_of_ne (hne _ hk)
  case remove => exact get?_remove_of_ne (hne _ hk)
  case createMemoryTierEntry => exact get?_createMemoryTierEntry_of_ne (hne _ hk) _ _
  case promoteBlockToMemoryTier => exact get?_promoteBlockToMemoryTier_of_ne (hne _ hk) _ _

end

/-! ## The memory tier -/

section

variable {c : TierCall} {a : c.Answer} (h : c.exec keys t = some (a, t'))
include h

/-- A call of the memory tier has one of its effects on the slot of its key. -/
theorem TierCall.exec_effect (hk : c.key = some k) :
    c.Effect a (t.slots.get? k) (t'.slots.get? k) := by
  cases c <;> cases hk
  case insert n =>
    cases hins : t.insert k n with
    | mk b u =>
      rw [TierCall.exec, hins] at h
      obtain ⟨rfl, rfl⟩ := some_eq_some_mk h
      cases b with
      | error err => exact .inl ⟨⟨err, rfl⟩, by rw [Tier.insert_error hins]⟩
      | ok p =>
        obtain ⟨hn, hnone, hslots⟩ := Tier.insert_ok hins
        exact .inr ⟨p, rfl, hn, hnone, by simp [hslots]⟩
  case remove =>
    obtain ⟨-, rfl⟩ := some_eq_some_mk h
    simp [TierCall.Effect]
  all_goals
    obtain ⟨rfl, rfl⟩ := some_eq_some_mk h
    exact ⟨rfl, rfl⟩

/-- A call of the memory tier leaves the slots of other keys alone. -/
theorem TierCall.exec_of_ne (hk : c.key ≠ some k) : t'.slots.get? k = t.slots.get? k := by
  have hne : ∀ key, some key ≠ some k → k ≠ key := fun key h hk => h (congrArg some hk.symm)
  cases c
  case insert key n =>
    cases hins : t.insert key n with
    | mk b u =>
      rw [TierCall.exec, hins] at h
      obtain ⟨-, rfl⟩ := some_eq_some_mk h
      cases b with
      | error err => rw [Tier.insert_error hins]
      | ok p =>
        rw [(Tier.insert_ok hins).2.2, OrdMap.get?_insert, if_neg (hne _ hk)]
  case remove key =>
    obtain ⟨-, rfl⟩ := some_eq_some_mk h
    simp [hne _ hk]
  case oldestKeys =>
    simp only [TierCall.exec] at h
    split_ifs at h
    cases h
    rfl
  all_goals
    cases h
    rfl

end

/-! ## The ledger -/

theorem forgets_forgetIfIdle (pins : WriteThroughPins) (k : CacheKey) :
    (pins.state k).Forgets ((pins.forgetIfIdle k).state k) := by
  unfold forgetIfIdle
  split
  next s hget =>
    have hs : pins.state k = s := by simp [WriteThroughPins.state, hget]
    split_ifs with hidle
    · exact .inr ⟨by rw [hs, hidle], by simp [WriteThroughPins.state]⟩
    · exact .inl rfl
  next => exact .inl rfl

theorem state_forgetIfIdle_of_ne {pins : WriteThroughPins} {key k : CacheKey} (hne : k ≠ key) :
    (pins.forgetIfIdle key).state k = pins.state k := by
  unfold forgetIfIdle
  split
  · split_ifs
    · simp [WriteThroughPins.state, hne]
    · rfl
  · rfl

section

variable (writer : Bool) (pins : WriteThroughPins) (k : CacheKey)

theorem start_effect :
    (PinCall.start k).Effect writer (pins.start k).1 (pins.state k) ((pins.start k).2.state k) := by
  unfold WriteThroughPins.start
  cases hget : pins.keys.get? k with
  | none =>
    have hs : pins.state k = {} := by simp [WriteThroughPins.state, hget]
    rw [hs]
    exact .inr (.inl ⟨rfl, rfl, rfl, rfl⟩)
  | some s =>
    have hs : pins.state k = s := by simp [WriteThroughPins.state, hget]
    rw [hs]
    dsimp only
    split_ifs with hstale hqueued
    · refine .inl ⟨rfl, hstale, ?_⟩
      have hforget := forgets_forgetIfIdle (pins.set k { s with stale := s.stale - 1 }) k
      rwa [state_set, if_pos rfl] at hforget
    · exact .inr (.inl ⟨rfl, by omega, by simpa using hqueued, hs⟩)
    · exact .inr (.inr ⟨rfl, by omega, by simpa using hqueued, by simp⟩)

theorem finish_effect : (PinCall.finish k).Effect writer (pins.finish k).1 (pins.state k)
      ((pins.finish k).2.state k) := by
  unfold WriteThroughPins.finish
  cases hget : pins.keys.get? k with
  | none =>
    have hs : pins.state k = {} := by simp [WriteThroughPins.state, hget]
    rw [hs]
    exact ⟨rfl, rfl⟩
  | some s =>
    have hs : pins.state k = s := by simp [WriteThroughPins.state, hget]
    rw [hs]
    exact ⟨rfl, by simp⟩

theorem takeOver_effect : (PinCall.tookOver k).Effect writer (pins.takeOver k).1 (pins.state k)
      ((pins.takeOver k).2.state k) := by
  refine ⟨rfl, ?_⟩
  have hforget := forgets_forgetIfIdle (pins.set k
    { pins.state k with
      pinned := false
      queued := false
      stale := if (pins.state k).queued then (pins.state k).stale + 1 else (pins.state k).stale
      removed := (pins.state k).running }) k
  rwa [state_set, if_pos rfl] at hforget

end

section

variable {c : PinCall} {a : c.Answer} (h : c.exec s = some (a, s'))
include h

/-- A call of the ledger has one of its effects on the pin of its key. -/
theorem PinCall.exec_effect : c.Effect s.writer a (s.pins.state c.key) (s'.pins.state c.key) := by
  cases c <;> simp only [PinCall.exec] at h
  case pin =>
    split_ifs at h
    all_goals
      cases h
      exact (state_pin ..).trans (if_pos rfl)
  case start k =>
    split_ifs at h
    cases h
    exact start_effect s.writer s.pins k
  case finish k =>
    split_ifs at h
    cases h
    exact finish_effect s.writer s.pins k
  case takeOver k =>
    split_ifs at h
    cases h
    exact ⟨rfl, rfl⟩
  case settled k =>
    cases h
    exact forgets_forgetIfIdle s.pins k
  case tookOver k =>
    cases h
    exact takeOver_effect s.writer s.pins k
  all_goals
    cases h
    try exact state_recordWrite ..
    try rfl

theorem PinCall.exec_of_ne (hk : k ≠ c.key) : s'.pins.state k = s.pins.state k := by
  cases c <;> simp only [PinCall.exec] at h
  case pin =>
    split_ifs at h
    all_goals
      cases h
      exact (state_pin ..).trans (if_neg hk)
  case start key =>
    split_ifs at h
    cases h
    unfold WriteThroughPins.start
    split
    · rfl
    · split_ifs
      · exact (state_forgetIfIdle_of_ne hk).trans ((state_set ..).trans (if_neg hk))
      · rfl
      · exact (state_set ..).trans (if_neg hk)
  case finish key =>
    split_ifs at h
    cases h
    unfold WriteThroughPins.finish
    split
    · rfl
    · exact (state_set ..).trans (if_neg hk)
  case takeOver =>
    split_ifs at h
    cases h
    rfl
  case settled =>
    cases h
    exact state_forgetIfIdle_of_ne hk
  case tookOver =>
    cases h
    exact (state_forgetIfIdle_of_ne hk).trans ((state_set ..).trans (if_neg hk))
  all_goals
    cases h
    try exact state_recordWrite ..
    try rfl

/-- A call of the ledger changes neither the map nor the memory tier. -/
theorem PinCall.exec_frame : s'.map = s.map ∧ s'.tier = s.tier := by
  cases c <;> simp only [PinCall.exec] at h <;> try split_ifs at h
  all_goals
    cases h
    exact ⟨rfl, rfl⟩

/-- A call of the ledger finds the lock as it may be found, and leaves it so. -/
theorem PinCall.exec_lock : c.Locks s.locked s'.locked := by
  cases c <;> simp only [PinCall.exec] at h
  case pin | start | finish | takeOver =>
    split_ifs at h with hlocked
    all_goals
      cases h
      exact ⟨by simpa using hlocked, by first | rfl | simpa using hlocked⟩
  all_goals
    cases h
    rfl

end

theorem ExtentCall.exec_frame {c : ExtentCall} {a : c.Answer} (h : c.exec o s = some (a, s')) :
    ∃ extents, s' = { s with extents := extents } := by
  cases c <;> simp only [ExtentCall.exec] at h
  case reserve =>
    split_ifs at h
    all_goals
      cases h
      exact ⟨_, rfl⟩
  case publish =>
    cases h
    split <;> exact ⟨_, rfl⟩
  case remove =>
    split at h
    all_goals
      cases h
      exact ⟨_, rfl⟩
  all_goals
    cases h
    exact ⟨_, rfl⟩

/-! ## All calls -/

section

variable {a : c.Answer} (h : c.exec o s = some (a, s'))
include h

/-- **A call has one of its effects on the view of its key.** -/
theorem view_exec (hk : c.key = some k) : c.Effect s.writer a (s.view k) (s'.view k) := by
  cases c <;> try cases hk
  case map c =>
    obtain ⟨⟨b, m'⟩, hexec, heq⟩ := map_eq_some_iff.mp h
    cases heq
    exact ⟨MapCall.exec_effect hexec hk, rfl, rfl⟩
  case tier c =>
    obtain ⟨⟨b, t'⟩, hexec, heq⟩ := map_eq_some_iff.mp h
    cases heq
    exact ⟨TierCall.exec_effect hexec hk, rfl, rfl⟩
  case pins c =>
    obtain ⟨hmap, htier⟩ := PinCall.exec_frame h
    exact ⟨PinCall.exec_effect h, by simp [Shared.view, hmap], by simp [Shared.view, htier]⟩

/-- A lookup is not told the size of an entry, so it never finds it to be wrong. -/
def Call.Genuine : (c : Call) → c.Answer → Prop
  | .map (.lookup _), a => a ≠ .ok .mismatchSize
  | _, _ => True

theorem genuine_exec : c.Genuine a := by
  cases c <;> try exact trivial
  case map c =>
  obtain ⟨⟨b, m'⟩, hexec, heq⟩ := map_eq_some_iff.mp h
  cases heq
  cases c <;> try exact trivial
  rintro rfl
  rcases MapCall.exec_effect hexec rfl with ⟨h, -⟩ | ⟨⟨err, h⟩, -⟩ | ⟨x, -, -, h, -⟩
  · cases h
  · cases h
  · cases hx : x.location <;> rw [hx] at h <;> cases h

/-- **A call leaves the views of other keys alone.** -/
theorem view_exec_of_ne (hk : c.key ≠ some k) : s'.view k = s.view k := by
  cases c
  case map c =>
    obtain ⟨⟨b, m'⟩, hexec, heq⟩ := map_eq_some_iff.mp h
    cases heq
    simp only [Shared.view, MapCall.exec_of_ne hexec hk]
  case tier c =>
    obtain ⟨⟨b, t'⟩, hexec, heq⟩ := map_eq_some_iff.mp h
    cases heq
    simp only [Shared.view, TierCall.exec_of_ne hexec hk]
  case pins c =>
    obtain ⟨hmap, htier⟩ := PinCall.exec_frame h
    have hne : k ≠ c.key := fun heq => hk (congrArg some heq.symm)
    simp only [Shared.view, hmap, htier, PinCall.exec_of_ne h hne]
  case extents c =>
    obtain ⟨extents, rfl⟩ := ExtentCall.exec_frame h
    rfl
  all_goals
    cases h
    rfl

/-- Only calls of the ledger touch its lock. -/
theorem locked_exec (hc : ∀ p, c ≠ .pins p) : s'.locked = s.locked := by
  cases c
  case map c =>
    obtain ⟨⟨b, m'⟩, hexec, heq⟩ := map_eq_some_iff.mp h
    cases heq
    rfl
  case tier c =>
    obtain ⟨⟨b, m'⟩, hexec, heq⟩ := map_eq_some_iff.mp h
    cases heq
    rfl
  case pins c => exact absurd rfl (hc c)
  case extents c =>
    obtain ⟨extents, rfl⟩ := ExtentCall.exec_frame h
    rfl
  all_goals
    cases h
    rfl

/-- What the calls of the system do to the lock of the ledger. -/
theorem lock_exec : c.Locks s.locked s'.locked := by
  by_cases hc : ∃ p, c = .pins p
  · obtain ⟨p, rfl⟩ := hc
    exact PinCall.exec_lock h
  · have hsame := locked_exec h fun p hp => hc ⟨p, hp⟩
    cases c
    case pins p => exact absurd ⟨p, rfl⟩ hc
    all_goals exact hsame

end

/-- Taking up a request changes neither a view, nor whether the writer runs, nor the lock. -/
theorem view_accept {r : Request} (h : r.accept s = some s') (k : CacheKey) :
    s'.view k = s.view k ∧ s'.writer = s.writer ∧ s'.locked = s.locked := by
  cases r
  case writeJob =>
    simp only [Request.accept] at h
    split_ifs at h
    cases h
    exact ⟨rfl, rfl, rfl⟩
  all_goals
    cases h
    exact ⟨rfl, rfl, rfl⟩

end Dispatcher

end Certus
