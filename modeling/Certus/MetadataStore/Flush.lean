import Certus.Lib.Run
import Certus.MetadataStore.Format

/-! # The flush worker of the extended metadata store

`flush.rs` and the store's side of it in `lib.rs`: threads change the map and count each change as
dirty, a worker thread writes snapshots of the map, and `trigger_flush` waits for the worker with a
ticket. Every critical section and every update of a counter is one step, in any order that the
threads allow.

* **`World.step`** — one step of a thread; whether a flush succeeds is part of the event.
* **`World.flushed_when_ok`** — a `trigger_flush` that returned `Ok` is durable, and a store that is
  not dirty is the last snapshot written.
* **`World.unwritten_dirty`** — what is not written is dirty. -/

namespace Certus.MetadataStore.Flush

open List

/-! ## The model -/

/-- The entries of the map, or of a snapshot of it. -/
abbrev Entries := Key → Option (List UInt8)

/-- 128 KiB -/
def maxValueSize : ℕ := 128 * 1024

/-- A change to the map: the value a key is set to, or `none` for a deletion. -/
structure Mutation where
  key : Key
  value : Option (List UInt8)

/-- The map after a change. -/
def Mutation.apply (entries : Entries) (m : Mutation) : Entries :=
  fun k => if k = m.key then m.value else entries k

/-- The map after a list of changes. -/
def replay (entries : Entries) (history : List Mutation) : Entries :=
  history.foldl Mutation.apply entries

/-- The value of the last change of a key, or else the one it had. -/
def lastValue (entries : Entries) (history : List Mutation) (k : Key) : Option (List UInt8) :=
  ((history.reverse.find? (·.key = k)).map (·.value)).getD (entries k)

/-- The map after changes has the last value of each key. -/
theorem replay_apply (entries : Entries) (history : List Mutation) (k : Key) :
    replay entries history k = lastValue entries history k := by
  induction history using reverseRecOn with
  | nil => rfl
  | append_singleton history m ih =>
    rw [lastValue, reverse_append, reverse_singleton, singleton_append, find?_cons, replay,
      foldl_append, foldl_cons, foldl_nil, Mutation.apply]
    by_cases hk : m.key = k
    · simp [hk]
    · simpa [hk, Ne.symm hk, replay, lastValue] using ih

/-- A snapshot, marked with the number of changes made before it was taken. -/
structure Snapshot where
  entries : Entries
  covers : ℕ

/-- `FlushTickets` -/
structure FlushTickets where
  requested : ℕ := 0
  completed : ℕ := 0
  durable : ℕ := 0
  lastError : Option String := none

/-- Where a caller of `trigger_flush` is. -/
inductive CallPhase where
  | ticketed
  | waiting
  | returned (result : Except String Unit)

/-- A call of `trigger_flush`, marked with the changes whose `put` or `delete` had returned when it
took its ticket. -/
structure Call where
  before : List ℕ
  phase : CallPhase

/-- Where the worker is: in its wait, or in a pass. `last` marks the pass before the thread ends. -/
inductive Phase where
  | waiting
  | woken (wasSignaled : Bool)
  | serving (wasSignaled : Bool) (serving : ℕ)
  | checking (wasSignaled : Bool) (serving : ℕ)
  | settling (serving : ℕ)
  | taking (serving : ℕ) (last : Bool)
  | flushing (serving : ℕ) (last : Bool) (snapshot : Snapshot)
  | marking (serving : ℕ) (last : Bool)
  | subtracting (serving : ℕ) (last : Bool) (flushed : ℕ)
  | finishing (serving : ℕ) (last : Bool) (result : Except String Unit)
  | exited

/-- The store and its flush manager. `history` lists the changes to the map, oldest first, and
`uncounted` the numbers of those that `dirty_count` does not count yet; `written` lists the
snapshots that a flush has written with success, newest first. -/
structure World where
  dirtyThreshold : ℕ
  initial : Entries
  store : Entries
  dirtyCount : ℕ
  snapshotDirty : ℕ
  history : List Mutation
  uncounted : List ℕ
  written : List Snapshot
  signaled : Bool
  shutdown : Bool
  tickets : FlushTickets
  calls : ℕ → Option Call
  thresholdArmed : Bool
  phase : Phase

open World

/-- What ends the worker's wait. -/
inductive Cause where
  | signal
  | threshold
  | timer

/-- One step of a thread. -/
inductive Event where
  | put (key : Key) (value : List UInt8)
  | delete (key : Key)
  | count (n : ℕ)
  | request
  | signal (ticket : ℕ)
  | complete (ticket : ℕ)
  | drop
  | dropSignal
  | wake (cause : Cause)
  | serve
  | look
  | check
  | snapshot
  | flush (result : Except String Unit)
  | swap
  | subtract
  | finish

/-- The change that a step makes to the map: `put` refuses a value that is too large. -/
def Event.change : Event → Option Mutation
  | .put key value => if value.length > maxValueSize then none else some ⟨key, some value⟩
  | .delete key => some ⟨key, none⟩
  | _ => none

namespace World

/-- The store after `load_entries`, or empty, with a worker that has just started. -/
def start (dirtyThreshold : ℕ) (entries : Entries) : World where
  dirtyThreshold
  initial := entries
  store := entries
  dirtyCount := 0
  snapshotDirty := 0
  history := []
  uncounted := []
  written := []
  signaled := false
  shutdown := false
  tickets := {}
  calls := fun _ => none
  thresholdArmed := true
  phase := .waiting

variable (w : World)

/-- The critical section of `put` and `delete`. -/
def update (m : Mutation) : World :=
  { w with
    store := m.apply w.store
    history := w.history ++ [m]
    uncounted := w.history.length :: w.uncounted }

/-- `put`, up to the end of its critical section: a value that is too large changes nothing. -/
def put (key : Key) (value : List UInt8) : World :=
  if value.length > maxValueSize then w else w.update ⟨key, some value⟩

/-- `delete`, up to the end of its critical section. -/
def delete (key : Key) : World := w.update ⟨key, none⟩

/-- The changes whose calls have returned. -/
def counted : List ℕ :=
  (List.range w.history.length).filter (· ∉ w.uncounted)

/-- A call goes on. -/
def setCall (ticket : ℕ) (call : Call) : World :=
  { w with calls := fun t => if t = ticket then some call else w.calls t }

/-- `trigger_flush` takes its ticket. -/
def request : World :=
  let w' := { w with tickets := { w.tickets with requested := w.tickets.requested + 1 } }
  w'.setCall (w.tickets.requested + 1) ⟨w.counted, .ticketed⟩

/-- What `trigger_flush` returns once its ticket is complete. -/
def outcome (ticket : ℕ) : Except String Unit :=
  if ticket ≤ w.tickets.durable then .ok () else .error (w.tickets.lastError.getD "")

/-- The wait of the worker ends: `dirty_threshold` is taken as at least one. -/
def wake : Cause → Option World
  | .signal => if w.signaled then
      some { w with signaled := false, phase := .woken true } else none
  | .threshold => if w.signaled = false ∧ w.thresholdArmed ∧ max w.dirtyThreshold 1 ≤ w.dirtyCount
      then some { w with phase := .woken false } else none
  | .timer => if w.signaled = false then some { w with phase := .woken false } else none

/-- `snapshot_entries`: the snapshot, and the dirty count it covers. -/
def snapshotEntries : World × Snapshot :=
  ({ w with snapshotDirty := w.dirtyCount }, ⟨w.store, w.history.length⟩)

/-- The tickets up to `serving` are complete, and durable after a success. -/
def completeTickets (serving : ℕ) (result : Except String Unit) : World :=
  let completed := max w.tickets.completed serving
  { w with tickets := match result with
    | .ok () => { w.tickets with completed, durable := max w.tickets.durable serving }
    | .error e => { w.tickets with completed, lastError := some e } }

/-- A step of the worker in its phase. -/
def work : Phase → Event → Option World
  | .waiting, .wake cause => w.wake cause
  | .woken wasSignaled, .serve =>
    some { w with phase := .serving wasSignaled w.tickets.requested }
  | .serving wasSignaled serving, .look =>
    -- the last pass flushes whatever the dirty count is
    some { w with phase :=
      if w.shutdown then .taking serving true else .checking wasSignaled serving }
  | .checking wasSignaled serving, .check =>
    some { w with phase :=
      if w.dirtyCount = 0 then if wasSignaled then .settling serving else .waiting
      else .taking serving false }
  | .settling serving, .finish =>
    some { w.completeTickets serving (.ok ()) with phase := .waiting }
  | .taking serving last, .snapshot =>
    let (w', s) := w.snapshotEntries
    some { w' with phase := .flushing serving last s }
  | .flushing serving last s, .flush (.ok ()) =>
    some { w with written := s :: w.written, phase := .marking serving last }
  | .flushing serving last _, .flush (.error e) =>
    some { w with phase := .finishing serving last (.error e) }
  | .marking serving last, .swap =>
    some { w with snapshotDirty := 0, phase := .subtracting serving last w.snapshotDirty }
  | .subtracting serving last flushed, .subtract =>
    some { w with
      dirtyCount := w.dirtyCount - flushed
      phase := .finishing serving last (.ok ()) }
  | .finishing serving last result, .finish =>
    some { w.completeTickets serving result with
      thresholdArmed := result.isOk
      phase := if last then .exited else .waiting }
  | _, _ => none

/-- One step of a thread, when it is enabled. -/
def step : Event → Option World
  | .put key value => some (w.put key value)
  | .delete key => some (w.delete key)
  | .count n => if n ∈ w.uncounted then
      some { w with uncounted := w.uncounted.erase n, dirtyCount := w.dirtyCount + 1 } else none
  | .request => some w.request
  | .signal ticket => match w.calls ticket with
      | some ⟨before, .ticketed⟩ =>
        some ({ w with signaled := true }.setCall ticket ⟨before, .waiting⟩)
      | _ => none
  | .complete ticket => match w.calls ticket with
      | some ⟨before, .waiting⟩ => if ticket ≤ w.tickets.completed then
          some (w.setCall ticket ⟨before, .returned (w.outcome ticket)⟩) else none
      | _ => none
  | .drop => some { w with shutdown := true }
  | .dropSignal => if w.shutdown then some { w with signaled := true } else none
  | e => w.work w.phase e

/-- A change is in a snapshot that was written. -/
def Saved (n : ℕ) : Prop := ∃ s ∈ w.written, n < s.covers

/-- The entries last written, or those the store started with. -/
def lastWritten : Entries := (w.written.head?.map (·.entries)).getD w.initial

end World

/-! ## The invariant -/

/-- The snapshot is the map as it was after the changes it covers. -/
def Snapshot.Of (w : World) (s : Snapshot) : Prop :=
  s.covers ≤ w.history.length ∧ s.entries = replay w.initial (w.history.take s.covers)

namespace World

/-- The changes that the last snapshot written covers. -/
def base (w : World) : ℕ := (w.written.head?.map (·.covers)).getD 0

/-- The part of the dirty count that the pass is about to take off. -/
def owed (w : World) : ℕ := match w.phase with
  | .marking _ _ => w.snapshotDirty
  | .subtracting _ _ flushed => flushed
  | _ => 0

/-- The changes from number `base` on are counted, but for `owed`, or about to be. -/
def Balanced (w : World) (base owed : ℕ) : Prop :=
  w.history.length + owed ≤ base + w.uncounted.countP (base ≤ ·) + w.dirtyCount

/-- What the callers with tickets up to `serving` had done before is there: `P`. -/
def Served (w : World) (serving : ℕ) (P : ℕ → Prop) : Prop :=
  serving ≤ w.tickets.requested ∧
    ∀ t c, w.calls t = some c → t ≤ serving → ∀ n ∈ c.before, P n

/-- What holds in each phase of the worker. -/
def PhaseSound (w : World) : Phase → Prop
  | .waiting | .woken _ | .exited => True
  | .serving _ serving | .checking _ serving | .taking serving _ => serving ≤ w.tickets.requested
  | .finishing serving _ (.error _) => serving ≤ w.tickets.requested
  | .flushing serving _ s => s.Of w ∧ w.Balanced s.covers w.snapshotDirty ∧
      w.Served serving (· < s.covers)
  | .settling serving | .marking serving _ | .subtracting serving _ _
  | .finishing serving _ (.ok ()) => w.Served serving w.Saved

end World

/-- The invariant of the store and its worker. -/
structure Sound (w : World) : Prop where
  store : w.store = replay w.initial w.history
  uncounted : ∀ n ∈ w.uncounted, n < w.history.length
  distinct : w.uncounted.Nodup
  written : ∀ s ∈ w.written, s.Of w
  balanced : w.Balanced w.base w.owed
  before : ∀ t c, w.calls t = some c → t ≤ w.tickets.requested ∧ ∀ n ∈ c.before, n ∈ w.counted
  durable : w.Served w.tickets.durable w.Saved
  returned : ∀ t c, w.calls t = some c → c.phase = .returned (.ok ()) → t ≤ w.tickets.durable
  phase : w.PhaseSound w.phase

namespace World

variable {w w' : World}

/-- The part of the invariant that carries over when a thread other than the worker moves. -/
structure Frame (w w' : World) : Prop where
  snapshots : ∀ s : Snapshot, s.Of w → s.Of w'
  balanced : ∀ base owed, base ≤ w.history.length → w.Balanced base owed → w'.Balanced base owed
  served : ∀ serving P, w.Served serving P → w'.Served serving P
  written : w'.written = w.written
  snapshotDirty : w'.snapshotDirty = w.snapshotDirty
  durable : w'.tickets.durable = w.tickets.durable
  requested : w.tickets.requested ≤ w'.tickets.requested
  phase : w'.phase = w.phase

theorem Served.mono {serving : ℕ} {P Q : ℕ → Prop} (h : w.Served serving P)
    (himp : ∀ n, P n → Q n) : w.Served serving Q :=
  ⟨h.1, fun t c hc ht n hn => himp n (h.2 t c hc ht n hn)⟩

theorem Saved.of_written {n : ℕ} (h : w.Saved n) (hsub : w.written ⊆ w'.written) : w'.Saved n := by
  obtain ⟨s, hs, hn⟩ := h
  exact ⟨s, hsub hs, hn⟩

variable (h : Frame w w')
include h

theorem Frame.saved (n : ℕ) (hn : w.Saved n) : w'.Saved n :=
  hn.of_written (h.written ▸ List.Subset.refl _)

/-- What holds in the worker's phase goes on to hold. -/
theorem Frame.phaseSound (hphase : w.PhaseSound w.phase) : w'.PhaseSound w'.phase := by
  have hsaved : ∀ serving, w.Served serving w.Saved → w'.Served serving w'.Saved :=
    fun serving hserved => (h.served _ _ hserved).mono h.saved
  rw [h.phase]
  cases hp : w.phase with
  | waiting | woken | exited => trivial
  | serving | checking | taking =>
    rw [hp] at hphase
    exact le_trans hphase h.requested
  | settling | marking | subtracting =>
    rw [hp] at hphase
    exact hsaved _ hphase
  | flushing serving last s =>
    rw [hp] at hphase
    obtain ⟨hof, hbal, hserved⟩ := hphase
    exact ⟨h.snapshots s hof, h.snapshotDirty ▸ h.balanced _ _ hof.1 hbal, h.served _ _ hserved⟩
  | finishing serving last result =>
    rw [hp] at hphase
    cases result with
    | ok => exact hsaved _ hphase
    | error => exact le_trans hphase h.requested

theorem Frame.base_eq : w'.base = w.base := by rw [base, h.written, base]

theorem Frame.owed_eq : w'.owed = w.owed := by
  rw [owed, h.phase, h.snapshotDirty, owed]

end World

namespace Sound

variable {w w' : World}

/-- The last snapshot written covers only changes that were made. -/
theorem base_le (h : Sound w) : w.base ≤ w.history.length := by
  cases hw : w.written with
  | nil => rw [base, hw]; exact Nat.zero_le _
  | cons s rest =>
    rw [base, hw]
    exact (h.written s (hw ▸ mem_cons_self ..)).1

theorem frame (h : Sound w) (hframe : w.Frame w') (hstore : w'.store = replay w'.initial w'.history)
    (huncounted : ∀ n ∈ w'.uncounted, n < w'.history.length) (hdistinct : w'.uncounted.Nodup)
    (hbefore : ∀ t c, w'.calls t = some c →
      t ≤ w'.tickets.requested ∧ ∀ n ∈ c.before, n ∈ w'.counted)
    (hreturned : ∀ t c, w'.calls t = some c → c.phase = .returned (.ok ()) →
      t ≤ w'.tickets.durable) : Sound w' where
  store := hstore
  uncounted := huncounted
  distinct := hdistinct
  written s hs := hframe.snapshots s (h.written s (hframe.written ▸ hs))
  balanced := hframe.base_eq ▸ hframe.owed_eq ▸ hframe.balanced _ _ h.base_le h.balanced
  before := hbefore
  durable := hframe.durable ▸ (hframe.served _ _ h.durable).mono hframe.saved
  returned := hreturned
  phase := hframe.phaseSound h.phase

/-! ### Changes to the map -/

variable {n serving : ℕ} {last : Bool} {e : Event}

theorem mem_counted : n ∈ w.counted ↔ n < w.history.length ∧ n ∉ w.uncounted := by
  rw [counted, mem_filter, mem_range, decide_eq_true_iff]

section

variable (h : Sound w)
include h

theorem update (m : Mutation) : Sound (w.update m) := by
  have hlen : (w.update m).history.length = w.history.length + 1 := length_append
  refine h.frame ⟨fun s hs => ⟨?_, ?_⟩, fun base owed hbase hbal => ?_, fun _ _ hserved => hserved,
    rfl, rfl, rfl, le_refl _, rfl⟩ ?_ (fun n hn => ?_) ?_ (fun t c hc => ?_) h.returned
  · exact le_trans hs.1 (hlen ▸ Nat.le_succ _)
  · change s.entries = replay w.initial ((w.history ++ [m]).take s.covers)
    rw [take_append_of_le_length hs.1]
    exact hs.2
  · -- the new change is not counted yet, and no snapshot so far covers it
    have hcount : (w.update m).uncounted.countP (base ≤ ·) = w.uncounted.countP (base ≤ ·) + 1 :=
      countP_cons_of_pos (decide_eq_true hbase)
    have hdirty : (w.update m).dirtyCount = w.dirtyCount := rfl
    unfold World.Balanced at hbal ⊢
    omega
  · change m.apply w.store = replay w.initial (w.history ++ [m])
    rw [h.store, replay, replay, foldl_append, foldl_cons, foldl_nil]
  · rw [hlen]
    rcases mem_cons.mp hn with rfl | hmem
    · exact Nat.lt_succ_self _
    · exact Nat.lt_succ_of_lt (h.uncounted n hmem)
  · refine nodup_cons.mpr ⟨fun hmem => ?_, h.distinct⟩
    exact lt_irrefl _ (h.uncounted _ hmem)
  · refine ⟨(h.before t c hc).1, fun n hn => mem_counted.mpr ?_⟩
    obtain ⟨hlt, hnot⟩ := mem_counted.mp ((h.before t c hc).2 n hn)
    refine ⟨hlen ▸ Nat.lt_succ_of_lt hlt, fun hmem => ?_⟩
    rcases mem_cons.mp hmem with heq | hold
    · exact lt_irrefl _ (heq ▸ hlt)
    · exact hnot hold

theorem count (hn : n ∈ w.uncounted) :
    Sound { w with uncounted := w.uncounted.erase n, dirtyCount := w.dirtyCount + 1 } := by
  refine h.frame ⟨fun s hs => hs, fun base owed hbase hbal => ?_, fun _ _ hserved => hserved,
    rfl, rfl, rfl, le_refl _, rfl⟩ h.store (fun k hk => ?_) ?_ (fun t c hc => ?_) h.returned
  · have hperm := (perm_cons_erase hn).countP_eq (base ≤ ·)
    rw [countP_cons] at hperm
    change w.history.length + owed ≤
      base + (w.uncounted.erase n).countP (base ≤ ·) + (w.dirtyCount + 1)
    unfold World.Balanced at hbal
    split_ifs at hperm <;> omega
  · exact h.uncounted k (mem_of_mem_erase hk)
  · exact h.distinct.erase n
  · refine ⟨(h.before t c hc).1, fun k hk => mem_counted.mpr ?_⟩
    obtain ⟨hlt, hnot⟩ := mem_counted.mp ((h.before t c hc).2 k hk)
    exact ⟨hlt, fun hmem => hnot (mem_of_mem_erase hmem)⟩

/-! ### Callers -/

/-- A caller takes a ticket: no pass under way serves it. -/
theorem request : Sound w.request := by
  refine h.frame ⟨fun s hs => hs, fun _ _ _ hbal => hbal, fun serving P hserved => ⟨?_, ?_⟩,
    rfl, rfl, rfl, Nat.le_succ _, rfl⟩ h.store h.uncounted h.distinct (fun t c hc => ?_)
    fun t c hc hret => ?_
  · exact Nat.le_succ_of_le hserved.1
  · intro t c hc ht
    have hne : t ≠ w.tickets.requested + 1 := by have := hserved.1; omega
    exact hserved.2 t c ((if_neg hne).symm.trans hc) ht
  all_goals
    change (if t = w.tickets.requested + 1 then _ else _) = _ at hc
    split_ifs at hc with heq
  · cases hc
    exact ⟨Nat.le_of_eq heq, fun n hn => hn⟩
  · exact ⟨Nat.le_succ_of_le (h.before t c hc).1, (h.before t c hc).2⟩
  · cases hc
    cases hret
  · exact h.returned t c hc hret

/-- A caller goes on: what it had done before stays as it was. -/
theorem setCall {t : ℕ} {c : Call} (c' : Call) (hc : w.calls t = some c)
    (hsame : c'.before = c.before) (hret : c'.phase = .returned (.ok ()) → t ≤ w.tickets.durable)
    (signaled : Bool) : Sound ({ w with signaled }.setCall t c') := by
  -- each call of the new world has the ticket and the earlier changes of one of the old
  have hold : ∀ k d, ({ w with signaled }.setCall t c').calls k = some d →
      ∃ d', w.calls k = some d' ∧ d.before = d'.before := by
    intro k d hd
    change (if k = t then some c' else w.calls k) = some d at hd
    split_ifs at hd with heq
    · cases hd
      exact ⟨c, heq ▸ hc, hsame⟩
    · exact ⟨d, hd, rfl⟩
  refine h.frame ⟨fun s hs => hs, fun _ _ _ hbal => hbal, fun serving P hserved => ⟨hserved.1, ?_⟩,
    rfl, rfl, rfl, le_refl _, rfl⟩ h.store h.uncounted h.distinct (fun k d hd => ?_)
    fun k d hd hdone => ?_
  · intro k d hd hk
    obtain ⟨d', hd', hbefore⟩ := hold k d hd
    exact hbefore ▸ hserved.2 k d' hd' hk
  · obtain ⟨d', hd', hbefore⟩ := hold k d hd
    exact ⟨(h.before k d' hd').1, hbefore ▸ (h.before k d' hd').2⟩
  · change (if k = t then some c' else w.calls k) = some d at hd
    split_ifs at hd with heq
    · cases hd
      exact heq ▸ hret hdone
    · exact h.returned k d hd hdone

/-! ### The worker -/

/-- **What is counted and not dirty is written.** The changes from the last snapshot on are as many
as those not counted yet, so that they are the same. -/
theorem saved_of_counted (hdirty : w.dirtyCount = 0) (hn : n ∈ w.counted) : w.Saved n := by
  obtain ⟨hlt, hnot⟩ := mem_counted.mp hn
  have hbase : n < w.base := by
    by_contra hge
    have hsub : (w.uncounted.filter (w.base ≤ ·)).toFinset ⊆
        (Finset.Ico w.base w.history.length).erase n := by
      intro k hk
      rw [mem_toFinset, mem_filter, decide_eq_true_iff] at hk
      rw [Finset.mem_erase, Finset.mem_Ico]
      exact ⟨fun heq => hnot (heq ▸ hk.1), hk.2, h.uncounted k hk.1⟩
    have hcard := Finset.card_le_card hsub
    have hmem : n ∈ Finset.Ico w.base w.history.length := by
      rw [Finset.mem_Ico]
      omega
    rw [toFinset_card_of_nodup (h.distinct.filter _), Finset.card_erase_of_mem hmem,
      Nat.card_Ico, ← countP_eq_length_filter] at hcard
    have hbal := h.balanced
    unfold World.Balanced at hbal
    omega
  cases hw : w.written with
  | nil =>
    rw [base, hw] at hbase
    exact absurd hbase (Nat.not_lt_zero n)
  | cons s rest =>
    rw [base, hw] at hbase
    exact ⟨s, hw ▸ mem_cons_self .., hbase⟩

theorem goTo (hidle : w.owed = 0) {phase : Phase} (signaled armed : Bool)
    (howed : owed { w with phase } = 0) (hphase : w.PhaseSound phase) :
    Sound { w with phase, signaled, thresholdArmed := armed } := by
  have hbal : w.Balanced w.base (owed { w with phase }) := by
    rw [howed, ← hidle]
    exact h.balanced
  exact { h with balanced := hbal, phase := hphase }

/-- The worker takes its snapshot: every ticket it serves is covered. -/
theorem snapshot (hidle : w.owed = 0) (last : Bool) (hserving : serving ≤ w.tickets.requested) :
    Sound { w.snapshotEntries.1 with phase := .flushing serving last w.snapshotEntries.2 } := by
  have hbal : w.Balanced w.base 0 := hidle ▸ h.balanced
  refine { h with balanced := hbal, phase := ⟨⟨Nat.le_refl _, ?_⟩, ?_, hserving, ?_⟩ }
  · change w.store = replay w.initial (w.history.take w.history.length)
    rw [take_length]
    exact h.store
  · change w.history.length + w.dirtyCount ≤ w.history.length + _ + w.dirtyCount
    omega
  · intro t c hc _ n hn
    exact (mem_counted.mp ((h.before t c hc).2 n hn)).1

/-- The snapshot is written: it becomes the one that the dirty count is about. -/
theorem write {s : Snapshot} (hphase : w.phase = .flushing serving last s) :
    Sound { w with written := s :: w.written, phase := .marking serving last } := by
  have hpass := h.phase
  rw [hphase] at hpass
  obtain ⟨hof, hbal, hserved⟩ := hpass
  have hsaved : ∀ n, w.Saved n → World.Saved { w with written := s :: w.written } n :=
    fun n hn => hn.of_written (subset_cons_self s w.written)
  refine { h with
    written := fun s' hs' => ?_
    balanced := hbal
    durable := h.durable.mono hsaved
    phase := hserved.mono fun n hn => ⟨s, mem_cons_self .., hn⟩ }
  rcases mem_cons.mp hs' with rfl | hold
  · exact hof
  · exact h.written s' hold

/-- `mark_flushed` takes the count that the snapshot recorded. -/
theorem swap (hphase : w.phase = .marking serving last) :
    Sound { w with snapshotDirty := 0, phase := .subtracting serving last w.snapshotDirty } := by
  have hpass := h.phase
  have hbal := h.balanced
  rw [hphase] at hpass
  rw [owed, hphase] at hbal
  exact { h with balanced := hbal, phase := hpass }

/-- `mark_flushed` takes it off the dirty count: later changes stay dirty. -/
theorem subtract {serving flushed : ℕ} (hphase : w.phase = .subtracting serving last flushed) :
    Sound { w with
      dirtyCount := w.dirtyCount - flushed
      phase := .finishing serving last (.ok ()) } := by
  have hpass := h.phase
  have hbal := h.balanced
  rw [hphase] at hpass
  rw [owed, hphase] at hbal
  refine { h with balanced := ?_, phase := hpass }
  change w.history.length + 0 ≤ w.base + w.uncounted.countP (w.base ≤ ·) + (w.dirtyCount - flushed)
  unfold World.Balanced at hbal
  dsimp only at hbal
  omega

theorem completeTickets {result : Except String Unit}
    (hserved : result = .ok () → w.Served serving w.Saved) :
    Sound (w.completeTickets serving result) := by
  cases result with
  | error e =>
    refine { h with phase := ?_ }
    have hpass := h.phase
    change World.PhaseSound _ w.phase
    cases hp : w.phase <;> rw [hp] at hpass <;> exact hpass
  | ok u =>
    obtain ⟨hle, hcalls⟩ := hserved rfl
    refine { h with
      durable := ⟨Nat.max_le.mpr ⟨h.durable.1, hle⟩, fun t c hc ht => ?_⟩
      returned := fun t c hc hret => le_trans (h.returned t c hc hret) (le_max_left _ _)
      phase := ?_ }
    · rcases le_max_iff.mp ht with hold | hnew
      · exact h.durable.2 t c hc hold
      · exact hcalls t c hc hnew
    · have hpass := h.phase
      change World.PhaseSound _ w.phase
      cases hp : w.phase <;> rw [hp] at hpass <;> exact hpass

theorem wake (hphase : w.phase = .waiting) {cause : Cause}
    (hstep : w.wake cause = some w') : Sound w' := by
  have howed : w.owed = 0 := by rw [owed, hphase]
  cases cause <;> rw [World.wake] at hstep <;> split_ifs at hstep <;> cases hstep
  · exact h.goTo howed false w.thresholdArmed rfl trivial
  · exact h.goTo howed w.signaled w.thresholdArmed rfl trivial
  · exact h.goTo howed w.signaled w.thresholdArmed rfl trivial

theorem work (hstep : w.work w.phase e = some w') : Sound w' := by
  have hpass := h.phase
  have howed := @World.owed.eq_def w
  rw [work.eq_def] at hstep
  split at hstep
  case h_12 => cases hstep
  all_goals
    rename_i hphase
    rw [hphase] at hpass howed
  · exact h.wake hphase hstep
  · cases hstep
    exact h.goTo howed w.signaled w.thresholdArmed rfl (le_refl _)
  · cases hstep
    refine h.goTo howed w.signaled w.thresholdArmed ?_ ?_
    · split_ifs <;> rfl
    · split_ifs <;> exact hpass
  · cases hstep
    refine h.goTo howed w.signaled w.thresholdArmed ?_ ?_
    · split_ifs <;> rfl
    · split_ifs with hdirty
      · exact ⟨hpass, fun t c hc _ n hn => h.saved_of_counted hdirty ((h.before t c hc).2 n hn)⟩
      · trivial
      · exact hpass
  · cases hstep
    exact (h.completeTickets fun _ => hpass).goTo howed w.signaled w.thresholdArmed rfl trivial
  · cases hstep
    exact h.snapshot howed _ hpass
  · cases hstep
    exact h.write hphase
  · cases hstep
    exact h.goTo howed w.signaled w.thresholdArmed rfl hpass.2.2.1
  · cases hstep
    exact h.swap hphase
  · cases hstep
    exact h.subtract hphase
  · rename_i result
    cases hstep
    refine (h.completeTickets fun hok => ?_).goTo howed w.signaled result.isOk ?_ ?_
    · rw [hok] at hpass
      exact hpass
    · split_ifs <;> rfl
    · split_ifs <;> trivial

theorem step (hstep : w.step e = some w') : Sound w' := by
  cases e with
  | put key value =>
    cases hstep
    rw [put]
    split_ifs
    · exact h
    · exact h.update _
  | delete key =>
    cases hstep
    exact h.update _
  | count n =>
    rw [step] at hstep
    split_ifs at hstep with hn
    cases hstep
    exact h.count hn
  | request =>
    cases hstep
    exact h.request
  | signal t =>
    rw [step] at hstep
    split at hstep <;> cases hstep
    rename_i before hc
    exact h.setCall ⟨before, .waiting⟩ hc rfl (fun hret => nomatch hret) true
  | complete t =>
    rw [step] at hstep
    split at hstep
    · rename_i before hc
      split_ifs at hstep
      cases hstep
      refine h.setCall ⟨before, .returned (w.outcome t)⟩ hc rfl (fun hret => ?_) w.signaled
      by_contra hlate
      rw [outcome, if_neg hlate] at hret
      cases hret
    · cases hstep
  | drop =>
    cases hstep
    exact { h with phase := h.phase }
  | dropSignal =>
    rw [step] at hstep
    split_ifs at hstep
    cases hstep
    exact { h with phase := h.phase }
  | wake | serve | look | check | snapshot | flush | swap | subtract | finish => exact h.work hstep

end

theorem start (dirtyThreshold : ℕ) (entries : Entries) : Sound (.start dirtyThreshold entries) where
  store := rfl
  uncounted _ hn := nomatch hn
  distinct := nodup_nil
  written _ hs := nomatch hs
  balanced := le_refl _
  before _ _ hc := nomatch hc
  durable := ⟨Nat.le_refl _, fun _ _ hc => nomatch hc⟩
  returned _ _ hc := nomatch hc
  phase := trivial

/-- With nothing dirty and no change under way, the last snapshot written covers every change. -/
theorem store_eq_lastWritten (h : Sound w) (hdirty : w.dirtyCount = 0) (hcounted : w.uncounted = [])
    (howed : w.owed = 0) : w.store = w.lastWritten := by
  have hbal := h.balanced
  unfold World.Balanced at hbal
  rw [hdirty, hcounted, howed, countP_nil] at hbal
  cases hw : w.written with
  | nil =>
    rw [base, hw] at hbal
    have hnil : w.history = [] := length_eq_zero_iff.mp (Nat.le_zero.mp hbal)
    rw [h.store, hnil, lastWritten, hw]
    rfl
  | cons s rest =>
    rw [base, hw] at hbal
    replace hbal : w.history.length ≤ s.covers := hbal
    obtain ⟨-, hentries⟩ := h.written s (hw ▸ mem_cons_self ..)
    rw [take_of_length_le hbal] at hentries
    rw [h.store, lastWritten, hw]
    exact hentries.symm

end Sound

/-! ## The guarantee -/

namespace World

/-- A step adds its change to the history, and the initial entries stay on record. -/
theorem step_history {w w' : World} {e : Event} (hstep : w.step e = some w') :
    w'.initial = w.initial ∧ w'.history = w.history ++ e.change.toList := by
  have hwork : ∀ e, w.work w.phase e = some w' →
      w'.initial = w.initial ∧ w'.history = w.history := by
    intro e hstep
    rw [work.eq_def] at hstep
    split at hstep
    · rename_i cause _
      cases cause <;> rw [wake] at hstep <;> split_ifs at hstep <;> cases hstep <;> exact ⟨rfl, rfl⟩
    all_goals cases hstep
    all_goals exact ⟨rfl, rfl⟩
  cases e with
  | put key value =>
    cases hstep
    rw [put, Event.change]
    split_ifs
    · exact ⟨rfl, (append_nil _).symm⟩
    · exact ⟨rfl, rfl⟩
  | delete key | request | drop =>
    cases hstep
    simp [delete, update, request, setCall, Event.change]
  | count | dropSignal =>
    rw [step] at hstep
    split_ifs at hstep
    cases hstep
    exact ⟨rfl, (append_nil _).symm⟩
  | signal =>
    rw [step] at hstep
    split at hstep <;> cases hstep
    exact ⟨rfl, (append_nil _).symm⟩
  | complete =>
    rw [step] at hstep
    split at hstep
    · split_ifs at hstep
      cases hstep
      exact ⟨rfl, (append_nil _).symm⟩
    · cases hstep
  | wake | serve | look | check | snapshot | flush | swap | subtract | finish =>
    obtain ⟨hinitial, hhistory⟩ := hwork _ hstep
    exact ⟨hinitial, hhistory.trans (append_nil _).symm⟩

/-- The history of a run is what its calls of `put` and `delete` did. -/
theorem history_of_run {w w' : World} {es : List Event} (hrun : Run step anyStep w es w') :
    w'.initial = w.initial ∧ w'.history = w.history ++ es.filterMap Event.change := by
  induction hrun with
  | nil => exact ⟨rfl, (append_nil _).symm⟩
  | snoc _ _ hstep ih =>
    obtain ⟨hinitial, hhistory⟩ := step_history hstep
    rw [hinitial, hhistory, ih.1, ih.2, filterMap_append, append_assoc]
    exact ⟨rfl, rfl⟩

/-- **A flush that returns `Ok` is durable.** The accepted `put` and `delete` calls that had returned
before a `trigger_flush` that returned `Ok` are each in a snapshot that a flush has written with
success, which has for each key the value of its last change among those it covers. With a dirty count
of zero, no pass and no change under way, the map is the last of these snapshots, or what the store
started with. -/
theorem flushed_when_ok (dirtyThreshold : ℕ) (entries : Entries) {es : List Event} {w : World}
    (hrun : Run step anyStep (start dirtyThreshold entries) es w) :
    w.history = es.filterMap Event.change ∧
    (∀ t c, w.calls t = some c → c.phase = .returned (.ok ()) → ∀ n ∈ c.before,
      ∃ s ∈ w.written, n < s.covers ∧ s.covers ≤ w.history.length ∧
        ∀ k, s.entries k = lastValue entries (w.history.take s.covers) k) ∧
    (w.dirtyCount = 0 → w.uncounted = [] → w.phase = .waiting ∨ w.phase = .exited →
      w.store = w.lastWritten) := by
  have h : Sound w := hrun.invariant (I := Sound) (Sound.start dirtyThreshold entries)
    fun _ _ _ h _ hstep => h.step hstep
  obtain ⟨hinitial, hhistory⟩ := history_of_run hrun
  refine ⟨hhistory, fun t c hc hret n hn => ?_, fun hdirty hcounted hphase => ?_⟩
  · obtain ⟨s, hs, hlt⟩ := h.durable.2 t c hc (h.returned t c hc hret) n hn
    obtain ⟨hcovers, hentries⟩ := h.written s hs
    exact ⟨s, hs, hlt, hcovers, fun k => by rw [hentries, replay_apply, hinitial]; rfl⟩
  · refine h.store_eq_lastWritten hdirty hcounted ?_
    rcases hphase with hphase | hphase <;> rw [owed, hphase]

/-- The call returned `Ok`, and one change came before it. -/
def returnedOk : Option Call → Bool
  | some ⟨[0], .returned (.ok ())⟩ => true
  | _ => false

/-- A change is flushed by a call that the timer's failing pass did not serve, while another change
comes in after the snapshot. -/
theorem flushed_when_ok_after_failure : ∃ es w, Run step anyStep (start 100 fun _ => none) es w ∧
    (∃ c, w.calls 1 = some c ∧ c.phase = .returned (.ok ()) ∧ c.before = [0] ∧
      ∀ n ∈ c.before, ∃ s ∈ w.written, n < s.covers) ∧ w.dirtyCount = 1 := by
  let key : Key := ⟨[107], by decide⟩
  obtain ⟨w, hrun, hw⟩ := exists_run_of_exec (show (exec step (start 100 fun _ => none)
    [.put key [1], .count 0, .wake .timer, .serve, .request, .signal 1, .look, .check, .snapshot,
      .flush (.error "write failed"), .finish, .wake .signal, .serve, .look, .check, .snapshot,
      .delete key, .flush (.ok ()), .swap, .count 1, .subtract, .finish, .complete 1]).any
    (fun w => returnedOk (w.calls 1) && w.dirtyCount == 1) by decide +kernel)
  rw [Bool.and_eq_true, beq_iff_eq] at hw
  obtain ⟨hcall, hdirty⟩ := hw
  refine ⟨_, w, hrun, ?_, hdirty⟩
  unfold returnedOk at hcall
  split at hcall
  · rename_i hc
    refine ⟨_, hc, rfl, rfl, fun n hn => ?_⟩
    obtain ⟨s, hs, hlt, -⟩ := (flushed_when_ok 100 _ hrun).2.1 1 _ hc rfl n hn
    exact ⟨s, hs, hlt⟩
  · cases hcall

/-- **What is not written is dirty**: at every moment the map is the last snapshot written with the
changes after it, and each of these is in the dirty count or about to be. -/
theorem unwritten_dirty (dirtyThreshold : ℕ) (entries : Entries) {es : List Event} {w : World}
    (hrun : Run step anyStep (start dirtyThreshold entries) es w) :
    w.store = replay w.lastWritten (w.history.drop w.base) ∧
      w.history.length ≤ w.base + w.uncounted.length + w.dirtyCount := by
  have h : Sound w := hrun.invariant (I := Sound) (Sound.start dirtyThreshold entries)
    fun _ _ _ h _ hstep => h.step hstep
  have hlast : w.lastWritten = replay w.initial (w.history.take w.base) := by
    unfold lastWritten base
    cases hw : w.written with
    | nil => rfl
    | cons s rest => exact (h.written s (hw ▸ mem_cons_self ..)).2
  constructor
  · rw [hlast, replay, replay, ← foldl_append, take_append_drop]
    exact h.store
  · have hbal : w.history.length + w.owed ≤ _ := h.balanced
    have hcount : w.uncounted.countP (w.base ≤ ·) ≤ _ := countP_le_length
    omega

/-- A change comes in after the snapshot that is written. -/
theorem unwritten_dirty_behind : ∃ es w, Run step anyStep (start 1 fun _ => none) es w ∧
    w.base < w.history.length ∧ w.store = replay w.lastWritten (w.history.drop w.base) := by
  let key : Key := ⟨[107], by decide⟩
  exact ⟨[.put key [1], .count 0, .wake .threshold, .serve, .look, .check, .snapshot, .delete key,
    .flush (.ok ())], exists_run_and_of_exec (fun w => decide (w.base < w.history.length))
    (by decide +kernel) fun hrun hw => ⟨of_decide_eq_true hw, (unwritten_dirty 1 _ hrun).1⟩⟩

end World

end Certus.MetadataStore.Flush
