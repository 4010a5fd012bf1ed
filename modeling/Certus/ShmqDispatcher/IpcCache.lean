import Certus.Lib.Run

/-! # The cache of GPU mappings

The translator maps a client's GPU memory once for each IPC handle and counts the requests that use
the mapping. Without users it stays for a grace period. All clones of the translator share the
cache, and the drop of any one of them closes everything in it.

* **`step`** — requests open and close, the reaper passes, a clone is dropped, time goes by.
* **`Sound`**, **`Sound.step`** — what is open is mapped, and counted, while no clone is dropped
  under a request.
* **`clone_drop_unmaps`** — a clone is dropped while a request has its mapping open. -/

namespace Certus.ShmqDispatcher

open List Option
open Function (update)

/-- A mapping, with the number of its users. -/
structure IpcCacheEntry where
  devPtr : ℕ
  gpuDeviceId : ℤ
  refcount : ℕ
  graceUntil : Option ℕ

/-- `IPC_GRACE_PERIOD`, in nanoseconds. -/
def ipcGracePeriod : ℕ := 5000000000

/-- The cache; the addresses at which the device has a handle mapped; and the pointers that opens of
a handle returned and no close has given back yet. -/
structure Mappings (H : Type) where
  cache : H → Option IpcCacheEntry := fun _ => none
  mapped : H → List ℕ := fun _ => []
  opens : H → List ℕ := fun _ => []
  now : ℕ := 0
  /-- A count of zero was decremented. -/
  underflow : Bool := false

namespace Mappings

variable {H : Type} [DecidableEq H] (m : Mappings H) (handle : H)

/-- Store the entry of a handle. -/
def put (e : IpcCacheEntry) : Mappings H := { m with cache := update m.cache handle (some e) }

/-- Take entries out of the cache and close their mappings. -/
def remove (gone : IpcCacheEntry → Bool) : Mappings H :=
  { m with
    cache := fun h => (m.cache h).filter fun e => !gone e
    mapped := fun h => ((m.cache h).filter gone).elim (m.mapped h) fun e =>
      (m.mapped h).erase e.devPtr }

/-- An open returns a pointer. -/
def opened (devPtr : ℕ) : Mappings H × Except String ℕ :=
  ({ m with opens := update m.opens handle (devPtr :: m.opens handle) }, .ok devPtr)

/-- Open a handle. `setDevice` and `mapping` are the answers of CUDA, if it is asked. -/
def ipcCacheOpen (gpuDeviceId : ℤ) (setDevice : Except String Unit) (mapping : Except String ℕ) :
    Mappings H × Except String ℕ :=
  match m.cache handle with
  | some e =>
    (m.put handle { e with
      graceUntil := if e.refcount = 0 ∧ e.graceUntil.isSome then none else e.graceUntil
      refcount := e.refcount + 1 }).opened handle e.devPtr
  | none =>
    match if 0 ≤ gpuDeviceId then setDevice else .ok () with
    | .error why => (m, .error s!"cudaSetDevice({gpuDeviceId}) failed: {why}")
    | .ok () =>
      match mapping with
      | .error why => (m, .error s!"cudaIpcOpenMemHandle failed: {why}")
      | .ok devPtr =>
        if devPtr = 0 then (m, .error "cudaIpcOpenMemHandle returned null")
        else
          ({ m.put handle ⟨devPtr, gpuDeviceId, 1, none⟩ with
            mapped := update m.mapped handle (devPtr :: m.mapped handle) }).opened handle devPtr

/-- Close a handle; the pass of the reaper that follows takes the lock anew. -/
def ipcCacheClose : Mappings H :=
  match m.cache handle with
  | none => m
  | some e =>
    if e.refcount = 0 then { m with underflow := true }
    else m.put handle { e with
      refcount := e.refcount - 1
      graceUntil := if e.refcount - 1 = 0 then some (m.now + ipcGracePeriod) else e.graceUntil }

/-- Close every mapping whose grace period has elapsed. -/
def ipcCacheReapExpired : Mappings H :=
  m.remove fun e => e.refcount = 0 && e.graceUntil.any fun t => t ≤ m.now

/-- Close every mapping. -/
def ipcCacheCloseAll : Mappings H := m.remove fun _ => true

/-- What can happen next. -/
inductive Event (H : Type)
  | open (handle : H) (gpuDeviceId : ℤ) (setDevice : Except String Unit)
      (mapping : Except String ℕ)
  /-- The close that matches an open, which returned the pointer. -/
  | close (handle : H) (devPtr : ℕ)
  | reap
  /-- A clone of the translator is dropped. -/
  | drop
  | tick (elapsed : ℕ)

/-- One step. -/
def step : Event H → Option (Mappings H)
  | .open handle gpuDeviceId setDevice mapping =>
    some (m.ipcCacheOpen handle gpuDeviceId setDevice mapping).1
  | .close handle devPtr =>
    if devPtr ∈ m.opens handle then
      some { m.ipcCacheClose handle with
        opens := update m.opens handle ((m.opens handle).erase devPtr) }
    else none
  | .reap => some m.ipcCacheReapExpired
  | .drop => some m.ipcCacheCloseAll
  | .tick elapsed => some { m with now := m.now + elapsed }

/-- A clone is dropped only while nothing is open. -/
def Idle (m : Mappings H) : Event H → Prop
  | .drop => ∀ handle, m.opens handle = []
  | _ => True

/-- What there is for a handle: one mapping, with a user for each open; or nothing. -/
def Kept (cached : Option IpcCacheEntry) (mapped opens : List ℕ) : Prop :=
  match cached with
  | none => mapped = [] ∧ opens = []
  | some e => mapped = [e.devPtr] ∧ opens = replicate e.refcount e.devPtr

/-- Every handle is kept, and no count has underflowed. -/
structure Sound (m : Mappings H) : Prop where
  kept : ∀ handle, Kept (m.cache handle) (m.mapped handle) (m.opens handle)
  exact : m.underflow = false

namespace Sound

variable {m m' : Mappings H} {handle : H}

/-- Only what is there for one handle changes. -/
theorem of_one (h : Sound m) (handle : H) (hother : ∀ k, k ≠ handle →
      m'.cache k = m.cache k ∧ m'.mapped k = m.mapped k ∧ m'.opens k = m.opens k)
    (hself : Kept (m'.cache handle) (m'.mapped handle) (m'.opens handle))
    (hexact : m'.underflow = m.underflow) : Sound m' := by
  refine ⟨fun k => ?_, hexact.trans h.exact⟩
  by_cases hk : k = handle
  · subst hk
    exact hself
  · obtain ⟨hcache, hmapped, hopens⟩ := hother k hk
    rw [hcache, hmapped, hopens]
    exact h.kept k

/-- A request opens a handle. -/
theorem ipcCacheOpen (h : Sound m) (gpuDeviceId : ℤ) (setDevice : Except String Unit)
    (mapping : Except String ℕ) :
    Sound (m.ipcCacheOpen handle gpuDeviceId setDevice mapping).1 := by
  have hkept := h.kept handle
  rw [ipcCacheOpen.eq_def]
  cases hcache : m.cache handle with
  | some e =>
    rw [hcache] at hkept
    refine h.of_one handle (fun k hk => ?_) ?_ rfl
    · simp [put, opened, hk]
    · simp [put, opened, Kept, hkept.1, hkept.2, replicate_succ]
  | none =>
    rw [hcache] at hkept
    dsimp only
    -- CUDA fails in one of three ways, and nothing has changed
    split
    · exact h
    split
    · exact h
    split_ifs
    · exact h
    refine h.of_one handle (fun k hk => ?_) ?_ rfl
    · simp [put, opened, hk]
    · simp [put, opened, Kept, hkept.1, hkept.2]

/-- The close that matches an open: its handle is cached, and counts it. -/
theorem close (h : Sound m) {devPtr : ℕ} (hopen : devPtr ∈ m.opens handle) :
    Sound { m.ipcCacheClose handle with
      opens := update m.opens handle ((m.opens handle).erase devPtr) } := by
  have hkept := h.kept handle
  rw [Mappings.ipcCacheClose]
  cases hcache : m.cache handle with
  | none =>
    rw [hcache] at hkept
    rw [hkept.2] at hopen
    cases hopen
  | some e =>
    rw [hcache] at hkept
    rw [hkept.2] at hopen
    obtain ⟨hcount, rfl⟩ := mem_replicate.mp hopen
    dsimp only
    rw [if_neg hcount]
    refine h.of_one handle (fun k hk => ?_) ?_ rfl
    · simp [put, hk]
    · simp [put, Kept, hkept.1, hkept.2, erase_replicate_self]

omit [DecidableEq H] in
/-- Entries without users leave the cache. -/
theorem remove (h : Sound m) {gone : IpcCacheEntry → Bool}
    (hgone : ∀ k e, m.cache k = some e → gone e → m.opens k = []) : Sound (m.remove gone) := by
  refine ⟨fun k => ?_, h.exact⟩
  have hkept := h.kept k
  unfold Mappings.remove
  cases hcache : m.cache k with
  | none =>
    rw [hcache] at hkept
    simpa [hcache] using hkept
  | some e =>
    rw [hcache] at hkept
    by_cases he : gone e
    · simp [hcache, filter_some, he, Kept, hkept.1, hgone k e hcache he]
    · simpa [hcache, filter_some, he] using hkept

/-- **A step** keeps what is open mapped. -/
theorem step {e : Event H} (h : Sound m) (hok : Idle m e) (hstep : m.step e = some m') :
    Sound m' := by
  cases e with
  | «open» =>
    cases hstep
    exact h.ipcCacheOpen _ _ _
  | close handle devPtr =>
    rw [Mappings.step] at hstep
    split_ifs at hstep with hopen
    cases hstep
    exact h.close hopen
  | reap =>
    cases hstep
    -- only entries without users expire
    refine h.remove fun k e hcache hgone => ?_
    have hkept := h.kept k
    rw [hcache] at hkept
    simp only [Bool.and_eq_true, decide_eq_true_eq] at hgone
    rw [hkept.2, hgone.1]
    rfl
  | drop =>
    cases hstep
    exact h.remove fun k _ _ _ => hok k
  | tick elapsed =>
    cases hstep
    exact { h with }

end Sound

/-- **Mappings outlive their users.** While no clone of the translator is dropped under a request,
in every interleaving each pointer that an open returned and no close has given back is mapped, a
handle is mapped at most once, and its count is the number of its opens not yet closed, and never
underflows. -/
theorem opens_mapped {m : Mappings H} {es : List (Event H)} (hrun : Run step Idle {} es m)
    (handle : H) :
    (∀ p ∈ m.opens handle, p ∈ m.mapped handle) ∧ (m.mapped handle).length ≤ 1 ∧
      (m.cache handle).elim 0 IpcCacheEntry.refcount = (m.opens handle).length ∧
      m.underflow = false := by
  have hstart : Sound ({} : Mappings H) := ⟨fun _ => ⟨rfl, rfl⟩, rfl⟩
  have h := hrun.invariant hstart fun _ _ _ h hok hstep => h.step hok hstep
  have hkept := h.kept handle
  cases hcache : m.cache handle with
  | none =>
    rw [hcache] at hkept
    simp [hkept.1, hkept.2, h.exact]
  | some e =>
    rw [hcache] at hkept
    simp [hkept.1, hkept.2, h.exact]

/-- Two requests share the mapping of a handle. Once both have closed it and the grace period is
over, the reaper unmaps it, and a clone is dropped while nothing is open. -/
theorem opens_mapped_once : ∃ es, ∃ m m' : Mappings (Fin 8), Run step Idle {} es m ∧
    m.opens 7 = [64, 64] ∧ (∀ p ∈ m.opens 7, p ∈ m.mapped 7) ∧ (m.mapped 7).length ≤ 1 ∧
    Run step Idle {} (es ++ [.close 7 64] ++ [.close 7 64] ++ [.tick ipcGracePeriod] ++ [.reap] ++
      [.drop]) m' ∧ m'.mapped 7 = [] ∧
    (m'.cache 7).elim 0 IpcCacheEntry.refcount = (m'.opens 7).length := by
  have hshared : Run step Idle ({} : Mappings (Fin 8))
      ([] ++ [.open 7 0 (.ok ()) (.ok 64)] ++ [.open 7 0 (.ok ()) (.ok 65)]) _ :=
    .snoc (.snoc (.nil _) trivial rfl) trivial rfl
  have hdropped := ((((hshared.snoc (show Idle _ (.close 7 64) from trivial) rfl).snoc
    (show Idle _ (.close 7 64) from trivial) rfl).snoc
    (show Idle _ (.tick ipcGracePeriod) from trivial) rfl).snoc
    (show Idle _ .reap from trivial) rfl).snoc (show Idle _ .drop by unfold Idle; decide) rfl
  exact ⟨_, _, _, hshared, rfl, (opens_mapped hshared 7).1, (opens_mapped hshared 7).2.1, hdropped,
    rfl, (opens_mapped hdropped 7).2.2.1⟩

/-- **A clone's drop closes what others use.** A request opens a handle, and a clone is dropped: the
mapping is gone under the request. Another request maps the handle anew; the first one's close then
gives up the second one's use, and the count underflows at the second one's. -/
theorem clone_drop_unmaps :
    (∃ m : Mappings ℕ, Run step anyStep {} [.open 7 0 (.ok ()) (.ok 64), .drop] m ∧
      64 ∈ m.opens 7 ∧ 64 ∉ m.mapped 7) ∧
    ∃ m : Mappings ℕ, Run step anyStep {} [.open 7 0 (.ok ()) (.ok 64), .drop,
      .open 7 0 (.ok ()) (.ok 65), .close 7 64, .close 7 65] m ∧ m.underflow :=
  ⟨exists_run_of_decide (by decide +kernel), exists_run_of_decide (by decide +kernel)⟩

end Mappings

end Certus.ShmqDispatcher
