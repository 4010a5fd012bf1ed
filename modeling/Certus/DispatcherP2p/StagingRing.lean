import Certus.Lib.Run
import Mathlib.Data.List.Nodup

/-! # The staging ring of the peer-to-peer dispatcher

`p2p_ring.rs`, `cold_pool.rs`, the pipeline of `pipeline.rs` and its callers: cold keys are read from
the drives into slots of a ring in GPU memory and copied from there to the caller. Every pipeline is
given a range of slots, computed from its position in its own call, and all pipelines work on the one
ring.

* **`World.step`** — one step of a caller, a worker, a drive or the GPU.
* **`World.slots_not_shared`** — under **`Alone`** no slot is in use twice, and every copy delivers
  the bytes of its own read; **`World.slots_shared_by_two_lookups`** without it. -/

namespace Certus.DispatcherP2p

open List Option

/-! ## Partitions of the ring -/

def p2pRingSlots : ℕ := 64

def maxQdPerThread : ℕ := 16

/-- The slots of one pipeline. -/
structure ThreadPartition where
  ringOffset : ℕ
  effectiveQd : ℕ
  deriving DecidableEq

namespace ThreadPartition

/-- The ring divided evenly, at most `maxQdPerThread` slots for each thread. -/
def new (threadIndex numThreads : ℕ) : ThreadPartition :=
  let slotsPerThread := min (p2pRingSlots / max numThreads 1) maxQdPerThread
  ⟨threadIndex * slotsPerThread, slotsPerThread⟩

/-- The size of the pipeline's ring: at least one slot. -/
def ringSize (p : ThreadPartition) : ℕ := max p.effectiveQd 1

/-- The pipeline may use the slot. -/
def Has (p : ThreadPartition) (slot : ℕ) : Prop :=
  p.ringOffset ≤ slot ∧ slot < p.ringOffset + p.ringSize

/-- **Threads of one call have slots of their own**, as long as there is a slot for each. -/
theorem not_has_of_ne {i j n slot : ℕ} (hn : n ≤ p2pRingSlots) (hne : i ≠ j)
    (hi : (new i n).Has slot) : ¬(new j n).Has slot := by
  intro hj
  have hpos : 1 ≤ p2pRingSlots / max n 1 := by
    refine (Nat.one_le_div_iff (by omega)).mpr ?_
    have : p2pRingSlots = 64 := rfl
    omega
  obtain ⟨k, hk⟩ : ∃ k, k = min (p2pRingSlots / max n 1) maxQdPerThread := ⟨_, rfl⟩
  have hk1 : 1 ≤ k := by
    have : maxQdPerThread = 16 := rfl
    omega
  have hnew : ∀ t, new t n = ⟨t * k, k⟩ := fun t => by rw [hk]; rfl
  rw [hnew, Has, ringSize] at hi hj
  rw [Nat.max_eq_left hk1] at hi hj
  -- the slot divided by the size of a range is the number of the thread
  have hdiv : ∀ t, t * k ≤ slot ∧ slot < t * k + k → slot / k = t := fun t ht =>
    Nat.div_eq_of_lt_le ht.1 (by rw [Nat.succ_mul]; exact ht.2)
  exact hne ((hdiv i hi).symm.trans (hdiv j hj))

end ThreadPartition

/-! ## The slots of a pipeline -/

/-- `SlotTracker`: `free` and `copied` with the last entry first. -/
structure SlotTracker where
  free : List ℕ
  slotOf : ℕ → Option ℕ
  copied : List ℕ

namespace SlotTracker

def new (first count : ℕ) : SlotTracker := ⟨List.range' first count, fun _ => none, []⟩

section

variable (t : SlotTracker)

/-- A free slot for a read. -/
def acquire (work : ℕ) : Option (ℕ × SlotTracker) :=
  match t.free with
  | [] => none
  | slot :: rest => some (slot,
      { t with free := rest, slotOf := fun k => if k = work then some slot else t.slotOf k })

/-- A read completed: its slot awaits the copy's sync. -/
def complete (work : ℕ) : Option (ℕ × SlotTracker) :=
  match t.slotOf work with
  | none => none
  | some slot => some (slot,
      { t with
        slotOf := fun k => if k = work then none else t.slotOf k
        copied := slot :: t.copied })

/-- The copies have been synchronised. -/
def releaseCopied : SlotTracker := { t with free := t.copied ++ t.free, copied := [] }

def pendingCopies : ℕ := t.copied.length

def freeSlots : ℕ := t.free.length

end

/-- The tracker of a pipeline that has issued its first `submitted` reads: every slot is in one place,
and it is one of the pipeline's. -/
structure Sound (t : SlotTracker) (p : ThreadPartition) (submitted : ℕ) : Prop where
  nodup : (t.copied ++ t.free).Nodup
  has : ∀ slot ∈ t.copied ++ t.free, p.Has slot
  slot : ∀ work slot, t.slotOf work = some slot →
    slot ∉ t.copied ++ t.free ∧ p.Has slot ∧ work < submitted
  injective : ∀ k k' slot, t.slotOf k = some slot → t.slotOf k' = some slot → k = k'

theorem Sound.new (p : ThreadPartition) : (new p.ringOffset p.ringSize).Sound p 0 where
  nodup := nodup_range'
  has slot hs := by
    obtain ⟨hle, hlt⟩ := mem_range'_1.mp hs
    exact ⟨hle, hlt⟩
  slot _ _ h := nomatch h
  injective _ _ _ h := nomatch h

variable {t t' : SlotTracker} {p : ThreadPartition} {submitted work slot : ℕ}

variable (h : t.Sound p submitted)
include h

theorem Sound.acquire (hacq : t.acquire submitted = some (slot, t')) :
    t'.Sound p (submitted + 1) ∧ p.Has slot ∧ slot ∈ t.free ∧
      t'.slotOf submitted = some slot ∧ t'.copied = t.copied ∧
      ∀ k, k ≠ submitted → t'.slotOf k = t.slotOf k := by
  rw [SlotTracker.acquire] at hacq
  split at hacq
  · cases hacq
  · rename_i hfree
    cases hacq
    have hmem : slot ∈ t.free := hfree ▸ mem_cons_self ..
    have hhas : p.Has slot := h.has slot (mem_append_right _ hmem)
    have hsplit := h.nodup
    rw [hfree, nodup_middle, nodup_cons] at hsplit
    have hsub : ∀ s, s ∈ t.copied ++ _ → s ∈ t.copied ++ t.free := fun s hs => by
      rw [hfree, mem_append, mem_cons]
      rcases mem_append.mp hs with hc | hr
      · exact .inl hc
      · exact .inr (.inr hr)
    refine ⟨⟨hsplit.2, fun s hs => h.has s (hsub s hs), fun k s hk => ?_, fun k k' s hk hk' => ?_⟩,
      hhas, hmem, if_pos rfl, rfl, fun k hk => if_neg hk⟩
    · dsimp only at hk
      split_ifs at hk with heq
      · cases hk
        exact ⟨hsplit.1, hhas, heq ▸ Nat.lt_succ_self _⟩
      · obtain ⟨hnot, hin, hlt⟩ := h.slot k s hk
        exact ⟨fun hs => hnot (hsub s hs), hin, Nat.lt_succ_of_lt hlt⟩
    · -- a slot that some read holds is not free
      have hnew : ∀ j, t.slotOf j ≠ some slot := fun j hj =>
        (h.slot j slot hj).1 (mem_append_right _ hmem)
      dsimp only at hk hk'
      split_ifs at hk hk' with h1 h2 h2
      · exact h1.trans h2.symm
      · cases hk
        exact absurd hk' (hnew k')
      · cases hk'
        exact absurd hk (hnew k)
      · exact h.injective k k' s hk hk'

theorem Sound.complete (hslot : t.slotOf work = some slot) :
    ∃ t', t.complete work = some (slot, t') ∧ t'.Sound p submitted ∧ slot ∈ t'.copied ∧
      t.copied ⊆ t'.copied ∧ ∀ k, k ≠ work → t'.slotOf k = t.slotOf k := by
  obtain ⟨hnot, hhas, -⟩ := h.slot work slot hslot
  refine ⟨{ t with
      slotOf := fun k => if k = work then none else t.slotOf k
      copied := slot :: t.copied }, by rw [SlotTracker.complete, hslot], ⟨nodup_cons.mpr ⟨hnot, h.nodup⟩,
    fun s hs => ?_, fun k s hk => ?_, fun k k' s hk hk' => ?_⟩, mem_cons_self ..,
    subset_cons_self .., fun k hk => if_neg hk⟩
  · rcases mem_cons.mp hs with rfl | hold
    · exact hhas
    · exact h.has s hold
  · dsimp only at hk
    split_ifs at hk with hne
    obtain ⟨hnot', hin, hlt⟩ := h.slot k s hk
    refine ⟨fun hs => ?_, hin, hlt⟩
    rcases mem_cons.mp hs with rfl | hold
    · exact hne (h.injective k work _ hk hslot)
    · exact hnot' hold
  · dsimp only at hk hk'
    split_ifs at hk hk'
    exact h.injective k k' s hk hk'

theorem Sound.releaseCopied : t.releaseCopied.Sound p submitted := by
  exact ⟨h.nodup, h.has, h.slot, h.injective⟩

end SlotTracker

/-! ## The model -/

/-- The channel a pipeline sends its reads on: that of the drive's worker, one leased from the
drive's pool, or one opened for the pipeline. -/
inductive Channel where
  | worker (drive : ℕ)
  | leased (drive lease : ℕ)
  | connected (pipe : ℕ)
  deriving DecidableEq

/-- A pipeline that its caller runs. -/
def Channel.isConnected : Channel → Bool
  | .connected _ => true
  | _ => false

/-- Where a pipeline is. `draining left sync` waits for the reads left in flight after an error, and
`sync` tells whether the streams are synchronised then. -/
inductive Phase where
  | submitting
  | queued
  | looping
  | recycling
  | draining (left : ℕ) (sync : Bool)
  | syncing
  | ending
  deriving DecidableEq

/-- The pipeline has started. -/
def Phase.begun : Phase → Bool
  | .submitting | .queued => false
  | _ => true

/-- The pipeline issues reads and handles their completions. -/
def Phase.live : Phase → Bool
  | .looping | .recycling => true
  | _ => false

theorem Phase.begun_of_live {phase : Phase} (h : phase.live) : phase.begun := by
  cases phase <;> first | rfl | exact h

/-- A run of `pipelined_multi_object_p2p`: `work` gives the object of each of its reads, and `failed`
the objects whose result is an error. -/
structure Pipe where
  channel : Channel
  partition : ThreadPartition
  work : List ℕ
  tracker : SlotTracker
  submitted : ℕ
  inFlight : ℕ
  failed : List ℕ
  phase : Phase

open Pipe

/-- A read is known by its pipeline and its tag there. -/
structure Tag where
  pipe : ℕ
  work : ℕ
  deriving DecidableEq

/-- What became of a read: the drive is at it, it has finished and its completion waits in the
channel, or the drive's actor has given it up while the drive is at it. -/
inductive Stage where
  | flying
  | landed (ok : Bool)
  | lost
  deriving DecidableEq

/-- A read into a slot of the ring. -/
structure Read where
  tag : Tag
  channel : Channel
  slot : ℕ
  stage : Stage
  deriving DecidableEq

/-- A copy out of a slot, queued on a stream for the object of the read `tag`. -/
structure Copy where
  tag : Tag
  slot : ℕ
  executed : Bool
  deriving DecidableEq

/-- The dispatcher's cold path. `content` is the read whose bytes a slot holds, and `served` pairs
each copy that was made with the bytes it found. -/
structure World where
  numDrives : ℕ
  pooled : Bool
  pipes : ℕ → Option Pipe
  next : ℕ
  reads : List Read
  copies : List Copy
  content : ℕ → Option Tag
  served : List (Tag × Option Tag)

open World

/-- One step. A batch is given by the drive and the number of reads of each of its cold keys. -/
inductive Event where
  | batch (entries : List (ℕ × ℕ))
  | single (drive segments lease : ℕ)
  | submit (id : ℕ)
  | refuse (id : ℕ)
  | start (id : ℕ)
  | issue (id : ℕ) (sent : Bool)
  | land (t : Tag) (ok : Bool)
  | receive (id : ℕ) (t : Tag) (copyOk : Bool)
  | timeout (id : ℕ) (t : Tag)
  | unexpected (id : ℕ)
  | disconnect (id : ℕ)
  | copy (t : Tag)
  | sync (id : ℕ) (ok : Bool)
  | drain (id : ℕ) (t : Tag)
  | drainStop (id : ℕ)
  | finish (id : ℕ)

/-- The pipeline an event is about. -/
def Event.pipe : Event → Option ℕ
  | .submit id | .refuse id | .start id | .issue id _ | .receive id _ _ | .timeout id _
  | .unexpected id | .disconnect id | .sync id _ | .drain id _ | .drainStop id | .finish id => some id
  | .batch _ | .single _ _ _ | .land _ _ | .copy _ => none

namespace Pipe

/-- A pipeline before it starts. -/
def request (channel : Channel) (partition : ThreadPartition) (work : List ℕ) : Pipe :=
  ⟨channel, partition, work, .new 0 0, 0, 0, [], .submitting⟩

/-- The pipeline starts; with nothing to read it returns at once. -/
def begin (p : Pipe) : Option Pipe :=
  if p.work = [] then none
  else some { p with
    tracker := .new p.partition.ringOffset p.partition.ringSize
    submitted := 0
    inFlight := 0
    failed := []
    phase := .looping }

/-- A read is left to issue and a slot is free for it. -/
def canIssue (p : Pipe) : Bool := decide (p.submitted < p.work.length) && !p.tracker.free.isEmpty

/-- Enough copies await a sync, or the reads left wait for one. -/
def mustSync (p : Pipe) : Bool :=
  let starved := decide (p.submitted < p.work.length) && p.tracker.freeSlots == 0
  decide ((p.partition.ringSize + 1) / 2 ≤ p.tracker.pendingCopies) ||
    (starved && decide (0 < p.tracker.pendingCopies))

/-- The loop goes on after a completion. -/
def recycle (p : Pipe) : Pipe := { p with phase := if p.mustSync then .recycling else .looping }

/-- Every object has failed: wait for `left` reads. -/
def failAll (p : Pipe) (left : ℕ) (sync : Bool) : Pipe :=
  { p with failed := p.work ++ p.failed, phase := .draining left sync }

end Pipe

namespace World

def start (numDrives : ℕ) (pooled : Bool) : World :=
  ⟨numDrives, pooled, fun _ => none, 0, [], [], fun _ => none, []⟩

section

variable (w : World) (id : ℕ)

/-- A pipeline moves on, or returns. -/
def setPipe (p : Option Pipe) : World :=
  { w with pipes := fun k => if k = id then p else w.pipes k }

/-- Some pipeline satisfies the test. -/
def anyPipe (test : Pipe → Bool) : Bool :=
  (range w.next).any fun id => (w.pipes id).any test

variable (entries : List (ℕ × ℕ))

/-- The drives with cold keys of the batch, in order. -/
def activeDrives : List ℕ :=
  (range w.numDrives).filter fun d => entries.any (·.1 = d)

/-- The reads of a drive's keys, by object. -/
def workOf (drive : ℕ) : List ℕ :=
  ((entries.filter (·.1 = drive)).mapIdx fun obj e => replicate e.2 obj).flatten

/-- The pipeline of the `i`th active drive of a batch. -/
def batchPipe (i drive : ℕ) : Pipe :=
  request (if w.pooled then .worker drive else .connected (w.next + i))
    (.new i (max (w.activeDrives entries).length 1)) (workOf entries drive)

/-- The cold dispatch of `batch_lookup`: one pipeline for each drive with cold keys. -/
def batch : World :=
  let pipes := (w.activeDrives entries).mapIdx (w.batchPipe entries)
  { w with
    pipes := fun id => if id < w.next then w.pipes id else pipes[id - w.next]?
    next := w.next + pipes.length }

/-- `promote_and_serve`: one pipeline over the first slots of the ring. -/
def single (drive segments lease : ℕ) : World :=
  let p := request (.leased drive lease) (.new 0 1) (replicate segments 0)
  { w.setPipe w.next p.begin with next := w.next + 1 }

/-- The read with a tag. -/
def read (t : Tag) : Option Read := w.reads.find? (·.tag = t)

/-- The completion of a read is consumed, or its end is not reported. -/
def dropRead (r : Read) : World := { w with reads := w.reads.erase r }

/-- A read is issued into a free slot; a closed channel ends the pipeline. -/
def issue (p : Pipe) (sent : Bool) : Option World :=
  match p.tracker.acquire p.submitted with
  | none => none
  | some (slot, tracker) =>
    if sent then
      let p' := { p with tracker, submitted := p.submitted + 1, inFlight := p.inFlight + 1 }
      let r : Read := ⟨⟨id, p.submitted⟩, p.channel, slot, .flying⟩
      some { w.setPipe id (some p') with reads := r :: w.reads }
    else some (w.setPipe id (some (p.failAll p.inFlight true)))

/-- A drive finishes a read: its bytes are in the slot, or none that count. -/
def land (r : Read) (ok : Bool) : World :=
  { w with
    reads := if r.stage = .lost then w.reads.erase r
      else { r with stage := .landed ok } :: w.reads.erase r
    content := fun s => if s = r.slot then if ok then some r.tag else none else w.content s }

/-- A pipeline receives the completion of a read. The slot is the one its tracker has for the tag. -/
def receive (p : Pipe) (r : Read) (ok copyOk : Bool) : World :=
  match p.tracker.complete r.tag.work with
  | none => (w.dropRead r).setPipe id (some (p.failAll p.inFlight true))
  | some (slot, tracker) =>
    let obj := p.work.getD r.tag.work 0
    let p' := { p with tracker, inFlight := p.inFlight - 1 }
    if ok then
      if obj ∈ p.failed then (w.dropRead r).setPipe id (some p'.recycle)
      else
        let p'' := { p' with failed := if copyOk then p.failed else obj :: p.failed }
        { (w.dropRead r).setPipe id (some p''.recycle) with
          copies := ⟨⟨id, r.tag.work⟩, slot, false⟩ :: w.copies }
    else (w.dropRead r).setPipe id (some { p' with failed := obj :: p.failed }.recycle)

/-- The GPU makes a copy. -/
def copy (c : Copy) : World :=
  { w with
    copies := { c with executed := true } :: w.copies.erase c
    served := (c.tag, w.content c.slot) :: w.served }

/-- The copies of a pipeline have all been made. -/
def copiesDone : Bool :=
  w.copies.all fun c => c.tag.pipe ≠ id || c.executed

/-- The copies of a pipeline have been synchronised. -/
def dropCopies : World :=
  { w with copies := w.copies.filter (·.tag.pipe ≠ id) }

/-- The streams are synchronised, where the pipeline does so, or this fails. -/
def sync (w : World) (id : ℕ) (p : Pipe) (ok : Bool) : Option World :=
  if ok ∧ w.copiesDone id = false then none
  else match p.phase with
    | .recycling => some (if ok then (w.dropCopies id).setPipe id
          (some { p with tracker := p.tracker.releaseCopied, phase := .looping })
        else w.setPipe id (some (p.failAll p.inFlight false)))
    | .looping => if p.canIssue = false ∧ p.inFlight = 0 then
        -- the final sync: after a success the results are returned
        some (if ok then (w.dropCopies id).setPipe id none
          else w.setPipe id (some { p with phase := .ending }))
      else none
    | .syncing => some (if ok then (w.dropCopies id).setPipe id (some { p with phase := .ending })
        else w.setPipe id (some { p with phase := .ending }))
    | _ => none

/-- The pipeline waits for a completion. -/
def awaits (p : Pipe) : Bool := p.phase = .looping ∧ p.canIssue = false ∧ 0 < p.inFlight

/-- A step of a pipeline that a call or a worker runs. -/
def runPipe (p : Pipe) : Event → Option World
  | .submit _ => if p.phase = .submitting ∧
        (range id).all (fun k => (w.pipes k).all (·.phase ≠ .submitting)) then
      -- the worker's queue has room for one request; without a pool the caller runs the pipeline
      if w.pooled then
        if w.anyPipe (fun q => q.phase = .queued ∧ q.channel = p.channel) then none
        else some (w.setPipe id (some { p with phase := .queued }))
      else if w.anyPipe (fun q => q.phase.begun && q.channel.isConnected) then none
      else some (w.setPipe id p.begin)
    else none
  | .refuse _ => if p.phase.begun then none else some (w.setPipe id none)
  | .start _ => if p.phase = .queued ∧
        w.anyPipe (fun q => q.phase.begun ∧ q.channel = p.channel) = false then
      some (w.setPipe id p.begin) else none
  | .issue _ sent => if p.phase = .looping ∧ p.canIssue then w.issue id p sent else none
  | .receive _ t copyOk => match w.read t with
      | some r => match r.stage with
          | .landed ok => if awaits p ∧ r.channel = p.channel then
              some (w.receive id p r ok copyOk) else none
          | _ => none
      | none => none
  | .timeout _ t => match w.read t with
      | some r => if awaits p ∧ r.channel = p.channel ∧ r.stage = .flying then
          some ({ w with reads := { r with stage := .lost } :: w.reads.erase r }.setPipe id
            (some (p.failAll (p.inFlight - 1) true))) else none
      | none => none
  | .unexpected _ => if awaits p then some (w.setPipe id (some (p.failAll p.inFlight true)))
      else none
  | .disconnect _ => if awaits p then
      some (w.setPipe id (some { p.failAll 0 true with phase := .syncing })) else none
  | .sync _ ok => w.sync id p ok
  | .drain _ t => match p.phase, w.read t with
      | .draining (left + 1) sync, some r => match r.stage with
          | .landed _ => if r.channel = p.channel then
              some ((w.dropRead r).setPipe id (some { p with phase := .draining left sync }))
              else none
          | _ => none
      | _, _ => none
  | .drainStop _ => match p.phase with
      | .draining _ sync =>
        some (w.setPipe id (some { p with phase := if sync then .syncing else .ending }))
      | _ => none
  | .finish _ => if p.phase = .ending then some (w.setPipe id none) else none
  | _ => none

/-- One step. -/
def step : Event → Option World
  | .batch entries =>
    -- the lock on the pool is held until every pipeline of a batch is submitted, and by a batch
    -- without a pool until the last one ends
    if (∀ e ∈ entries, e.1 < w.numDrives) ∧
        w.anyPipe (fun q => q.phase = .submitting || q.channel.isConnected) = false then
      some (w.batch entries) else none
  | .single drive segments lease =>
    if drive < w.numDrives ∧ w.anyPipe (·.channel = .leased drive lease) = false then
      some (w.single drive segments lease) else none
  | .land t ok => match w.read t with
      | some r => match r.stage with
          | .landed _ => none
          | _ => some (w.land r ok)
      | none => none
  | .copy t => match w.copies.find? (fun c => c.tag = t ∧ c.executed = false) with
      | some c => some (w.copy c)
      | none => none
  | e => match e.pipe with
      | some id => match w.pipes id with
          | some p => w.runPipe id p e
          | none => none
      | none => none

/-- The slots in use: a read is issued into them and not finished and taken, or a copy out of them is
not synchronised. -/
def occupied : List ℕ := w.reads.map (·.slot) ++ w.copies.map (·.slot)

/-- A call begins its cold dispatch while no pipeline waits or runs, over no more drives than the ring
has slots, and a pipeline that fails returns with no read in flight and every copy synchronised. -/
def Alone : Event → Prop
  | .batch entries => (∀ id < w.next, (w.pipes id).isNone) ∧
      (w.activeDrives entries).length ≤ p2pRingSlots
  | .single _ _ _ => ∀ id < w.next, (w.pipes id).isNone
  | .finish id => (∀ r ∈ w.reads, r.tag.pipe ≠ id) ∧ ∀ c ∈ w.copies, c.tag.pipe ≠ id
  | _ => True

end

instance (w : World) (e : Event) : Decidable (w.Alone e) := by
  cases e <;> unfold Alone <;> infer_instance

/-- Two lookups of single cold keys at once, on two drives: both pipelines read into the first slot of
the ring, and the first key is served the bytes of the second. -/
theorem slots_shared_by_two_lookups : ∃ es w, Run step anyStep (start 2 true) es w ∧
    ¬w.occupied.Nodup ∧ ∃ e ∈ w.served, e.2 ≠ some e.1 := by
  obtain ⟨w, hrun, hw⟩ := exists_run_of_exec (show (exec step (start 2 true)
    [.single 0 1 0, .issue 0 true, .single 1 1 0, .issue 1 true, .land ⟨0, 0⟩ true,
      .land ⟨1, 0⟩ true, .receive 0 ⟨0, 0⟩ true, .copy ⟨0, 0⟩]).any
    (fun w => decide (¬w.occupied.Nodup) && w.served.any fun e => decide (e.2 ≠ some e.1))
    by decide +kernel)
  rw [Bool.and_eq_true, decide_eq_true_iff] at hw
  obtain ⟨e, he, hne⟩ := any_eq_true.mp hw.2
  exact ⟨_, w, hrun, hw.1, e, he, of_decide_eq_true hne⟩

end World

/-! ## The invariant -/

namespace Pipe

/-- A read of the pipeline: it goes into a slot that the tracker has for it. -/
structure OwnsRead (p : Pipe) (r : Read) : Prop where
  begun : p.phase.begun
  channel : r.channel = p.channel
  has : p.partition.Has r.slot
  tracked : p.phase.live → p.tracker.slotOf r.tag.work = some r.slot

/-- A copy of the pipeline: its slot is not free. -/
structure OwnsCopy (p : Pipe) (c : Copy) : Prop where
  begun : p.phase.begun
  has : p.partition.Has c.slot
  tracked : p.phase.live → c.slot ∈ p.tracker.copied

end Pipe

/-- The reads of a pipeline that are not finished and taken. -/
def World.readsOf (w : World) (id : ℕ) : ℕ := w.reads.countP (·.tag.pipe = id)

/-- The invariant of the cold path when calls do not overlap. -/
structure Sound (w : World) : Prop where
  fresh : ∀ id, w.next ≤ id → w.pipes id = none
  reads : ∀ r ∈ w.reads, ∃ p, w.pipes r.tag.pipe = some p ∧ p.OwnsRead r
  copies : ∀ c ∈ w.copies, ∃ p, w.pipes c.tag.pipe = some p ∧ p.OwnsCopy c
  trackers : ∀ id p, w.pipes id = some p → p.phase.live →
    p.tracker.Sound p.partition p.submitted ∧ w.readsOf id ≤ p.inFlight
  occupied : w.occupied.Nodup
  apart : ∀ id id' p p', id ≠ id' → w.pipes id = some p → w.pipes id' = some p' →
    p.channel ≠ p'.channel ∧ ∀ slot, p.partition.Has slot → ¬p'.partition.Has slot
  landed : ∀ r ∈ w.reads, r.stage = .landed true → w.content r.slot = some r.tag
  queued : ∀ c ∈ w.copies, c.executed = false → w.content c.slot = some c.tag
  served : ∀ e ∈ w.served, e.2 = some e.1

theorem World.pipes_setPipe_self (w : World) (id : ℕ) (p : Option Pipe) :
    (w.setPipe id p).pipes id = p := if_pos rfl

theorem World.pipes_setPipe_of_ne (w : World) {id k : ℕ} (p : Option Pipe) (h : k ≠ id) :
    (w.setPipe id p).pipes k = w.pipes k := if_neg h

theorem World.mem_of_read {w : World} {t : Tag} {r : Read} (h : w.read t = some r) :
    r ∈ w.reads ∧ r.tag = t := by
  have htag := find?_some h
  exact ⟨mem_of_find?_eq_some h, of_decide_eq_true htag⟩

namespace Sound

variable {w : World} {id : ℕ} {p : Pipe}

variable (h : Sound w)
include h

theorem shrink {reads : List Read} {copies : List Copy}
    (hreads : reads.Sublist w.reads) (hcopies : copies.Sublist w.copies) :
    Sound { w with reads, copies } where
  fresh := h.fresh
  reads r hr := h.reads r (hreads.subset hr)
  copies c hc := h.copies c (hcopies.subset hc)
  trackers id p hp hlive :=
    ⟨(h.trackers id p hp hlive).1, Nat.le_trans hreads.countP_le (h.trackers id p hp hlive).2⟩
  occupied := h.occupied.sublist ((hreads.map _).append (hcopies.map _))
  apart := h.apart
  landed r hr := h.landed r (hreads.subset hr)
  queued c hc := h.queued c (hcopies.subset hc)
  served := h.served

theorem dropRead (r : Read) : Sound (w.dropRead r) :=
  h.shrink erase_sublist (List.Sublist.refl _)

theorem dropCopies (id : ℕ) : Sound (w.dropCopies id) :=
  h.shrink (List.Sublist.refl _) filter_sublist

theorem setPipe (hp : w.pipes id = some p) (p' : Pipe)
    (hchannel : p'.channel = p.channel) (hpart : p'.partition = p.partition)
    (hreads : ∀ r ∈ w.reads, r.tag.pipe = id → p.OwnsRead r → p'.OwnsRead r)
    (hcopies : ∀ c ∈ w.copies, c.tag.pipe = id → p.OwnsCopy c → p'.OwnsCopy c)
    (hlive : p'.phase.live →
      p'.tracker.Sound p'.partition p'.submitted ∧ w.readsOf id ≤ p'.inFlight) :
    Sound (w.setPipe id (some p')) := by
  -- a pipeline of the new world has the channel and the slots of the same one before
  have hold : ∀ k q, (w.setPipe id (some p')).pipes k = some q →
      ∃ q', w.pipes k = some q' ∧ q.channel = q'.channel ∧ q.partition = q'.partition := by
    intro k q hq
    by_cases hk : k = id
    · subst hk
      rw [pipes_setPipe_self] at hq
      cases hq
      exact ⟨p, hp, hchannel, hpart⟩
    · rw [pipes_setPipe_of_ne w _ hk] at hq
      exact ⟨q, hq, rfl, rfl⟩
  refine { h with
    fresh := fun k hk => ?_
    reads := fun r hr => ?_
    copies := fun c hc => ?_
    trackers := fun k q hq hl => ?_
    apart := fun k k' q q' hne hq hq' => ?_ }
  · have hne : k ≠ id := fun heq => by
      rw [heq] at hk
      exact absurd (hp.symm.trans (h.fresh id hk)) (by simp)
    exact (pipes_setPipe_of_ne w _ hne).trans (h.fresh k hk)
  · obtain ⟨q, hq, hown⟩ := h.reads r hr
    by_cases hk : r.tag.pipe = id
    · rw [hk] at hq ⊢
      cases hp.symm.trans hq
      exact ⟨p', pipes_setPipe_self .., hreads r hr hk hown⟩
    · exact ⟨q, (pipes_setPipe_of_ne w _ hk).trans hq, hown⟩
  · obtain ⟨q, hq, hown⟩ := h.copies c hc
    by_cases hk : c.tag.pipe = id
    · rw [hk] at hq ⊢
      cases hp.symm.trans hq
      exact ⟨p', pipes_setPipe_self .., hcopies c hc hk hown⟩
    · exact ⟨q, (pipes_setPipe_of_ne w _ hk).trans hq, hown⟩
  · by_cases hk : k = id
    · subst hk
      rw [pipes_setPipe_self] at hq
      cases hq
      exact hlive hl
    · rw [pipes_setPipe_of_ne w _ hk] at hq
      exact h.trackers k q hq hl
  · obtain ⟨q₀, hq₀, hc₀, hp₀⟩ := hold k q hq
    obtain ⟨q₁, hq₁, hc₁, hp₁⟩ := hold k' q' hq'
    rw [hc₀, hc₁, hp₀, hp₁]
    exact h.apart k k' q₀ q₁ hne hq₀ hq₁

theorem leave (hp : w.pipes id = some p) {p' : Pipe}
    (hchannel : p'.channel = p.channel) (hpart : p'.partition = p.partition)
    (hbegun' : p'.phase.begun) (hlive : p'.phase.live = false) :
    Sound (w.setPipe id (some p')) := by
  have hdead : ¬p'.phase.live := by rw [hlive]; exact Bool.false_ne_true
  refine h.setPipe hp p' hchannel hpart (fun r _ _ hown => ?_) (fun c _ _ hown => ?_)
    fun hl => absurd hl hdead
  · exact ⟨hbegun', hchannel ▸ hown.channel, hpart ▸ hown.has, fun hl => absurd hl hdead⟩
  · exact ⟨hbegun', hpart ▸ hown.has, fun hl => absurd hl hdead⟩

theorem endPipe (hreads : ∀ r ∈ w.reads, r.tag.pipe ≠ id)
    (hcopies : ∀ c ∈ w.copies, c.tag.pipe ≠ id) : Sound (w.setPipe id none) := by
  have hold : ∀ k q, (w.setPipe id none).pipes k = some q → w.pipes k = some q := by
    intro k q hq
    by_cases hk : k = id
    · subst hk
      rw [pipes_setPipe_self] at hq
      cases hq
    · rwa [pipes_setPipe_of_ne w _ hk] at hq
  refine { h with
    fresh := fun k hk => ?_
    reads := fun r hr => ?_
    copies := fun c hc => ?_
    trackers := fun k q hq => h.trackers k q (hold k q hq)
    apart := fun k k' q q' hne hq hq' => h.apart k k' q q' hne (hold k q hq) (hold k' q' hq') }
  · by_cases heq : k = id
    · rw [heq, pipes_setPipe_self]
    · exact (pipes_setPipe_of_ne w _ heq).trans (h.fresh k hk)
  · obtain ⟨q, hq, hown⟩ := h.reads r hr
    exact ⟨q, (pipes_setPipe_of_ne w _ (hreads r hr)).trans hq, hown⟩
  · obtain ⟨q, hq, hown⟩ := h.copies c hc
    exact ⟨q, (pipes_setPipe_of_ne w _ (hcopies c hc)).trans hq, hown⟩

variable {r : Read} {c : Copy} {slot : ℕ} {w' : World} {ok : Bool} {e : Event}

theorem addRead (hp : w.pipes r.tag.pipe = some p) (hown : p.OwnsRead r)
    (hslot : r.slot ∉ w.occupied) (hcount : p.phase.live → w.readsOf r.tag.pipe + 1 ≤ p.inFlight)
    (hlanded : r.stage = .landed true → w.content r.slot = some r.tag) :
    Sound { w with reads := r :: w.reads } := by
  refine { h with
    reads := fun r' hr' => ?_
    trackers := fun k q hq hl => ⟨(h.trackers k q hq hl).1, ?_⟩
    occupied := nodup_cons.mpr ⟨hslot, h.occupied⟩
    landed := fun r' hr' => ?_ }
  · rcases mem_cons.mp hr' with rfl | hmem
    · exact ⟨p, hp, hown⟩
    · exact h.reads r' hmem
  · change countP _ (r :: w.reads) ≤ _
    by_cases hk : r.tag.pipe = k
    · subst hk
      cases hp.symm.trans hq
      rw [countP_cons_of_pos (by exact decide_eq_true rfl)]
      exact hcount hl
    · rw [countP_cons_of_neg (by rw [decide_eq_true_iff]; exact hk)]
      exact (h.trackers k q hq hl).2
  · rcases mem_cons.mp hr' with rfl | hmem
    · exact hlanded
    · exact h.landed r' hmem

/-- A copy is added out of a slot that is not in use otherwise. -/
theorem addCopy (hp : w.pipes c.tag.pipe = some p) (hown : p.OwnsCopy c)
    (hslot : c.slot ∉ w.occupied) (hqueued : c.executed = false → w.content c.slot = some c.tag) :
    Sound { w with copies := c :: w.copies } := by
  refine { h with
    copies := fun c' hc' => ?_
    occupied := nodup_middle.mpr (nodup_cons.mpr ⟨hslot, h.occupied⟩)
    queued := fun c' hc' => ?_ }
  · rcases mem_cons.mp hc' with rfl | hmem
    · exact ⟨p, hp, hown⟩
    · exact h.copies c' hmem
  · rcases mem_cons.mp hc' with rfl | hmem
    · exact hqueued
    · exact h.queued c' hmem

theorem setContent (t : Option Tag) (hslot : slot ∉ w.occupied) :
    Sound { w with content := fun s => if s = slot then t else w.content s } := by
  have hother : ∀ s ∈ w.occupied, (if s = slot then t else w.content s) = w.content s :=
    fun s hs => if_neg fun (heq : s = slot) => hslot (heq ▸ hs)
  refine { h with
    landed := fun r hr hl => (hother r.slot ?_).trans (h.landed r hr hl)
    queued := fun c hc hq => (hother c.slot ?_).trans (h.queued c hc hq) }
  · exact mem_append_left _ (mem_map_of_mem hr)
  · exact mem_append_right _ (mem_map_of_mem hc)

/-- Without one of its reads, the slot of that read is not in use. -/
theorem slot_not_occupied (hr : r ∈ w.reads) : r.slot ∉ (w.dropRead r).occupied := by
  have hperm : (r.slot :: (w.dropRead r).occupied).Perm w.occupied :=
    (((perm_cons_erase hr).map Read.slot).append_right (w.copies.map Copy.slot)).symm
  exact (nodup_cons.mp (hperm.nodup_iff.mpr h.occupied)).1

/-- Without one of its copies, the slot of that copy is not in use. -/
theorem copy_not_occupied (hc : c ∈ w.copies) :
    c.slot ∉ World.occupied { w with copies := w.copies.erase c } := by
  have hperm : (c.slot :: World.occupied { w with copies := w.copies.erase c }).Perm w.occupied :=
    perm_middle.symm.trans
      (((perm_cons_erase hc).map Copy.slot).append_left (w.reads.map Read.slot)).symm
  exact (nodup_cons.mp (hperm.nodup_iff.mpr h.occupied)).1

variable (hp : w.pipes id = some p)
include hp

/-- The completions on a pipeline's channel are those of its own reads. -/
theorem pipe_of_channel (hr : r ∈ w.reads)
    (hchannel : r.channel = p.channel) : r.tag.pipe = id ∧ p.OwnsRead r := by
  obtain ⟨q, hq, hown⟩ := h.reads r hr
  by_cases hid : r.tag.pipe = id
  · refine ⟨hid, ?_⟩
    rw [hid] at hq
    cases hp.symm.trans hq
    exact hown
  · exact absurd (hown.channel.symm.trans hchannel) (h.apart _ _ q p hid hq hp).1

/-- A pipeline that has not started has no reads and no copies. -/
theorem none_of_not_begun (hnot : p.phase.begun = false) :
    (∀ r ∈ w.reads, r.tag.pipe ≠ id) ∧ ∀ c ∈ w.copies, c.tag.pipe ≠ id := by
  refine ⟨fun r hr heq => ?_, fun c hc heq => ?_⟩
  · obtain ⟨q, hq, hown⟩ := h.reads r hr
    rw [heq] at hq
    cases hp.symm.trans hq
    exact absurd hown.begun (by rw [hnot]; exact Bool.false_ne_true)
  · obtain ⟨q, hq, hown⟩ := h.copies c hc
    rw [heq] at hq
    cases hp.symm.trans hq
    exact absurd hown.begun (by rw [hnot]; exact Bool.false_ne_true)

omit h hp in
theorem readsOf_eq_zero (hreads : ∀ r ∈ w.reads, r.tag.pipe ≠ id) : w.readsOf id = 0 :=
  countP_eq_zero.mpr fun r hr => by
    rw [decide_eq_true_iff]
    exact hreads r hr

/-! ### Steps of a pipeline -/

theorem begin (hnot : p.phase.begun = false) : Sound (w.setPipe id p.begin) := by
  obtain ⟨hreads, hcopies⟩ := h.none_of_not_begun hp hnot
  rw [Pipe.begin]
  split_ifs
  · exact h.endPipe hreads hcopies
  · refine h.setPipe hp _ rfl rfl (fun r hr heq => absurd heq (hreads r hr))
      (fun c hc heq => absurd heq (hcopies c hc)) fun _ => ⟨SlotTracker.Sound.new _, ?_⟩
    exact Nat.le_of_eq (readsOf_eq_zero hreads)

theorem free_not_occupied (hlive : p.phase.live)
    (hfree : slot ∈ p.tracker.free) : slot ∉ w.occupied := by
  have htracker := (h.trackers id p hp hlive).1
  have hhas : p.partition.Has slot := htracker.has slot (mem_append_right _ hfree)
  intro hmem
  rcases mem_append.mp hmem with hread | hcopy
  · obtain ⟨r, hr, rfl⟩ := mem_map.mp hread
    obtain ⟨q, hq, hown⟩ := h.reads r hr
    by_cases hid : r.tag.pipe = id
    · rw [hid] at hq
      cases hp.symm.trans hq
      exact (htracker.slot _ _ (hown.tracked hlive)).1 (mem_append_right _ hfree)
    · exact (h.apart _ _ q p hid hq hp).2 _ hown.has hhas
  · obtain ⟨c, hc, rfl⟩ := mem_map.mp hcopy
    obtain ⟨q, hq, hown⟩ := h.copies c hc
    by_cases hid : c.tag.pipe = id
    · rw [hid] at hq
      cases hp.symm.trans hq
      exact (nodup_append.mp htracker.nodup).2.2 _ (hown.tracked hlive) _ hfree rfl
    · exact (h.apart _ _ q p hid hq hp).2 _ hown.has hhas

theorem issue (hlive : p.phase.live) {sent : Bool}
    (hstep : w.issue id p sent = some w') : Sound w' := by
  rw [World.issue] at hstep
  split at hstep
  · cases hstep
  · rename_i slot tracker hacq
    obtain ⟨htracker, hcount⟩ := h.trackers id p hp hlive
    obtain ⟨htracker', hhas, hfree, hself, hcopied, hother⟩ := htracker.acquire hacq
    have hbegun := Phase.begun_of_live hlive
    split_ifs at hstep
    · cases hstep
      -- the pipeline first, then the read in the slot it has taken
      have hmoved := h.setPipe hp
        { p with tracker, submitted := p.submitted + 1, inFlight := p.inFlight + 1 } rfl rfl
        (fun r _ _ hown => ⟨hbegun, hown.channel, hown.has, fun _ => by
          have hlt := (htracker.slot _ _ (hown.tracked hlive)).2.2
          exact (hother _ (Nat.ne_of_lt hlt)).trans (hown.tracked hlive)⟩)
        (fun c _ _ hown => ⟨hbegun, hown.has, fun _ => by
          change c.slot ∈ tracker.copied
          rw [hcopied]
          exact hown.tracked hlive⟩)
        fun _ => ⟨htracker', Nat.le_succ_of_le hcount⟩
      exact hmoved.addRead (pipes_setPipe_self ..) ⟨hbegun, rfl, hhas, fun _ => hself⟩
        (h.free_not_occupied hp hlive hfree) (fun _ => Nat.succ_le_succ hcount) fun hst => nomatch hst
    · cases hstep
      exact h.leave hp rfl rfl rfl rfl

omit hp in
theorem land (hr : r ∈ w.reads) (ok : Bool) : Sound (w.land r ok) := by
  have hslot := h.slot_not_occupied hr
  have hcontent := (h.dropRead r).setContent (if ok then some r.tag else none) hslot
  rw [World.land]
  split
  · exact { hcontent with }
  · obtain ⟨q, hq, hown⟩ := h.reads r hr
    have hadd := hcontent.addRead (r := { r with stage := .landed ok }) hq
      ⟨hown.begun, hown.channel, hown.has, hown.tracked⟩ hslot (fun hl => ?_) fun hst => ?_
    · exact { hadd with }
    · have hcount := (h.trackers _ q hq hl).2
      have hperm := (perm_cons_erase hr).countP_eq (·.tag.pipe = r.tag.pipe)
      rw [countP_cons_of_pos (by exact decide_eq_true rfl)] at hperm
      change (w.reads.erase r).countP (·.tag.pipe = r.tag.pipe) + 1 ≤ q.inFlight
      unfold readsOf at hcount
      omega
    · cases hst
      exact if_pos rfl

theorem receive (hlive : p.phase.live)
    (hr : r ∈ w.reads) (hchannel : r.channel = p.channel) (hstage : r.stage = .landed ok)
    (copyOk : Bool) : Sound (w.receive id p r ok copyOk) := by
  obtain ⟨hid, hown⟩ := h.pipe_of_channel hp hr hchannel
  obtain ⟨htracker, hcount⟩ := h.trackers id p hp hlive
  obtain ⟨tracker, hcomplete, htracker', hslot, hsub, hother⟩ :=
    htracker.complete (hown.tracked hlive)
  have hless : (w.dropRead r).readsOf id + 1 ≤ p.inFlight := by
    have hperm := (perm_cons_erase hr).countP_eq (·.tag.pipe = id)
    rw [countP_cons_of_pos (by exact decide_eq_true hid)] at hperm
    change (w.reads.erase r).countP _ + 1 ≤ p.inFlight
    unfold readsOf at hcount
    omega
  -- the pipeline goes on with the read dropped, whatever becomes of its object
  have hmove : ∀ failed, Sound ((w.dropRead r).setPipe id
      (some (recycle { p with tracker, inFlight := p.inFlight - 1, failed }))) := by
    intro failed
    have hbegun : (recycle { p with tracker, inFlight := p.inFlight - 1, failed }).phase.begun
        = true := by
      rw [recycle]
      dsimp only
      split_ifs <;> rfl
    refine (h.dropRead r).setPipe hp _ rfl rfl (fun r' hr' hid' hown' => ?_)
      (fun c _ _ hown' => ⟨hbegun, hown'.has, fun _ => hsub (hown'.tracked hlive)⟩)
      fun _ => ⟨htracker', Nat.le_sub_one_of_lt hless⟩
    refine ⟨hbegun, hown'.channel, hown'.has, fun _ => ?_⟩
    refine (hother _ fun hwork => ?_).trans (hown'.tracked hlive)
    -- a second read with this tag would be in the same slot
    have hsame : r'.slot = r.slot := by
      have h1 := hown'.tracked hlive
      rw [hwork, hown.tracked hlive] at h1
      exact (some.inj h1).symm
    exact h.slot_not_occupied hr (mem_append_left _ (hsame ▸ mem_map_of_mem hr'))
  rw [World.receive, hcomplete]
  dsimp only
  cases ok with
  | false =>
    exact hmove _
  | true =>
  rw [if_pos rfl]
  split
  · exact hmove p.failed
  · have hcopy := (hmove (if copyOk then p.failed else p.work.getD r.tag.work 0 :: p.failed)).addCopy
      (c := ⟨⟨id, r.tag.work⟩, r.slot, false⟩) (pipes_setPipe_self ..) ?_
      (h.slot_not_occupied hr) fun _ => ?_
    · exact { hcopy with }
    · refine ⟨?_, hown.has, fun _ => hslot⟩
      rw [recycle]
      dsimp only
      split_ifs <;> rfl
    · have hlanded := h.landed r hr hstage
      rw [← hid]
      exact hlanded

/-- A read is given up while the drive is at it, and its pipeline fails. -/
theorem timeout (hr : r ∈ w.reads) (hchannel : r.channel = p.channel) (left : ℕ) :
    Sound ({ w with reads := { r with stage := .lost } :: w.reads.erase r }.setPipe id
      (some (p.failAll left true))) := by
  obtain ⟨hid, hown⟩ := h.pipe_of_channel hp hr hchannel
  have hleft : Sound ((w.dropRead r).setPipe id (some (p.failAll left true))) :=
    (h.dropRead r).leave hp rfl rfl rfl rfl
  have hpipe : ((w.dropRead r).setPipe id (some (p.failAll left true))).pipes r.tag.pipe =
      some (p.failAll left true) := hid ▸ pipes_setPipe_self ..
  have hadd := hleft.addRead (r := { r with stage := .lost }) hpipe
    ⟨rfl, hown.channel, hown.has, fun hl => nomatch hl⟩ (h.slot_not_occupied hr)
    (fun hl => nomatch hl) fun hst => nomatch hst
  exact { hadd with }

omit hp in
/-- The GPU makes a copy: it finds the bytes of its own read. -/
theorem copy (hc : c ∈ w.copies) (hqueued : c.executed = false) : Sound (w.copy c) := by
  obtain ⟨q, hq, hown⟩ := h.copies c hc
  have hdrop : Sound { w with copies := w.copies.erase c } :=
    h.shrink (List.Sublist.refl _) erase_sublist
  have hadd := hdrop.addCopy (c := { c with executed := true }) hq
    ⟨hown.begun, hown.has, hown.tracked⟩ (h.copy_not_occupied hc) fun hex => nomatch hex
  refine { hadd with served := fun e he => ?_ }
  rcases mem_cons.mp he with rfl | hold
  · exact h.queued c hc hqueued
  · exact h.served e hold

omit h hp in
theorem copies_dropCopies (hc : c ∈ (w.dropCopies id).copies) : c.tag.pipe ≠ id :=
  of_decide_eq_true (mem_filter.mp hc).2

theorem sync (hstep : w.sync id p ok = some w') : Sound w' := by
  rw [World.sync] at hstep
  split at hstep
  · cases hstep
  cases hphase : p.phase <;> rw [hphase] at hstep <;> dsimp only at hstep
  case submitting | queued | draining | ending => cases hstep
  case recycling =>
    have hlive : p.phase.live := by rw [hphase]; rfl
    obtain ⟨htracker, hcount⟩ := h.trackers id p hp hlive
    cases ok <;> cases hstep
    · exact h.leave hp rfl rfl rfl rfl
    · refine (h.dropCopies id).setPipe hp _ rfl rfl (fun r _ _ hown => ?_)
        (fun c hc heq => absurd heq (copies_dropCopies hc)) fun _ => ⟨htracker.releaseCopied, hcount⟩
      exact ⟨rfl, hown.channel, hown.has, fun _ => hown.tracked hlive⟩
  case looping =>
    by_cases hdone : p.canIssue = false ∧ p.inFlight = 0
    swap
    · rw [if_neg hdone] at hstep
      cases hstep
    rw [if_pos hdone] at hstep
    have hlive : p.phase.live := by rw [hphase]; rfl
    cases ok <;> cases hstep
    · exact h.leave hp rfl rfl rfl rfl
    · refine (h.dropCopies id).endPipe (fun r hr heq => ?_) fun c hc => copies_dropCopies hc
      have hcount := (h.trackers id p hp hlive).2
      have hpos : 0 < w.readsOf id := countP_pos_iff.mpr ⟨r, hr, decide_eq_true heq⟩
      have hzero := hdone.2
      omega
  case syncing =>
    cases ok <;> cases hstep
    · exact h.leave hp rfl rfl rfl rfl
    · exact (h.dropCopies id).leave hp rfl rfl rfl rfl

theorem runPipe (hpipe : e.pipe = some id)
    (halone : w.Alone e) (hstep : w.runPipe id p e = some w') : Sound w' := by
  have hawaits : awaits p → p.phase.live := fun ha => by
    have hphase := (of_decide_eq_true ha).1
    rw [hphase]
    rfl
  cases e with
  | batch | single | land | copy => cases hpipe
  | submit k =>
    rw [runPipe] at hstep
    split_ifs at hstep with hsub
    · cases hstep
      have hnot : p.phase.begun = false := by rw [hsub.1]; rfl
      obtain ⟨hreads, hcopies⟩ := h.none_of_not_begun hp hnot
      exact h.setPipe hp _ rfl rfl (fun r hr heq => absurd heq (hreads r hr))
        (fun c hc heq => absurd heq (hcopies c hc)) fun hl => nomatch hl
    · cases hstep
      exact h.begin hp (by rw [hsub.1]; rfl)
  | refuse k =>
    rw [runPipe] at hstep
    split_ifs at hstep with hbegun
    cases hstep
    obtain ⟨hreads, hcopies⟩ := h.none_of_not_begun hp (Bool.eq_false_iff.mpr hbegun)
    exact h.endPipe hreads hcopies
  | start k =>
    rw [runPipe] at hstep
    split_ifs at hstep with hqueued
    cases hstep
    exact h.begin hp (by rw [hqueued.1]; rfl)
  | issue k sent =>
    rw [runPipe] at hstep
    split_ifs at hstep with hloop
    exact h.issue hp (by rw [hloop.1]; rfl) hstep
  | receive k t copyOk =>
    rw [runPipe] at hstep
    split at hstep
    · rename_i r hread
      split at hstep
      · rename_i ok hstage
        split_ifs at hstep with hready
        cases hstep
        exact h.receive hp (hawaits hready.1) (mem_of_read hread).1 hready.2 hstage copyOk
      · cases hstep
    · cases hstep
  | timeout k t =>
    rw [runPipe] at hstep
    split at hstep
    · rename_i r hread
      split_ifs at hstep with hready
      cases hstep
      exact h.timeout hp (mem_of_read hread).1 hready.2.1 _
    · cases hstep
  | unexpected k | disconnect k =>
    rw [runPipe] at hstep
    split_ifs at hstep
    cases hstep
    exact h.leave hp rfl rfl rfl rfl
  | sync k ok => exact h.sync hp hstep
  | drain k t =>
    rw [runPipe] at hstep
    split at hstep
    · split at hstep
      · split_ifs at hstep
        cases hstep
        exact (h.dropRead _).leave hp rfl rfl rfl rfl
      · cases hstep
    · cases hstep
  | drainStop k =>
    rw [runPipe] at hstep
    split at hstep
    · cases hstep
      refine h.leave hp rfl rfl ?_ ?_
      · dsimp only
        split_ifs <;> rfl
      · dsimp only
        split_ifs <;> rfl
    · cases hstep
  | finish k =>
    rw [runPipe] at hstep
    split_ifs at hstep
    cases hstep
    cases hpipe
    exact h.endPipe halone.1 halone.2

omit hp

/-! ### Calls -/

variable (hnone : ∀ id < w.next, (w.pipes id).isNone)
include hnone

/-- With no pipeline there is nothing in flight, and new ones come in. -/
theorem enter {pipes : ℕ → Option Pipe} {next : ℕ} (hfresh : ∀ id, next ≤ id → pipes id = none)
    (hnot : ∀ id p, pipes id = some p → p.phase.begun = false)
    (hapart : ∀ id id' p p', id ≠ id' → pipes id = some p → pipes id' = some p' →
      p.channel ≠ p'.channel ∧ ∀ slot, p.partition.Has slot → ¬p'.partition.Has slot) :
    Sound { w with pipes, next } := by
  have hempty : ∀ id, w.pipes id = none := fun id => by
    by_cases hid : id < w.next
    · exact isNone_iff_eq_none.mp (hnone id hid)
    · exact h.fresh id (Nat.le_of_not_lt hid)
  refine { h with
    fresh := hfresh
    reads := fun r hr => ?_
    copies := fun c hc => ?_
    trackers := fun id p hp hlive => ?_
    apart := hapart }
  · obtain ⟨q, hq, -⟩ := h.reads r hr
    exact absurd (hq.symm.trans (hempty _)) (by simp)
  · obtain ⟨q, hq, -⟩ := h.copies c hc
    exact absurd (hq.symm.trans (hempty _)) (by simp)
  · exact absurd (Phase.begun_of_live hlive) (by rw [hnot id p hp]; exact Bool.false_ne_true)

theorem batch {entries : List (ℕ × ℕ)}
    (hdrives : (w.activeDrives entries).length ≤ p2pRingSlots) : Sound (w.batch entries) := by
  have hnodup : (w.activeDrives entries).Nodup := nodup_range.filter _
  -- each new pipeline belongs to a position of the batch
  have hnew : ∀ id p, (w.batch entries).pipes id = some p → ∃ i d,
      id = w.next + i ∧ (w.activeDrives entries)[i]? = some d ∧ p = w.batchPipe entries i d := by
    intro id p hp
    change (if id < w.next then w.pipes id else _) = some p at hp
    split_ifs at hp with hid
    · exact absurd hp (by rw [isNone_iff_eq_none.mp (hnone id hid)]; simp)
    · rw [getElem?_mapIdx, map_eq_some_iff] at hp
      obtain ⟨d, hd, rfl⟩ := hp
      exact ⟨id - w.next, d, by omega, hd, rfl⟩
  refine h.enter hnone (fun id hid => ?_) (fun id p hp => ?_) fun id id' p p' hne hp hp' => ?_
  · have hge : ¬id < w.next := fun hlt => by omega
    rw [if_neg hge]
    exact getElem?_eq_none (by omega)
  · obtain ⟨i, d, -, -, rfl⟩ := hnew id p hp
    rfl
  · obtain ⟨i, d, hi, hd, rfl⟩ := hnew id p hp
    obtain ⟨j, d', hj, hd', rfl⟩ := hnew id' p' hp'
    have hij : i ≠ j := fun heq => hne (by rw [hi, hj, heq])
    refine ⟨?_, fun slot hslot => ?_⟩
    · have hdd : d ≠ d' := fun heq => by
        rw [← heq, ← hd] at hd'
        obtain ⟨hlt, -⟩ := List.getElem?_eq_some_iff.mp hd
        exact hij ((getElem?_inj hlt hnodup).mp hd'.symm)
      change (if w.pooled then Channel.worker d else .connected (w.next + i)) ≠
        (if w.pooled then Channel.worker d' else .connected (w.next + j))
      split_ifs
      · exact fun heq => hdd (Channel.worker.inj heq)
      · exact fun heq => hij (Nat.add_left_cancel (Channel.connected.inj heq))
    · exact ThreadPartition.not_has_of_ne (Nat.max_le.mpr ⟨hdrives, by decide⟩) hij hslot

theorem single (drive segments lease : ℕ) : Sound (w.single drive segments lease) := by
  obtain ⟨p, hp⟩ : ∃ p, p = request (.leased drive lease) (.new 0 1)
    (replicate segments 0) := ⟨_, rfl⟩
  have hall : ∀ id, w.pipes id = none := fun id => by
    by_cases hid : id < w.next
    · exact isNone_iff_eq_none.mp (hnone id hid)
    · exact h.fresh id (Nat.le_of_not_lt hid)
  have honly : ∀ id q, (w.setPipe w.next (some p)).pipes id = some q → id = w.next ∧ q = p := by
    intro id q hq
    by_cases hid : id = w.next
    · rw [hid, World.pipes_setPipe_self] at hq
      exact ⟨hid, (some.inj hq).symm⟩
    · rw [World.pipes_setPipe_of_ne w _ hid, hall] at hq
      cases hq
  have henter : Sound { w.setPipe w.next (some p) with next := w.next + 1 } := by
    refine h.enter hnone (fun id hid => ?_) (fun id q hq => ?_) fun id id' q q' hne hq hq' => ?_
    · have hne : id ≠ w.next := by omega
      exact (if_neg hne).trans (hall id)
    · rw [(honly id q hq).2, hp]
      rfl
    · exact absurd ((honly id q hq).1.trans (honly id' q' hq').1.symm) hne
  have hself : World.pipes { w.setPipe w.next (some p) with next := w.next + 1 } w.next = some p :=
    if_pos rfl
  have hbegin := henter.begin hself (by rw [hp]; rfl)
  have heq : (World.setPipe { w.setPipe w.next (some p) with next := w.next + 1 } w.next
      p.begin) = w.single drive segments lease := by
    rw [World.single, ← hp]
    simp only [World.setPipe, World.mk.injEq, true_and, and_true]
    funext k
    split_ifs <;> rfl
  exact heq ▸ hbegin

omit hnone

theorem step (halone : w.Alone e) (hstep : w.step e = some w') : Sound w' := by
  rw [step.eq_def] at hstep
  split at hstep
  · split_ifs at hstep
    cases hstep
    exact h.batch halone.1 halone.2
  · split_ifs at hstep
    cases hstep
    exact h.single halone _ _ _
  · split at hstep
    · rename_i r hread
      split at hstep
      · cases hstep
      · cases hstep
        exact h.land (mem_of_read hread).1 _
    · cases hstep
  · split at hstep
    · rename_i c hfind
      cases hstep
      have htest := find?_some hfind
      exact h.copy (mem_of_find?_eq_some hfind) (of_decide_eq_true htest).2
    · cases hstep
  · split at hstep
    · rename_i id hpipe
      split at hstep
      · rename_i p hp
        exact h.runPipe hp hpipe halone hstep
      · cases hstep
    · cases hstep

omit h

theorem start (numDrives : ℕ) (pooled : Bool) : Sound (.start numDrives pooled) where
  fresh _ _ := rfl
  reads _ hr := nomatch hr
  copies _ hc := nomatch hc
  trackers _ _ hp := nomatch hp
  occupied := nodup_nil
  apart _ _ _ _ _ hp := nomatch hp
  landed _ hr := nomatch hr
  queued _ hc := nomatch hc
  served _ he := nomatch he

end Sound

namespace World

/-- **Staging slots are not shared** when calls do not overlap and failing pipelines leave nothing in
flight: in every such run, no slot has two reads or copies in use, and every copy delivers the bytes
of its own read. -/
theorem slots_not_shared (numDrives : ℕ) (pooled : Bool) {es : List Event} {w : World}
    (hrun : Run step Alone (start numDrives pooled) es w) :
    w.occupied.Nodup ∧ ∀ e ∈ w.served, e.2 = some e.1 := by
  have h : Sound w := hrun.invariant (I := Sound) (Sound.start numDrives pooled)
    fun _ _ _ h halone hstep => h.step halone hstep
  exact ⟨h.occupied, h.served⟩

/-- A batch over two drives, its reads finishing in the other order. -/
theorem slots_not_shared_two_drives : ∃ es w, Run step Alone (start 2 true) es w ∧
    w.served.length = 2 ∧ ∀ e ∈ w.served, e.2 = some e.1 := by
  obtain ⟨w, hrun, hw⟩ := exists_run_of_checkedExec (show (checkedExec step Alone (start 2 true)
    [.batch [(0, 1), (1, 1)], .submit 0, .submit 1, .start 1, .start 0, .issue 0 true,
      .issue 1 true, .land ⟨1, 0⟩ true, .land ⟨0, 0⟩ true, .receive 0 ⟨0, 0⟩ true,
      .receive 1 ⟨1, 0⟩ true, .copy ⟨0, 0⟩, .copy ⟨1, 0⟩, .sync 0 true, .sync 1 true]).any
    (fun w => w.served.length == 2) by decide +kernel)
  exact ⟨_, w, hrun, beq_iff_eq.mp hw, (slots_not_shared 2 true hrun).2⟩

end World

end Certus.DispatcherP2p
