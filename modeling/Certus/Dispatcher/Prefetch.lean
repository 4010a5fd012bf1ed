import Certus.Dispatcher.DataPlacement
import Certus.Interfaces
import Certus.Lib.History
import Certus.Lib.Run

/-! # Prefetching into the memory tier

`promote_to_memory_tier` and `pipelined_ssd_to_dram_only`: the worker of a drive reads the cold
entries one after the other into slots of the memory tier. All of them use one channel to the block
device, and the worker counts completions without looking at their tags.

* **`World.step`** — a step of the worker or of the device.
* **`World.prefetched`** — then a slot is published only after every segment was read into it, and
  freed only after all its reads ended. -/

namespace Certus.Dispatcher.Prefetch

open List

/-! ## Entries and reads -/

/-- An entry that is on a drive. -/
structure ColdEntry where
  key : CacheKey
  offset : UInt64
  size : UInt32
  deriving DecidableEq, Repr

/-- The cold entries among the keys; of each key the answers to `lookup` and `entry_size`. -/
def coldEntries : List (CacheKey × LookupResult × Option UInt32) → List ColdEntry
  | [] => []
  | (key, .blockDevice offset, some size) :: rest => ⟨key, offset, size⟩ :: coldEntries rest
  | _ :: rest => coldEntries rest

/-- A drive and the sizes of its reads. -/
structure Config where
  drive : ℕ
  blockSize : ℕ
  chunkSize : ℕ
  blockSize_pos : 0 < blockSize
  chunkSize_pos : 0 < chunkSize

namespace Config

/-- The entries for the worker of the drive. -/
def perDrive (cfg : Config) (cold : List ColdEntry) : List ColdEntry :=
  cold.filter fun e => (decodeLoc e.offset).1 = cfg.drive

/-- The segments of the extent of an entry. -/
def segments (cfg : Config) (e : ColdEntry) : List IoSegment :=
  (coldRead cfg.blockSize cfg.chunkSize e.offset e.size.toNat).getD []

end Config

/-- The number of reads that are kept in flight. -/
def maxQueueDepth : ℕ := 16

/-- A read: the attempt it belongs to, the slot it goes to, its tag and its segment. -/
structure Read where
  attempt : ℕ
  slot : Pointer
  tag : ℕ
  segment : IoSegment
  deriving DecidableEq, Repr

/-- What the device says. -/
inductive Completion where
  | readDone (tag : ℕ) (error : Option String)
  | timeout
  | other (text : String)
  deriving DecidableEq, Repr

/-- The worker goes on after it. -/
def Completion.isOk : Completion → Bool
  | .readDone _ none => true
  | _ => false

/-! ## The worker -/

/-- The entry being read, with the counters of `pipelined_ssd_to_dram_only`. -/
structure Job where
  entry : ColdEntry
  attempt : ℕ
  slot : Pointer
  segments : List IoSegment
  submitted : ℕ
  completed : ℕ
  rest : List ColdEntry
  deriving DecidableEq, Repr

/-- The read of a segment. -/
def Job.read (job : Job) (tag : ℕ) (segment : IoSegment) : Read :=
  ⟨job.attempt, job.slot, tag, segment⟩

/-- Where the worker is: without a channel, before the next entry, submitting until `target` reads
are submitted, waiting for a completion, or done with all segments. -/
inductive Phase where
  | idle
  | next (rest : List ColdEntry)
  | sending (job : Job) (target : ℕ)
  | waiting (job : Job)
  | settling (job : Job)
  deriving DecidableEq, Repr

/-- What was seen. -/
inductive Act where
  | submitted (r : Read)
  | finished (r : Read) (ok : Bool)
  | promoted (attempt : ℕ) (entry : ColdEntry) (slot : Pointer)
  | freed (attempt : ℕ)
  deriving DecidableEq, Repr

/-- The worker with its channel. `pending` are the reads the device will report, `forgotten` those it
reported as timed out or cancelled while the drive may still write their slot. -/
structure World where
  phase : Phase
  pending : List Read
  forgotten : List Read
  queue : List Completion
  nextAttempt : ℕ
  log : List Act
  deriving DecidableEq, Repr

/-- One step. -/
inductive Event where
  | checkout (found : List (CacheKey × LookupResult × Option UInt32))
  | leave
  | skip
  | insert (slot : Pointer) (wrapped : Bool)
  | send (ok : Bool)
  | receive
  | disconnected
  | promote (ok : Bool)
  | complete (r : Read) (error : Option String)
  | forget (r : Read) (completion : Completion)
  | settle (r : Read) (ok : Bool)
  deriving DecidableEq, Repr

namespace World

/-- A new channel. -/
def connected : World := ⟨.idle, [], [], [], 0, []⟩

/-- The slot is freed and the worker goes on with the next entry. -/
def fail (w : World) (job : Job) : World :=
  { w with phase := .next job.rest, log := .freed job.attempt :: w.log }

/-- Wait for completions, or be done. -/
def await (w : World) (job : Job) : World :=
  { w with phase := if job.completed < job.segments.length then .waiting job else .settling job }

/-- The memory tier gave a slot. -/
def insert (cfg : Config) (w : World) (e : ColdEntry) (rest : List ColdEntry) (slot : Pointer)
    (wrapped : Bool) : World :=
  let job : Job := ⟨e, w.nextAttempt, slot, cfg.segments e, 0, 0, rest⟩
  let w := { w with nextAttempt := w.nextAttempt + 1 }
  if job.segments = [] then { w with phase := .settling job }
  else if wrapped then
    { w with phase := .sending job (max (min maxQueueDepth job.segments.length) 1) }
  else w.fail job

/-- A command is sent; `ok = false` if the channel refuses it. -/
def send (w : World) (job : Job) (target : ℕ) (ok : Bool) : World :=
  match job.segments[job.submitted]? with
  | none => w.await job
  | some segment =>
    if ok then
      let read := job.read job.submitted segment
      let job := { job with submitted := job.submitted + 1 }
      let w := { w with pending := w.pending ++ [read], log := .submitted read :: w.log }
      if job.submitted < target then { w with phase := .sending job target } else w.await job
    else w.fail job

/-- A completion is received. Its tag is not looked at. -/
def receive (w : World) (job : Job) (completion : Completion) (queue : List Completion) : World :=
  let w := { w with queue }
  if completion.isOk then
    let job := { job with completed := job.completed + 1 }
    if job.submitted < job.segments.length then
      { w with phase := .sending job (job.submitted + 1) }
    else w.await job
  else w.fail job

/-- The entry is flipped to its slot, or the slot is freed. -/
def promote (w : World) (job : Job) (ok : Bool) : World :=
  if ok then
    { w with
      phase := .next job.rest
      log := .promoted job.attempt job.entry job.slot :: w.log }
  else w.fail job

def step (cfg : Config) (w : World) : Event → Option World
  | .checkout found =>
    match w.phase with
    | .idle =>
      -- completions left by an earlier user are thrown away
      some { w with phase := .next (cfg.perDrive (coldEntries found)), queue := [] }
    | _ => none
  | .leave =>
    match w.phase with
    | .next [] => some { w with phase := .idle }
    | _ => none
  | .skip =>
    match w.phase with
    | .next (_ :: rest) => some { w with phase := .next rest }
    | _ => none
  | .insert slot wrapped =>
    match w.phase with
    | .next (e :: rest) => some (w.insert cfg e rest slot wrapped)
    | _ => none
  | .send ok =>
    match w.phase with
    | .sending job target => some (w.send job target ok)
    | _ => none
  | .receive =>
    match w.phase, w.queue with
    | .waiting job, completion :: queue => some (w.receive job completion queue)
    | _, _ => none
  | .disconnected =>
    match w.phase, w.queue with
    | .waiting job, [] => some (w.fail job)
    | _, _ => none
  | .promote ok =>
    match w.phase with
    | .settling job => some (w.promote job ok)
    | _ => none
  | .complete r error =>
    if r ∈ w.pending then
      some { w with
        pending := w.pending.erase r
        queue := w.queue ++ [.readDone r.tag error]
        log := .finished r error.isNone :: w.log }
    else none
  | .forget r completion =>
    if r ∈ w.pending ∧ completion.isOk = false then
      some { w with
        pending := w.pending.erase r
        forgotten := r :: w.forgotten
        queue := w.queue ++ [completion] }
    else none
  | .settle r ok =>
    if r ∈ w.forgotten then
      some { w with forgotten := w.forgotten.erase r, log := .finished r ok :: w.log }
    else none

end World

/-! ## The property -/

/-- A slot is published after every segment of the entry's extent was read into it, and freed after
all reads into it ended. -/
def Allowed (cfg : Config) (past : List Act) : Act → Prop
  | .promoted attempt entry slot =>
    ∀ segment ∈ cfg.segments entry, ∃ r, .finished r true ∈ past ∧ r.attempt = attempt ∧
      r.slot = slot ∧ r.segment = segment
  | .freed attempt =>
    ∀ r, .submitted r ∈ past → r.attempt = attempt → ∃ ok, .finished r ok ∈ past
  | _ => True

/-- The steps for which the design works: the worker sees a failure only when no other read of its
channel is outstanding, and the device gives up no read. -/
def Clean (w : World) : Event → Prop
  | .send false => w.pending = [] ∧ w.queue = []
  | .receive => ∀ c ∈ w.queue.head?, c.isOk = false → w.queue = [c] ∧ w.pending = []
  | .disconnected => w.pending = []
  | .forget _ _ => False
  | _ => True

instance (w : World) (e : Event) : Decidable (Clean w e) := by
  unfold Clean
  split <;> infer_instance

/-! ## The invariant -/

section Invariant

variable {cfg : Config} {w : World} {job : Job}

/-- A submitted read is with the device, was read, or failed and its failure is not yet received. -/
def Covered (w : World) (r : Read) : Prop :=
  r ∈ w.pending ∨ .finished r true ∈ w.log ∨
    (.finished r false ∈ w.log ∧ ∃ c ∈ w.queue, c.isOk = false)

/-- What is known while an entry is read: every read of the attempt was submitted for a segment and
is covered, and what is outstanding is exactly what is not counted yet. -/
structure Tracks (cfg : Config) (w : World) (job : Job) : Prop where
  segments_eq : job.segments = cfg.segments job.entry
  attempt_lt : job.attempt < w.nextAttempt
  count : w.pending.length + w.queue.length + job.completed = job.submitted
  submitted_le : job.submitted ≤ job.segments.length
  covered : ∀ tag segment, tag < job.submitted → job.segments[tag]? = some segment →
    Covered w (job.read tag segment)
  issued : ∀ r, .submitted r ∈ w.log → r.attempt = job.attempt →
    ∃ tag segment, tag < job.submitted ∧ job.segments[tag]? = some segment ∧ r = job.read tag segment

/-- What is known in each phase. -/
def PhaseSound (cfg : Config) (w : World) : Phase → Prop
  | .idle | .next _ => w.pending = [] ∧ w.queue = []
  | .sending job target => Tracks cfg w job ∧ job.submitted < target ∧ target ≤ job.segments.length
  | .waiting job => Tracks cfg w job
  | .settling job => Tracks cfg w job ∧ job.completed = job.segments.length

/-- What every clean step keeps. -/
structure Sound (cfg : Config) (w : World) : Prop where
  allowed : Throughout (Allowed cfg) w.log
  attempts : ∀ r, .submitted r ∈ w.log → r.attempt < w.nextAttempt
  phase : PhaseSound cfg w w.phase

theorem Covered.mono {w' : World} {r : Read} (h : Covered w r)
    (hpending : ∀ r ∈ w.pending, r ∈ w'.pending) (hlog : ∀ a ∈ w.log, a ∈ w'.log)
    (hqueue : ∀ c ∈ w.queue, c.isOk = false → c ∈ w'.queue) : Covered w' r := by
  rcases h with h | h | ⟨h, c, hc, hbad⟩
  · exact .inl (hpending r h)
  · exact .inr (.inl (hlog _ h))
  · exact .inr (.inr ⟨hlog _ h, c, hqueue c hc hbad, hbad⟩)

namespace Tracks

variable (h : Tracks cfg w job)
include h

/-- With nothing outstanding, every read of the attempt has ended. -/
theorem freed (hpending : w.pending = []) : Allowed cfg w.log (.freed job.attempt) := by
  intro r hr hattempt
  obtain ⟨tag, segment, htag, hsegment, rfl⟩ := h.issued r hr hattempt
  rcases h.covered tag segment htag hsegment with hmem | hok | ⟨hbad, -⟩
  · rw [hpending] at hmem
    exact nomatch hmem
  · exact ⟨true, hok⟩
  · exact ⟨false, hbad⟩

/-- When as many completions were counted as there are segments, nothing is outstanding. -/
theorem outstanding_nil (hdone : job.completed = job.segments.length) :
    w.pending = [] ∧ w.queue = [] ∧ job.submitted = job.segments.length := by
  have hcount := h.count
  have hle := h.submitted_le
  refine ⟨length_eq_zero_iff.mp ?_, length_eq_zero_iff.mp ?_, ?_⟩ <;> omega

/-- When as many completions were counted as there are segments, all segments were read. -/
theorem promoted (hdone : job.completed = job.segments.length) :
    Allowed cfg w.log (.promoted job.attempt job.entry job.slot) := by
  intro segment hmem
  rw [← h.segments_eq] at hmem
  obtain ⟨tag, hlt, hsegment⟩ := getElem_of_mem hmem
  obtain ⟨hpending, hqueue, hsubmitted⟩ := h.outstanding_nil hdone
  have hget : job.segments[tag]? = some segment := List.getElem?_eq_some_iff.mpr ⟨hlt, hsegment⟩
  rcases h.covered tag segment (by omega) hget with hin | hok | ⟨-, c, hc, -⟩
  · rw [hpending] at hin
    exact nomatch hin
  · exact ⟨job.read tag segment, hok, rfl, rfl, rfl⟩
  · rw [hqueue] at hc
    exact nomatch hc

theorem send {segment : IoSegment} (hsegment : job.segments[job.submitted]? = some segment) :
    Tracks cfg { w with
        pending := w.pending ++ [job.read job.submitted segment]
        log := .submitted (job.read job.submitted segment) :: w.log }
      { job with submitted := job.submitted + 1 } where
  segments_eq := h.segments_eq
  attempt_lt := h.attempt_lt
  count := by
    have := h.count
    simp only [length_append, length_singleton]
    omega
  submitted_le := (List.getElem?_eq_some_iff.mp hsegment).1
  covered := by
    intro tag segment' htag hget
    by_cases hlast : tag = job.submitted
    · subst hlast
      cases hsegment.symm.trans hget
      exact .inl (mem_append_right _ (mem_singleton.mpr rfl))
    · have hlt : tag < job.submitted := by
        simp only at htag
        omega
      exact (h.covered tag segment' hlt hget).mono (fun _ => mem_append_left _)
        (fun _ => mem_cons_of_mem _) fun _ hc _ => hc
  issued := by
    intro r hr hattempt
    rcases mem_cons.mp hr with hnew | hold
    · cases hnew
      exact ⟨job.submitted, segment, Nat.lt_succ_self _, hsegment, rfl⟩
    · obtain ⟨tag, segment', htag, hget, rfl⟩ := h.issued r hold hattempt
      exact ⟨tag, segment', Nat.lt_succ_of_lt htag, hget, rfl⟩

theorem receive {c : Completion} {queue : List Completion}
    (hqueue : w.queue = c :: queue) (hok : c.isOk) :
    Tracks cfg { w with queue } { job with completed := job.completed + 1 } where
  segments_eq := h.segments_eq
  attempt_lt := h.attempt_lt
  count := by
    have := h.count
    rw [hqueue, length_cons] at this
    simp only
    omega
  submitted_le := h.submitted_le
  covered := by
    intro tag segment htag hget
    refine (h.covered tag segment htag hget).mono (fun _ => id) (fun _ => id) fun c' hc' hbad => ?_
    rw [hqueue] at hc'
    rcases mem_cons.mp hc' with rfl | hc'
    · exact nomatch hbad.symm.trans hok
    · exact hc'
  issued := h.issued

theorem complete {r : Read} (hr : r ∈ w.pending) (error : Option String) : Tracks cfg { w with
        pending := w.pending.erase r
        queue := w.queue ++ [.readDone r.tag error]
        log := .finished r error.isNone :: w.log } job where
  segments_eq := h.segments_eq
  attempt_lt := h.attempt_lt
  count := by
    have hcount := h.count
    have hpos := length_pos_of_mem hr
    simp only [length_erase_of_mem hr, length_append, length_singleton]
    omega
  submitted_le := h.submitted_le
  covered := by
    intro tag segment htag hget
    by_cases hself : job.read tag segment = r
    · rw [hself]
      cases error with
      | none => exact .inr (.inl (mem_cons_self ..))
      | some e =>
        exact .inr (.inr ⟨mem_cons_self .., _, mem_append_right _ (mem_singleton.mpr rfl), rfl⟩)
    · rcases h.covered tag segment htag hget with hin | hok | ⟨hbad, c, hc, hcbad⟩
      · exact .inl ((mem_erase_of_ne hself).mpr hin)
      · exact .inr (.inl (mem_cons_of_mem _ hok))
      · exact .inr (.inr ⟨mem_cons_of_mem _ hbad, c, mem_append_left _ hc, hcbad⟩)
  issued := by
    intro r' hr' hattempt
    rcases mem_cons.mp hr' with hnew | hold
    · cases hnew
    · exact h.issued r' hold hattempt

theorem settle (r : Read) (ok : Bool) :
    Tracks cfg { w with forgotten := w.forgotten.erase r, log := .finished r ok :: w.log } job where
  segments_eq := h.segments_eq
  attempt_lt := h.attempt_lt
  count := h.count
  submitted_le := h.submitted_le
  covered := fun tag segment htag hget => (h.covered tag segment htag hget).mono (fun _ => id)
    (fun _ => mem_cons_of_mem _) fun _ hc _ => hc
  issued := by
    intro r' hr' hattempt
    rcases mem_cons.mp hr' with hnew | hold
    · cases hnew
    · exact h.issued r' hold hattempt

end Tracks

/-- A step of the device under whatever the worker does. -/
theorem PhaseSound.device {w' : World} {phase : Phase} (h : PhaseSound cfg w phase)
    (htracks : ∀ job, Tracks cfg w job → Tracks cfg w' job)
    (hquiet : w.pending = [] ∧ w.queue = [] → w'.pending = [] ∧ w'.queue = []) :
    PhaseSound cfg w' phase := by
  cases phase with
  | idle | next rest => exact hquiet h
  | sending job target | settling job => exact ⟨htracks job h.1, h.2⟩
  | waiting job => exact htracks job h

namespace Sound

section

variable (hallowed : Throughout (Allowed cfg) w.log)
  (hattempts : ∀ r, .submitted r ∈ w.log → r.attempt < w.nextAttempt)
include hallowed hattempts

/-- The slot is freed when nothing is outstanding. -/
theorem fail (hfreed : Allowed cfg w.log (.freed job.attempt)) (hpending : w.pending = [])
    (hqueue : w.queue = []) : Sound cfg (w.fail job) where
  allowed := ⟨hfreed, hallowed⟩
  attempts := fun r hr => (mem_cons.mp hr).elim (fun h => nomatch h) (hattempts r)
  phase := ⟨hpending, hqueue⟩

theorem await (htracks : Tracks cfg w job) : Sound cfg (w.await job) := by
  have hsame : Tracks cfg (w.await job) job := { htracks with }
  refine ⟨hallowed, hattempts, ?_⟩
  by_cases hlt : job.completed < job.segments.length
  · have hphase : (w.await job).phase = .waiting job := if_pos hlt
    rw [hphase]
    exact hsame
  · have hphase : (w.await job).phase = .settling job := if_neg hlt
    have hcount := htracks.count
    have hle := htracks.submitted_le
    rw [hphase]
    exact ⟨hsame, by omega⟩

end

variable (h : Sound cfg w)
include h

theorem insert {e : ColdEntry} {rest : List ColdEntry}
    (hphase : w.phase = .next (e :: rest)) (slot : Pointer) (wrapped : Bool) :
    Sound cfg (w.insert cfg e rest slot wrapped) := by
  obtain ⟨hpending, hqueue⟩ : w.pending = [] ∧ w.queue = [] := by
    have := h.phase
    rwa [hphase] at this
  have hattempts : ∀ r, .submitted r ∈ w.log → r.attempt < w.nextAttempt + 1 :=
    fun r hr => Nat.lt_succ_of_lt (h.attempts r hr)
  -- no read of the new attempt was submitted yet
  have hnew : ∀ r, .submitted r ∈ w.log → r.attempt ≠ w.nextAttempt :=
    fun r hr => Nat.ne_of_lt (h.attempts r hr)
  have htracks : ∀ phase, Tracks cfg { w with phase, nextAttempt := w.nextAttempt + 1 }
      ⟨e, w.nextAttempt, slot, cfg.segments e, 0, 0, rest⟩ := fun phase =>
    { segments_eq := rfl
      attempt_lt := Nat.lt_succ_self _
      count := by simp [hpending, hqueue]
      submitted_le := Nat.zero_le _
      covered := fun _ _ htag _ => nomatch htag
      issued := fun r hr hattempt => absurd hattempt (hnew r hr) }
  unfold World.insert
  dsimp only
  split
  · rename_i hnil
    exact ⟨h.allowed, hattempts, htracks _, by simp [hnil]⟩
  · rename_i hnil
    have hpos := length_pos_of_ne_nil hnil
    cases wrapped with
    | true =>
      refine ⟨h.allowed, hattempts, htracks _, ?_, ?_⟩
      · simp only
        omega
      · simp only
        omega
    | false => exact fail h.allowed hattempts ((htracks .idle).freed hpending) hpending hqueue

theorem send {target : ℕ} (hphase : w.phase = .sending job target) {ok : Bool}
    (hclean : Clean w (.send ok)) : Sound cfg (w.send job target ok) := by
  obtain ⟨htracks, hlt, hle⟩ : Tracks cfg w job ∧ job.submitted < target ∧
      target ≤ job.segments.length := by
    have := h.phase
    rwa [hphase] at this
  obtain ⟨segment, hget⟩ : ∃ segment, job.segments[job.submitted]? = some segment :=
    ⟨_, getElem?_eq_getElem (Nat.lt_of_lt_of_le hlt hle)⟩
  unfold World.send
  rw [hget]
  cases ok with
  | false =>
    exact fail h.allowed h.attempts (htracks.freed hclean.1) hclean.1 hclean.2
  | true =>
    have hsent := htracks.send hget
    have hattempts : ∀ r, .submitted r ∈ .submitted (job.read job.submitted segment) :: w.log →
        r.attempt < w.nextAttempt := by
      intro r hr
      rcases mem_cons.mp hr with hnew | hold
      · cases hnew
        exact htracks.attempt_lt
      · exact h.attempts r hold
    dsimp only
    rw [if_pos rfl]
    split
    · rename_i hmore
      exact ⟨⟨trivial, h.allowed⟩, hattempts, { hsent with }, hmore, hle⟩
    · exact await ⟨trivial, h.allowed⟩ hattempts hsent

theorem receive {c : Completion} {queue : List Completion}
    (hphase : w.phase = .waiting job) (hqueue : w.queue = c :: queue) (hclean : Clean w .receive) :
    Sound cfg (w.receive job c queue) := by
  have htracks : Tracks cfg w job := by
    have := h.phase
    rwa [hphase] at this
  unfold World.receive
  dsimp only
  cases hok : c.isOk with
  | true =>
    have hrecv := htracks.receive hqueue hok
    rw [if_pos rfl]
    split
    · rename_i hmore
      exact ⟨h.allowed, h.attempts, { hrecv with }, Nat.lt_succ_self _, hmore⟩
    · exact await h.allowed h.attempts hrecv
  | false =>
    have hlast : w.queue = [c] ∧ w.pending = [] := hclean c (by rw [hqueue]; rfl) hok
    have hnil : queue = [] := (List.cons.inj (hqueue.symm.trans hlast.1)).2
    exact fail h.allowed h.attempts (htracks.freed hlast.2) hlast.2 hnil

theorem promote (hphase : w.phase = .settling job) (ok : Bool) : Sound cfg (w.promote job ok) := by
  obtain ⟨htracks, hdone⟩ : Tracks cfg w job ∧ job.completed = job.segments.length := by
    have := h.phase
    rwa [hphase] at this
  obtain ⟨hpending, hqueue, -⟩ := htracks.outstanding_nil hdone
  cases ok with
  | true =>
    exact ⟨⟨htracks.promoted hdone, h.allowed⟩,
      fun r hr => (mem_cons.mp hr).elim (fun h => nomatch h) (h.attempts r),
      hpending, hqueue⟩
  | false => exact fail h.allowed h.attempts (htracks.freed hpending) hpending hqueue

/-- **The step lemma.** -/
theorem step {e : Event} {w' : World} (hclean : Clean w e)
    (hstep : w.step cfg e = some w') : Sound cfg w' := by
  have hphase := h.phase
  unfold World.step at hstep
  cases e with
  | checkout found =>
    dsimp only at hstep
    split at hstep
    · rename_i hidle
      cases hstep
      rw [hidle] at hphase
      exact ⟨h.allowed, h.attempts, hphase.1, rfl⟩
    · exact nomatch hstep
  | leave | skip =>
    dsimp only at hstep
    split at hstep
    · rename_i hnext
      cases hstep
      rw [hnext] at hphase
      exact ⟨h.allowed, h.attempts, hphase⟩
    · exact nomatch hstep
  | insert slot wrapped =>
    dsimp only at hstep
    split at hstep
    · rename_i hnext
      cases hstep
      exact h.insert hnext slot wrapped
    · exact nomatch hstep
  | send ok =>
    dsimp only at hstep
    split at hstep
    · rename_i hsending
      cases hstep
      exact h.send hsending hclean
    · exact nomatch hstep
  | receive =>
    dsimp only at hstep
    split at hstep
    · rename_i hwaiting hqueue
      cases hstep
      exact h.receive hwaiting hqueue hclean
    · exact nomatch hstep
  | disconnected =>
    dsimp only at hstep
    split at hstep
    · rename_i hwaiting hqueue
      cases hstep
      rw [hwaiting] at hphase
      exact fail h.allowed h.attempts (hphase.freed hclean) hclean hqueue
    · exact nomatch hstep
  | promote ok =>
    dsimp only at hstep
    split at hstep
    · rename_i hsettling
      cases hstep
      exact h.promote hsettling ok
    · exact nomatch hstep
  | complete r error =>
    dsimp only at hstep
    split_ifs at hstep with hr
    cases hstep
    refine ⟨⟨trivial, h.allowed⟩, fun r' hr' => (mem_cons.mp hr').elim (fun h => nomatch h)
      (h.attempts r'), hphase.device (fun job hjob => hjob.complete hr error) fun hquiet => ?_⟩
    rw [hquiet.1] at hr
    exact nomatch hr
  | forget r completion => exact hclean.elim
  | settle r ok =>
    dsimp only at hstep
    split_ifs at hstep with hr
    cases hstep
    exact ⟨⟨trivial, h.allowed⟩, fun r' hr' => (mem_cons.mp hr').elim (fun h => nomatch h)
      (h.attempts r'), hphase.device (fun job hjob => hjob.settle r ok) id⟩

end Sound

end Invariant

namespace World

/-- **Prefetch publishes only fully read slots.** If the worker sees failures only when no other read
of its channel is outstanding and the device gives up no read, then every slot that is published was
filled from all segments of the entry's extent, and every slot that is freed has no read left. -/
theorem prefetched (cfg : Config) (events : List Event) (w : World)
    (hrun : Run (step cfg) Clean connected events w) : Throughout (Allowed cfg) w.log := by
  have hsound : Sound cfg w := by
    refine hrun.invariant ?_ fun _ _ _ h hclean hstep => h.step hclean hstep
    exact ⟨trivial, fun _ hr => (nomatch hr), rfl, rfl⟩
  exact hsound.allowed

/-- Blocks and reads of 4 KiB. -/
def sampleConfig : Config := ⟨0, 4096, 4096, by decide, by decide⟩

/-- Two keys on the drive, two blocks each. -/
def twoKeys : List (CacheKey × LookupResult × Option UInt32) :=
  [(1, .blockDevice 0, some 8192), (2, .blockDevice 8192, some 8192)]

/-- A read of a sample run. -/
def sampleRead (attempt tag : ℕ) : Read :=
  ⟨attempt, 8192 * attempt, tag, ⟨4096 * tag, 2 * attempt + tag, 4096⟩⟩

theorem prefetched_twoKeys : ∃ w, Run (step sampleConfig) Clean connected
    [.checkout twoKeys, .insert 0 true, .send true, .send true, .complete (sampleRead 0 1) none,
      .complete (sampleRead 0 0) none, .receive, .receive, .promote true, .insert 8192 true,
      .send true, .send true, .complete (sampleRead 1 0) none, .receive,
      .complete (sampleRead 1 1) (some "media error"), .receive, .leave] w ∧
    .promoted 0 ⟨1, 0, 8192⟩ 0 ∈ w.log ∧ .freed 1 ∈ w.log ∧
    Throughout (Allowed sampleConfig) w.log := by
  refine exists_run_and_of_checkedExec (fun w => decide (.promoted 0 ⟨1, 0, 8192⟩ 0 ∈ w.log ∧
    .freed 1 ∈ w.log)) (by decide +kernel) fun hrun hlog => ?_
  have hacts := of_decide_eq_true hlog
  exact ⟨hacts.1, hacts.2, prefetched sampleConfig _ _ hrun⟩

/-- **A late completion is counted for the next key.** The first read of key 1 fails while the second
is outstanding: the slot is freed under it. Its completion is then counted as one of key 2, whose
slot is published with one of two segments read. -/
theorem published_unread : ∃ events w, Run (step sampleConfig) anyStep connected events w ∧
    (∃ past, .freed 0 :: past <:+ w.log ∧ ¬ Allowed sampleConfig past (.freed 0)) ∧
    ∃ past, .promoted 1 ⟨2, 8192, 8192⟩ 8192 :: past <:+ w.log ∧
      ¬ Allowed sampleConfig past (.promoted 1 ⟨2, 8192, 8192⟩ 8192) := by
  obtain ⟨w, hrun, hlog⟩ := exists_run_of_exec (show (exec (step sampleConfig) connected
    [.checkout twoKeys, .insert 0 true, .send true, .send true,
      .complete (sampleRead 0 0) (some "media error"), .receive, .insert 8192 true, .send true,
      .send true, .complete (sampleRead 0 1) none, .complete (sampleRead 1 0) none, .receive,
      .receive, .promote true]).any (fun w => decide (w.log =
        [.promoted 1 ⟨2, 8192, 8192⟩ 8192, .finished (sampleRead 1 0) true,
          .finished (sampleRead 0 1) true, .submitted (sampleRead 1 1), .submitted (sampleRead 1 0),
          .freed 0, .finished (sampleRead 0 0) false, .submitted (sampleRead 0 1),
          .submitted (sampleRead 0 0)])) by decide +kernel)
  have hacts := of_decide_eq_true hlog
  refine ⟨_, w, hrun, ⟨[.finished (sampleRead 0 0) false, .submitted (sampleRead 0 1),
    .submitted (sampleRead 0 0)], by rw [hacts]; decide, fun h => ?_⟩,
    ⟨_, ⟨[], hacts.symm⟩, fun h => ?_⟩⟩
  · obtain ⟨ok, hok⟩ := h (sampleRead 0 1) (by decide) rfl
    revert hok
    cases ok <;> decide
  · obtain ⟨r, hr, hattempt, -, hsegment⟩ := h ⟨4096, 3, 4096⟩ (by decide)
    simp only [mem_cons, Act.finished.injEq, and_true, reduceCtorEq, or_false,
      Bool.true_eq_false, and_false, not_mem_nil] at hr
    rcases hr with rfl | rfl
    · exact absurd hsegment (by decide)
    · exact absurd hattempt (by decide)

end World

end Certus.Dispatcher.Prefetch
