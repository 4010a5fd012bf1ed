import Certus.Lib.History
import Certus.Lib.MessageCell
import Certus.Lib.Run

/-! # A channel of the shared-memory mailbox

`shm-queue`: a channel has a request cell and a response cell, each for one message, and a request is
matched with its reply by a sequence number. Every store and load of a word and every copy of a payload
is one step. The poller takes requests, workers answer them in any order, and clients own the channel
one after the other.

* **`World`**, **`World.step`** — the two cells, the client, the poller and the workers.
* **`World.replies_match`** — then every request that returns gets its own reply, every request is
  taken exactly once, and what is dispatched is what was sent. -/

namespace Certus.ShmQueue

open List

/-- The sizes of the buffers. -/
structure Layout where
  capReq : UInt32
  capResp : UInt32

/-- The next sequence number; 0 is never used. -/
def nextSeq (seq : UInt32) : UInt32 := if seq + 1 = 0 then 1 else seq + 1

theorem nextSeq_ne (seq : UInt32) : nextSeq seq ≠ seq := by
  unfold nextSeq
  split_ifs with h
  · rintro rfl
    exact absurd h (by decide)
  · intro heq
    exact absurd (UInt32.add_eq_left.mp heq) (by decide)

/-! ## The parties -/

/-- The owner of the channel: nobody, a claimer that waits for the last request of the previous owner
(and has loaded its number), or a client between requests, storing a request, waiting for its reply
or loading it. -/
inductive Client where
  | unclaimed
  | adopting (req : Option UInt32)
  | idle (seq : UInt32)
  | publishing (id : ℕ) (seq : UInt32) (m : Message) (stage : WriteStage)
  | waiting (id : ℕ) (seq : UInt32)
  | reading (id : ℕ) (seq : UInt32) (stage : ReadStage)
  deriving DecidableEq

/-- A request being copied by the poller. -/
structure Polled where
  id : ℕ
  seq : UInt32
  stage : ReadStage
  deriving DecidableEq

/-- A request taken by the server; its worker has an answer and stores it, or none yet. -/
structure Job where
  id : ℕ
  seq : UInt32
  request : Message
  answer : Option (Message × WriteStage)
  deriving DecidableEq

/-- What happened: a request was published, dispatched with what the poller copied, answered, and
returned to the client. -/
inductive Act where
  | published (id : ℕ) (m : Message)
  | dispatched (id : ℕ) (m : Message)
  | produced (id : ℕ) (m : Message)
  | returned (id : ℕ) (m : Message)
  deriving DecidableEq

/-- The request an act is about. -/
def Act.id : Act → ℕ
  | .published id _ | .dispatched id _ | .produced id _ | .returned id _ => id

/-- The channel with its parties. `current` is the request whose number is in the request cell. -/
structure World where
  req : MessageCell
  resp : MessageCell
  client : Client
  poller : Option Polled
  lastSeen : UInt32
  jobs : List Job
  next : ℕ
  current : ℕ
  log : List Act
  deriving DecidableEq

/-- One step of a party. -/
inductive Event where
  | claim
  | adopt
  | abandon
  | begin (m : Message)
  | store
  | check
  | giveUp
  | load
  | release
  | die
  | poll
  | answer (i : ℕ) (m : Message)
  | reply (i : ℕ)
  deriving DecidableEq

namespace World

/-- A channel as the server creates it. -/
def fresh (layout : Layout) : World :=
  ⟨.empty layout.capReq, .empty layout.capResp, .unclaimed, none, 0, [], 1, 0, []⟩

/-- A load of `adopt_seq`: the number of the last request, then that of the last reply. -/
def adopt (w : World) : Option UInt32 → World
  | none => { w with client := .adopting (some w.req.seq) }
  | some req =>
    if req = w.resp.seq then { w with client := .idle req }
    else { w with client := .adopting none }

/-- A store of a request; the sequence number is the last. -/
def storeRequest (w : World) (id : ℕ) (seq : UInt32) (m : Message) (stage : WriteStage) : World :=
  let w := { w with req := w.req.store m seq stage }
  match stage.next with
  | some stage => { w with client := .publishing id seq m stage }
  | none =>
    { w with client := .waiting id seq, current := id, log := .published id m :: w.log }

/-- A load of a reply. -/
def loadResponse (layout : Layout) (w : World) (id : ℕ) (seq : UInt32) (stage : ReadStage) : World :=
  match w.resp.load layout.capResp stage with
  | .inl stage => { w with client := .reading id seq stage }
  | .inr m => { w with client := .idle seq, log := .returned id m :: w.log }

/-- A load of `take_request`. -/
def poll (layout : Layout) (w : World) : World :=
  match w.poller with
  | none =>
    if w.req.seq = w.lastSeen then w
    else { w with lastSeen := w.req.seq, poller := some ⟨w.current, w.req.seq, .word⟩ }
  | some p =>
    match w.req.load layout.capReq p.stage with
    | .inl stage => { w with poller := some { p with stage } }
    | .inr m =>
      { w with
        poller := none
        jobs := w.jobs ++ [⟨p.id, p.seq, m, none⟩]
        log := .dispatched p.id m :: w.log }

/-- A worker has the answer to a request; a reply is cut to the size of the buffer. -/
def answer (layout : Layout) (w : World) (i : ℕ) (job : Job) (m : Message) : World :=
  let stored : Message := { m with data := m.data.take layout.capResp.toNat }
  { w with
    jobs := w.jobs.set i { job with answer := some (stored, .payload) }
    log := .produced job.id m :: w.log }

/-- A store of a reply. -/
def reply (w : World) (i : ℕ) (job : Job) (m : Message) (stage : WriteStage) : World :=
  let w := { w with resp := w.resp.store m job.seq stage }
  match stage.next with
  | some stage => { w with jobs := w.jobs.set i { job with answer := some (m, stage) } }
  | none => { w with jobs := w.jobs.eraseIdx i }

def step (layout : Layout) (w : World) : Event → Option World
  | .claim =>
    match w.client with
    | .unclaimed => some { w with client := .adopting none }
    | _ => none
  | .adopt =>
    match w.client with
    | .adopting req => some (w.adopt req)
    | _ => none
  | .abandon =>
    match w.client with
    | .adopting _ => some { w with client := .unclaimed }
    | _ => none
  | .begin m =>
    match w.client with
    | .idle seq =>
      if m.data.length ≤ layout.capReq.toNat then
        some { w with client := .publishing w.next (nextSeq seq) m .payload, next := w.next + 1 }
      else none
    | _ => none
  | .store =>
    match w.client with
    | .publishing id seq m stage => some (w.storeRequest id seq m stage)
    | _ => none
  | .check =>
    match w.client with
    | .waiting id seq =>
      some (if w.resp.seq = seq then { w with client := .reading id seq .word } else w)
    | _ => none
  | .giveUp =>
    match w.client with
    | .waiting _ seq => some { w with client := .idle seq }
    | _ => none
  | .load =>
    match w.client with
    | .reading id seq stage => some (w.loadResponse layout id seq stage)
    | _ => none
  | .release =>
    match w.client with
    | .idle _ => some { w with client := .unclaimed }
    | _ => none
  | .die => some { w with client := .unclaimed }
  | .poll => some (w.poll layout)
  | .answer i m =>
    match w.jobs[i]? with
    | some job => if job.answer = none then some (w.answer layout i job m) else none
    | none => none
  | .reply i =>
    match w.jobs[i]? with
    | some job =>
      match job.answer with
      | some (m, stage) => some (w.reply i job m stage)
      | none => none
    | none => none

end World

/-! ## The property -/

/-- A request returns its own answer, what is dispatched was sent and is dispatched once, and no
request is published over one that was not taken. -/
def Allowed (past : List Act) : Act → Prop
  | .published _ _ => ∀ id m, .published id m ∈ past → ∃ m', .dispatched id m' ∈ past
  | .dispatched id m => .published id m ∈ past ∧ ∀ m', .dispatched id m' ∉ past
  | .produced _ _ => True
  | .returned id m => .produced id m ∈ past

/-- A request that was published and not dispatched is one that the poller takes next, or is
taking. -/
def Taken (w : World) : Prop :=
  w.poller = none → w.req.seq = w.lastSeen →
    ∀ id m, .published id m ∈ w.log → ∃ m', .dispatched id m' ∈ w.log

/-- A client starts a request when the last one of the channel is answered, and answers fit the
buffer. -/
def Answered (layout : Layout) (w : World) : Event → Prop
  | .begin _ => w.resp.seq = w.req.seq
  | .answer _ m => m.data.length ≤ layout.capResp.toNat
  | _ => True

instance (layout : Layout) (w : World) (e : Event) : Decidable (Answered layout w e) := by
  unfold Answered
  split <;> infer_instance

/-! ## The invariant -/

section Invariant

variable {layout : Layout} {w : World} {m : Message}

/-- The last request is answered: the server does nothing on the channel, and the response cell holds
the answer. -/
structure Quiet (layout : Layout) (w : World) : Prop where
  poller : w.poller = none
  jobs : w.jobs = []
  seen : w.lastSeen = w.req.seq
  answered : w.resp.seq = w.req.seq
  dispatched : ∀ id m, .published id m ∈ w.log → ∃ m', .dispatched id m' ∈ w.log
  reply : w.current ≠ 0 → ∃ a, .produced w.current a ∈ w.log ∧ w.resp.Holds a ∧
    a.data.length ≤ layout.capResp.toNat

/-- The request cell holds the one request that is not answered. -/
structure Busy (layout : Layout) (w : World) (m : Message) : Prop where
  holds : w.req.Holds m
  fits : m.data.length ≤ layout.capReq.toNat
  published : .published w.current m ∈ w.log
  others : ∀ id m', .published id m' ∈ w.log → id = w.current ∨ ∃ m'', .dispatched id m'' ∈ w.log
  unanswered : w.resp.seq ≠ w.req.seq

/-- Where the server is with the last request: it is answered, not seen yet, being copied, or with a
worker. -/
inductive ServerOk (layout : Layout) (w : World) : Prop
  | quiet (h : Quiet layout w)
  | unseen (m : Message) (busy : Busy layout w m) (poller : w.poller = none) (jobs : w.jobs = [])
      (seen : w.lastSeen ≠ w.req.seq) (new : ∀ m', .dispatched w.current m' ∉ w.log)
  | copying (m : Message) (stage : ReadStage) (busy : Busy layout w m)
      (poller : w.poller = some ⟨w.current, w.req.seq, stage⟩)
      (reading : MessageCell.Reading m stage) (jobs : w.jobs = []) (seen : w.lastSeen = w.req.seq)
      (new : ∀ m', .dispatched w.current m' ∉ w.log)
  | serving (m : Message) (answer : Option (Message × WriteStage)) (busy : Busy layout w m)
      (poller : w.poller = none) (jobs : w.jobs = [⟨w.current, w.req.seq, m, answer⟩])
      (seen : w.lastSeen = w.req.seq) (dispatched : .dispatched w.current m ∈ w.log)
      (stored : ∀ a stage, answer = some (a, stage) → .produced w.current a ∈ w.log ∧
        w.resp.Written a stage ∧ a.data.length ≤ layout.capResp.toNat)

/-- What the client knows. It stores a request only while the server is quiet, and so it does when it
loads a reply. -/
def ClientOk (layout : Layout) (w : World) : Client → Prop
  | .unclaimed | .adopting none => True
  | .adopting (some seq) | .idle seq => seq = w.req.seq
  | .publishing id seq m stage =>
    Quiet layout w ∧ seq = nextSeq w.req.seq ∧ w.req.Written m stage ∧
      m.data.length ≤ layout.capReq.toNat ∧ 0 < id ∧ id < w.next ∧ ∀ a ∈ w.log, a.id < id
  | .waiting id seq => id = w.current ∧ 0 < id ∧ seq = w.req.seq
  | .reading id seq stage =>
    Quiet layout w ∧ seq = w.req.seq ∧ ∃ a, .produced id a ∈ w.log ∧ w.resp.Holds a ∧
      a.data.length ≤ layout.capResp.toNat ∧ MessageCell.Reading a stage

/-- What every step keeps. -/
structure Sound (layout : Layout) (w : World) : Prop where
  allowed : Throughout Allowed w.log
  ids : ∀ a ∈ w.log, a.id < w.next
  next_pos : 0 < w.next
  server : ServerOk layout w
  client : ClientOk layout w w.client

section Client

variable {turn : Client} {next : ℕ} {log : List Act} (hmono : ∀ a ∈ w.log, a ∈ log)
  (hpublished : ∀ id m, .published id m ∈ log → .published id m ∈ w.log)

include hmono hpublished

/-- The server does not see what the client does between its stores. -/
theorem Quiet.client (h : Quiet layout w) : Quiet layout { w with client := turn, next, log } where
  poller := h.poller
  jobs := h.jobs
  seen := h.seen
  answered := h.answered
  dispatched := fun id m hp => (h.dispatched id m (hpublished id m hp)).imp fun _ => hmono _
  reply := fun hcurrent => (h.reply hcurrent).imp fun _ ha => ⟨hmono _ ha.1, ha.2⟩

theorem Busy.client (h : Busy layout w m) : Busy layout { w with client := turn, next, log } m where
  holds := h.holds
  fits := h.fits
  published := hmono _ h.published
  others := fun id m' hp =>
    (h.others id m' (hpublished id m' hp)).imp_right fun hd => hd.imp fun _ => hmono _
  unanswered := h.unanswered

theorem ServerOk.client (h : ServerOk layout w)
    (hdispatched : ∀ id m, .dispatched id m ∈ log → .dispatched id m ∈ w.log) :
    ServerOk layout { w with client := turn, next, log } := by
  cases h with
  | quiet h => exact .quiet (h.client hmono hpublished)
  | unseen m busy poller jobs seen new =>
    exact .unseen m (busy.client hmono hpublished) poller jobs seen
      fun m' hd => new m' (hdispatched _ m' hd)
  | copying m stage busy poller reading jobs seen new =>
    exact .copying m stage (busy.client hmono hpublished) poller reading jobs seen
      fun m' hd => new m' (hdispatched _ m' hd)
  | serving m answer busy poller jobs seen dispatched stored =>
    exact .serving m answer (busy.client hmono hpublished) poller jobs seen
      (hmono _ dispatched) fun a stage ha => ⟨hmono _ (stored a stage ha).1, (stored a stage ha).2⟩

end Client

theorem Sound.turn (h : Sound layout w) {client : Client} (hclient : ClientOk layout { w with client } client) :
    Sound layout { w with client } :=
  ⟨h.allowed, h.ids, h.next_pos,
    h.server.client (fun _ => id) (fun _ _ => id) (fun _ _ => id), hclient⟩

/-- When the last request is answered, the server is quiet. -/
theorem ServerOk.quiet_of_answered (h : ServerOk layout w) (hanswered : w.resp.seq = w.req.seq) :
    Quiet layout w := by
  cases h with
  | quiet hq => exact hq
  | unseen _ busy | copying _ _ busy | serving _ _ busy => exact absurd hanswered busy.unanswered

/-- While a request is not answered, a client that is neither storing nor loading knows only the
sequence number and the request. -/
theorem ClientOk.server {w' : World} {client : Client} (h : ClientOk layout w client)
    (hunanswered : w.resp.seq ≠ w.req.seq) (hreq : w'.req = w.req) (hcurrent : w'.current = w.current) :
    ClientOk layout w' client := by
  cases client with
  | unclaimed => trivial
  | adopting req =>
    cases req with
    | none => trivial
    | some seq => exact h.trans (congrArg MessageCell.seq hreq.symm)
  | idle seq => exact h.trans (congrArg MessageCell.seq hreq.symm)
  | publishing id seq m stage | reading id seq stage => exact absurd h.1.answered hunanswered
  | waiting id seq =>
    exact ⟨h.1.trans hcurrent.symm, h.2.1, h.2.2.trans (congrArg MessageCell.seq hreq.symm)⟩

end Invariant

/-! ## Steps of the client -/

section Client

variable {layout : Layout} {w : World}

variable (h : Sound layout w)
include h

theorem Sound.adopt {req : Option UInt32} (hclient : w.client = .adopting req) :
    Sound layout (w.adopt req) := by
  have hok := h.client
  rw [hclient] at hok
  cases req with
  | none => exact h.turn rfl
  | some seq =>
    unfold World.adopt
    dsimp only
    split_ifs
    · exact h.turn hok
    · exact h.turn trivial

theorem Sound.begin {seq : UInt32} {m : Message}
    (hclient : w.client = .idle seq) (hfits : m.data.length ≤ layout.capReq.toNat)
    (hanswered : w.resp.seq = w.req.seq) :
    Sound layout { w with
      client := .publishing w.next (nextSeq seq) m .payload
      next := w.next + 1 } := by
  have hseq : seq = w.req.seq := by
    have := h.client
    rwa [hclient] at this
  refine ⟨h.allowed, fun a ha => Nat.lt_succ_of_lt (h.ids a ha), Nat.succ_pos _,
    h.server.client (fun _ => id) (fun _ _ => id) (fun _ _ => id), ?_⟩
  have hquiet := h.server.quiet_of_answered hanswered
  exact ⟨hquiet.client (fun _ => id) (fun _ _ => id), congrArg nextSeq hseq, trivial, hfits,
    h.next_pos, Nat.lt_succ_self _, h.ids⟩

variable {id : ℕ} {seq : UInt32}

theorem Sound.store {m : Message} {stage : WriteStage}
    (hclient : w.client = .publishing id seq m stage) :
    Sound layout (w.storeRequest id seq m stage) := by
  obtain ⟨hquiet, hseq, hwritten, hfits, hpos, hlt, hids⟩ :
      ClientOk layout w (.publishing id seq m stage) := by
    have := h.client
    rwa [hclient] at this
  unfold World.storeRequest
  dsimp only
  cases hnext : stage.next with
  | some stage' =>
    dsimp only
    -- the sequence number is not touched, and nobody looks at the rest
    have hsame : (w.req.store m seq stage).seq = w.req.seq := MessageCell.seq_store hnext seq
    have hquiet' : Quiet layout { w with
        req := w.req.store m seq stage, client := .publishing id seq m stage' } :=
      ⟨hquiet.poller, hquiet.jobs, hquiet.seen.trans hsame.symm, hquiet.answered.trans hsame.symm,
        hquiet.dispatched, hquiet.reply⟩
    exact ⟨h.allowed, h.ids, h.next_pos, .quiet hquiet',
      hquiet', hseq.trans (congrArg nextSeq hsame.symm), hwritten.store hnext seq, hfits, hpos, hlt,
      hids⟩
  | none =>
    dsimp only
    obtain ⟨hholds, hnumber⟩ := hwritten.holds hnext seq
    have hfresh : ∀ a ∈ w.log, a.id ≠ id := fun a ha => Nat.ne_of_lt (hids a ha)
    have hnew : seq ≠ w.req.seq := by
      rw [hseq]
      exact nextSeq_ne _
    refine ⟨⟨hquiet.dispatched, h.allowed⟩, ?_, h.next_pos, .unseen m
      ⟨hholds, hfits, mem_cons_self .., ?_, ?_⟩ hquiet.poller hquiet.jobs ?_ ?_, rfl, hpos,
      hnumber.symm⟩
    · intro a ha
      rcases mem_cons.mp ha with rfl | ha
      · exact hlt
      · exact h.ids a ha
    · intro id' m' hp
      rcases mem_cons.mp hp with heq | hp
      · cases heq
        exact .inl rfl
      · exact .inr ((hquiet.dispatched id' m' hp).imp fun _ => mem_cons_of_mem _)
    · intro heq
      refine hnew ?_
      rw [← hnumber, ← hquiet.answered]
      exact heq.symm
    · intro heq
      refine hnew ?_
      rw [← hnumber, ← hquiet.seen]
      exact heq.symm
    · intro m' hd
      rcases mem_cons.mp hd with heq | hd
      · cases heq
      · exact hfresh _ hd rfl

theorem Sound.check (hclient : w.client = .waiting id seq)
    (hanswered : w.resp.seq = seq) : Sound layout { w with client := .reading id seq .word } := by
  obtain ⟨hid, hpos, hseq⟩ : ClientOk layout w (.waiting id seq) := by
    have := h.client
    rwa [hclient] at this
  have hquiet := h.server.quiet_of_answered (hanswered.trans hseq)
  obtain ⟨a, hproduced, hholds, hfits⟩ := hquiet.reply (by omega)
  refine h.turn ⟨hquiet.client (fun _ ha => ha) (fun _ _ hp => hp), hseq, a, ?_, hholds, hfits,
    trivial⟩
  rw [hid]
  exact hproduced

theorem Sound.load {stage : ReadStage} (hclient : w.client = .reading id seq stage) :
    Sound layout (w.loadResponse layout id seq stage) := by
  obtain ⟨hquiet, hseq, a, hproduced, hholds, hfits, hreading⟩ :
      ClientOk layout w (.reading id seq stage) := by
    have := h.client
    rwa [hclient] at this
  unfold World.loadResponse
  rcases hreading.load hholds hfits with ⟨stage', hload, hreading'⟩ | hload
  · rw [hload]
    exact h.turn ⟨hquiet.client (fun _ ha => ha) (fun _ _ hp => hp), hseq, a, hproduced, hholds, hfits,
      hreading'⟩
  · rw [hload]
    have hmem : ∀ b ∈ w.log, b ∈ Act.returned id a :: w.log := fun _ => mem_cons_of_mem _
    refine ⟨⟨hproduced, h.allowed⟩, ?_, h.next_pos, h.server.client hmem ?_ ?_, hseq⟩
    · intro b hb
      rcases mem_cons.mp hb with rfl | hb
      · exact h.ids (.produced id a) hproduced
      · exact h.ids b hb
    · intro id' m' hp
      rcases mem_cons.mp hp with heq | hp
      · cases heq
      · exact hp
    · intro id' m' hd
      rcases mem_cons.mp hd with heq | hd
      · cases heq
      · exact hd

end Client

/-! ## Steps of the server -/

section Server

variable {layout : Layout} {w : World}

section

variable (h : Sound layout w) {m : Message} (busy : Busy layout w m) (jobs : w.jobs = [])
include h busy jobs

theorem Sound.see (new : ∀ m', .dispatched w.current m' ∉ w.log) :
    Sound layout { w with
      lastSeen := w.req.seq
      poller := some ⟨w.current, w.req.seq, .word⟩ } :=
  ⟨h.allowed, h.ids, h.next_pos, .copying m .word { busy with } rfl trivial jobs rfl new,
    h.client.server busy.unanswered rfl rfl⟩

theorem Sound.dispatch (seen : w.lastSeen = w.req.seq)
    (new : ∀ m', .dispatched w.current m' ∉ w.log) :
    Sound layout { w with
      poller := none
      jobs := w.jobs ++ [⟨w.current, w.req.seq, m, none⟩]
      log := .dispatched w.current m :: w.log } where
  allowed := ⟨⟨busy.published, new⟩, h.allowed⟩
  ids := by
    intro a ha
    rcases mem_cons.mp ha with rfl | ha
    · exact h.ids (.published w.current m) busy.published
    · exact h.ids a ha
  next_pos := h.next_pos
  server := by
    refine .serving m none ⟨busy.holds, busy.fits, mem_cons_of_mem _ busy.published, ?_,
      busy.unanswered⟩ rfl (by rw [jobs]; rfl) seen (mem_cons_self ..) fun a stage ha => nomatch ha
    intro id m' hp
    rcases mem_cons.mp hp with heq | hp
    · cases heq
    · exact (busy.others id m' hp).imp_right fun hd => hd.imp fun _ => mem_cons_of_mem _
  client := h.client.server busy.unanswered rfl rfl

end

theorem Sound.poll (h : Sound layout w) : Sound layout (w.poll layout) := by
  unfold World.poll
  cases h.server with
  | quiet hq =>
    rw [hq.poller]
    dsimp only
    rw [if_pos hq.seen.symm]
    exact h
  | unseen m busy poller jobs seen new =>
    rw [poller]
    dsimp only
    rw [if_neg fun heq => seen heq.symm]
    exact h.see busy jobs new
  | copying m stage busy poller reading jobs seen new =>
    rw [poller]
    dsimp only
    rcases reading.load busy.holds busy.fits with ⟨stage', hload, hreading⟩ | hload
    · rw [hload]
      exact ⟨h.allowed, h.ids, h.next_pos, .copying m stage' { busy with } rfl hreading jobs seen new,
        h.client.server busy.unanswered rfl rfl⟩
    · rw [hload]
      exact h.dispatch busy jobs seen new
  | serving m answer busy poller jobs seen dispatched stored =>
    rw [poller]
    dsimp only
    rw [if_pos seen.symm]
    exact h

/-- The only request with a worker is the one that is not answered. -/
theorem ServerOk.job (h : ServerOk layout w) {i : ℕ} {job : Job} (hjob : w.jobs[i]? = some job) :
    ∃ m answer, Busy layout w m ∧ w.poller = none ∧ w.jobs = [job] ∧ i = 0 ∧
      job = ⟨w.current, w.req.seq, m, answer⟩ ∧ w.lastSeen = w.req.seq ∧
      .dispatched w.current m ∈ w.log ∧ ∀ a stage, answer = some (a, stage) →
        .produced w.current a ∈ w.log ∧ w.resp.Written a stage ∧
          a.data.length ≤ layout.capResp.toNat := by
  cases h with
  | quiet hq => rw [hq.jobs] at hjob; exact nomatch hjob
  | unseen _ _ _ jobs | copying _ _ _ _ _ jobs => rw [jobs] at hjob; exact nomatch hjob
  | serving m answer busy poller jobs seen dispatched stored =>
    rw [jobs] at hjob
    cases i with
    | succ i => exact nomatch hjob
    | zero =>
      cases hjob
      exact ⟨m, answer, busy, poller, jobs, rfl, rfl, seen, dispatched, stored⟩

variable (h : Sound layout w) {i : ℕ} {job : Job} {a : Message}
include h

theorem Sound.answer (hjob : w.jobs[i]? = some job) (hfits : a.data.length ≤ layout.capResp.toNat) :
    Sound layout (w.answer layout i job a) := by
  obtain ⟨m, answer, busy, poller, jobs, rfl, rfl, seen, dispatched, -⟩ := h.server.job hjob
  have hwhole : ({ a with data := a.data.take layout.capResp.toNat } : Message) = a := by
    rw [take_of_length_le hfits]
  unfold World.answer
  dsimp only
  rw [hwhole, jobs]
  refine ⟨⟨trivial, h.allowed⟩, ?_, h.next_pos, .serving m (some (a, .payload)) ⟨busy.holds, busy.fits,
    mem_cons_of_mem _ busy.published, ?_, busy.unanswered⟩ poller rfl seen
    (mem_cons_of_mem _ dispatched) ?_, h.client.server busy.unanswered rfl rfl⟩
  · intro b hb
    rcases mem_cons.mp hb with rfl | hb
    · exact h.ids (.published w.current m) busy.published
    · exact h.ids b hb
  · intro id m' hp
    rcases mem_cons.mp hp with heq | hp
    · cases heq
    · exact (busy.others id m' hp).imp_right fun hd => hd.imp fun _ => mem_cons_of_mem _
  · intro b stage hb
    cases hb
    exact ⟨mem_cons_self .., trivial, hfits⟩

theorem Sound.reply {stage : WriteStage}
    (hjob : w.jobs[i]? = some job) (hanswer : job.answer = some (a, stage)) :
    Sound layout (w.reply i job a stage) := by
  obtain ⟨m, answer, busy, poller, jobs, rfl, rfl, seen, dispatched, stored⟩ := h.server.job hjob
  obtain ⟨hproduced, hwritten, hfits⟩ := stored a stage hanswer
  unfold World.reply
  dsimp only
  cases hnext : stage.next with
  | some stage' =>
    dsimp only
    rw [jobs]
    have hsame : (w.resp.store a w.req.seq stage).seq = w.resp.seq :=
      MessageCell.seq_store hnext w.req.seq
    refine ⟨h.allowed, h.ids, h.next_pos, .serving m (some (a, stage'))
      ⟨busy.holds, busy.fits, busy.published, busy.others, ?_⟩ poller rfl seen dispatched ?_,
      h.client.server busy.unanswered rfl rfl⟩
    · rw [hsame]
      exact busy.unanswered
    · intro b stage'' hb
      cases hb
      exact ⟨hproduced, hwritten.store hnext _, hfits⟩
  | none =>
    dsimp only
    rw [jobs]
    obtain ⟨hholds, hnumber⟩ := hwritten.holds hnext w.req.seq
    refine ⟨h.allowed, h.ids, h.next_pos, .quiet ⟨poller, rfl, seen, hnumber, ?_,
      fun _ => ⟨a, hproduced, hholds, hfits⟩⟩, h.client.server busy.unanswered rfl rfl⟩
    intro id m' hp
    rcases busy.others id m' hp with rfl | hd
    · exact ⟨m, dispatched⟩
    · exact hd

end Server

/-! ## Runs -/

section Runs

variable {layout : Layout} {w : World}

theorem Sound.fresh (layout : Layout) : Sound layout (.fresh layout) where
  allowed := trivial
  ids := fun _ ha => nomatch ha
  next_pos := Nat.one_pos
  server := .quiet ⟨rfl, rfl, rfl, rfl, fun _ _ hp => (nomatch hp), fun h => absurd rfl h⟩
  client := trivial

/-- A request that the poller does not see next has been dispatched. -/
theorem Sound.taken (h : Sound layout w) : Taken w := by
  intro hpoller hseen
  cases h.server with
  | quiet hq => exact hq.dispatched
  | unseen _ _ _ _ seen => exact absurd hseen.symm seen
  | copying _ _ _ poller => exact nomatch hpoller.symm.trans poller
  | serving m _ busy _ _ _ dispatched =>
    intro id m' hp
    rcases busy.others id m' hp with rfl | hd
    · exact ⟨m, dispatched⟩
    · exact hd

/-- **The step lemma.** -/
theorem Sound.step {e : Event} {w' : World} (h : Sound layout w) (hanswered : Answered layout w e)
    (hstep : w.step layout e = some w') : Sound layout w' := by
  have hok := h.client
  unfold World.step at hstep
  cases e with
  | claim | abandon | release =>
    dsimp only at hstep
    split at hstep <;> cases hstep
    exact h.turn trivial
  | adopt =>
    dsimp only at hstep
    split at hstep <;> cases hstep
    rename_i hclient
    exact h.adopt hclient
  | begin m =>
    dsimp only at hstep
    split at hstep
    · rename_i hclient
      split_ifs at hstep with hfits
      cases hstep
      exact h.begin hclient hfits hanswered
    · exact nomatch hstep
  | store =>
    dsimp only at hstep
    split at hstep <;> cases hstep
    rename_i hclient
    exact h.store hclient
  | check =>
    dsimp only at hstep
    split at hstep <;> cases hstep
    rename_i hclient
    split_ifs with hseq
    · exact h.check hclient hseq
    · exact h
  | giveUp =>
    dsimp only at hstep
    split at hstep <;> cases hstep
    rename_i hclient
    rw [hclient] at hok
    exact h.turn hok.2.2
  | load =>
    dsimp only at hstep
    split at hstep <;> cases hstep
    rename_i hclient
    exact h.load hclient
  | die =>
    cases hstep
    exact h.turn trivial
  | poll =>
    cases hstep
    exact h.poll
  | answer i m =>
    dsimp only at hstep
    split at hstep
    · rename_i job hjob
      split_ifs at hstep
      cases hstep
      exact h.answer hjob hanswered
    · exact nomatch hstep
  | reply i =>
    dsimp only at hstep
    split at hstep
    · rename_i job hjob
      split at hstep <;> cases hstep
      rename_i hanswer
      exact h.reply hjob hanswer
    · exact nomatch hstep

end Runs

namespace World

/-- **A reply belongs to its request.** If every request starts when the last one of the channel is
answered, then in every run, under any succession of owners: a request that returns gets the status
and payload that the server produced for it, every request is taken exactly once, and what is
dispatched is what was sent. -/
theorem replies_match (layout : Layout) (events : List Event) (w : World)
    (hrun : Run (step layout) (Answered layout) (fresh layout) events w) :
    Throughout Allowed w.log ∧ Taken w := by
  have hsound : Sound layout w :=
    hrun.invariant (Sound.fresh layout) fun _ _ _ h hanswered hstep => h.step hanswered hstep
  exact ⟨hsound.allowed, hsound.taken⟩

/-- Buffers of four bytes. -/
def sampleLayout : Layout := ⟨4, 4⟩

/-- A client claims the channel and publishes a request. -/
def publish (m : Message) : List Event := [.begin m, .store, .store, .store, .store]

/-- The poller takes a request. -/
def take : List Event := [.poll, .poll, .poll, .poll]

theorem replies_match_takeover : ∃ w, Run (step sampleLayout) (Answered sampleLayout)
    (fresh sampleLayout)
    ([.claim, .adopt, .adopt] ++ publish ⟨1, [7]⟩ ++ take ++ [.giveUp, .release, .claim, .adopt,
      .answer 0 ⟨0, [8]⟩, .adopt, .reply 0, .reply 0, .reply 0, .reply 0, .adopt, .adopt] ++
      publish ⟨2, []⟩ ++ take ++ [.answer 0 ⟨0, [9, 9]⟩, .reply 0, .reply 0, .reply 0, .reply 0, .check,
        .load, .load, .load]) w ∧
    .returned 2 ⟨0, [9, 9]⟩ ∈ w.log ∧ Throughout Allowed w.log ∧ Taken w := by
  refine exists_run_and_of_checkedExec (fun w => decide (.returned 2 ⟨0, [9, 9]⟩ ∈ w.log))
    (by decide +kernel) fun hrun hlog => ?_
  exact ⟨of_decide_eq_true hlog, replies_match sampleLayout _ _ hrun⟩

/-- **A late reply is returned for the next request.** The first request times out in the server; the
second is answered, and while the client is about to load the answer, the worker of the first stores
its own. -/
theorem late_reply_returned : ∃ events w, Run (step sampleLayout) anyStep (fresh sampleLayout) events w ∧
    .produced 2 ⟨0, [2]⟩ ∈ w.log ∧ .returned 2 ⟨1, [1]⟩ ∈ w.log ∧ ¬ Throughout Allowed w.log := by
  obtain ⟨w, hrun, hw⟩ := exists_run_of_exec (show (exec (step sampleLayout) (fresh sampleLayout)
    ([.claim, .adopt, .adopt] ++ publish ⟨1, [7]⟩ ++ take ++ [.giveUp] ++ publish ⟨2, [8]⟩ ++ take ++
      [.answer 0 ⟨1, [1]⟩, .answer 1 ⟨0, [2]⟩, .reply 1, .reply 1, .reply 1, .reply 1, .check,
        .reply 0, .reply 0, .reply 0, .load, .load, .load])).any (fun w => decide (w.log.head? =
          some (.returned 2 ⟨1, [1]⟩) ∧ .produced 2 ⟨0, [2]⟩ ∈ w.log ∧
          .produced 2 ⟨1, [1]⟩ ∉ w.log)) by decide +kernel)
  obtain ⟨hhead, hproduced, hnot⟩ := of_decide_eq_true hw
  cases hlog : w.log with
  | nil =>
    rw [hlog] at hhead
    exact nomatch hhead
  | cons act past =>
    rw [hlog] at hhead hproduced hnot
    cases hhead
    refine ⟨_, w, hrun, by rw [hlog]; exact hproduced, by rw [hlog]; exact mem_cons_self ..,
      fun h => ?_⟩
    rw [hlog] at h
    exact hnot (mem_cons_of_mem _ h.1)

end World

end Certus.ShmQueue
