import Certus.Lib.Run
import Certus.TransferEndpoint.Table

/-! # The endpoint thread

One thread owns the connection table, the messaging of every connection, the fetches of the local
caller and the pushes: the caller's own, and the serving of peers' requests. Between commands it
polls: it handles the events of the transport, acts on what the table reports, and advances the work
under way.

* **`Event`**, **`World.step`** — the commands, and the parts of a poll. The parts of `advance` come in
  any order and any number; what it does last, finishing pushes, closes it.

A failed assertion aborts the process: it is a flag of the state after which nothing happens. A
connection carries the number of the link it was brought up on, a served request carries a number of
its own, and both only mark what the log says; the code keeps a connection by its peer's name and a
request by the context identifier the peer chose. -/

namespace Certus.TransferEndpoint.Actor

open Table List

/-! ## Sessions -/

/-- What this end advertises and is configured with. -/
structure Limits where
  messageCredits : ℕ
  inboundQuota : ℕ
  deriving DecidableEq, Repr

/-- The receives each connection posts: the reply reserve plus the quota. -/
def Limits.receives (l : Limits) : ℕ := l.messageCredits + l.inboundQuota

/-- The lowest and the highest protocol version this end speaks. -/
def versionMin : ℕ := 1

@[inherit_doc versionMin]
def versionMax : ℕ := 1

/-- The most entries one message carries. -/
def maxEntries : ℕ := 340

/-- An OP_HELLO. -/
structure Hello where
  maxEntries : ℕ
  maxOutstandingRequests : ℕ
  versionMin : ℕ
  versionMax : ℕ
  deriving DecidableEq, Repr

/-- The version two ranges agree on: the lower maximum, if both ranges contain it. -/
def negotiate (a b : ℕ × ℕ) : Option ℕ :=
  let v := min a.2 b.2
  if a.1 > a.2 ∨ b.1 > b.2 ∨ v < max a.1 b.1 ∨ v = 0 then none else some v

/-- Why the peer's OP_HELLO fails the connection. -/
inductive HelloError
  | incompatible (ours theirs : ℕ × ℕ)
  | zeroQuota
  | zeroMaxEntries
  | duplicate
  deriving DecidableEq, Repr

/-- Why an inbound message breaks the rules of a session. -/
inductive Violation
  | beforeHello
  | overQuota
  | unexpectedReply
  deriving DecidableEq, Repr

/-- The message state of a connection. -/
structure Session where
  limits : Limits
  ready : Bool := false
  version : Option ℕ := none
  peerMaxEntries : ℕ := 0
  outLimit : ℕ := 1
  outInFlight : ℕ := 0
  helloReplyOwed : Bool := false
  peerHelloSeen : Bool := false
  inService : ℕ := 0
  deriving DecidableEq, Repr

namespace Session

variable (s : Session)

/-- Take the bootstrap credit for our OP_HELLO. -/
def sendHello : Session :=
  { s with outInFlight := s.outInFlight + 1, helloReplyOwed := true }

/-- Both hellos seen and our reply returned: data may flow. -/
def advancePhase : Session :=
  if s.peerHelloSeen ∧ s.helloReplyOwed = false ∧ s.version.isSome then
    { s with ready := true } else s

/-- The peer's OP_HELLO: negotiate and adopt its limits. -/
def onHello (theirs : Hello) : Session × Option HelloError :=
  if s.peerHelloSeen then (s, some .duplicate) else
  let s := { s with peerHelloSeen := true }
  let range := (theirs.versionMin, theirs.versionMax)
  match negotiate (Actor.versionMin, Actor.versionMax) range with
  | none => (s, some (.incompatible (Actor.versionMin, Actor.versionMax) range))
  | some v =>
    if theirs.maxOutstandingRequests = 0 then (s, some .zeroQuota)
    else if theirs.maxEntries = 0 then (s, some .zeroMaxEntries)
    else (({ s with
      version := some v
      peerMaxEntries := min theirs.maxEntries Actor.maxEntries
      outLimit := min s.limits.messageCredits theirs.maxOutstandingRequests }).advancePhase, none)

/-- The reply to our OP_HELLO: the bootstrap credit comes back. -/
def onHelloReply : Except Violation Session :=
  if s.helloReplyOwed then
    .ok ({ s with helloReplyOwed := false, outInFlight := s.outInFlight - 1 }).advancePhase
  else .error .unexpectedReply

/-- The message credits free for data requests; none before the exchange is done. -/
def creditsAvailable : ℕ := if s.ready then s.outLimit - s.outInFlight else 0

/-- Spend a message credit on a data request, if one is free. -/
def trySendRequest : Option Session :=
  if s.creditsAvailable = 0 then none else some { s with outInFlight := s.outInFlight + 1 }

/-- The reply to a data request: its credit comes back. -/
def onReply : Except Violation Session :=
  if s.outInFlight - (if s.helloReplyOwed then 1 else 0) = 0 then .error .unexpectedReply
  else .ok { s with outInFlight := s.outInFlight - 1 }

/-- A data request of the peer: it occupies one buffer of the quota until it is answered. -/
def onRequest : Except Violation Session :=
  if s.version = none then .error .beforeHello
  else if s.limits.inboundQuota ≤ s.inService then .error .overQuota
  else .ok { s with inService := s.inService + 1 }

/-- One of the peer's requests is answered; asserted to be in service. -/
def replied : Option Session :=
  if s.inService = 0 then none else some { s with inService := s.inService - 1 }

end Session

/-! ## Connections, fetches and pushes -/

/-- A message that waits to be posted. -/
inductive Outgoing
  | hello
  | helloReply
  /-- Chunk `chunk` of a fetch. -/
  | fetch (context id chunk : ℕ)
  /-- The answer to a served request. -/
  | reply (context request : ℕ) (outcomes : List EntryOutcome)
  /-- OP_ERROR in place of an answer, to an OP_FETCH or to another message. -/
  | refusal (request : Option ℕ)
  deriving DecidableEq, Repr

/-- The messaging of a connection. -/
structure Conn where
  /-- The link it was brought up on. -/
  link : LinkId
  session : Session
  /-- Messages not yet posted, in order; replies go to the front. -/
  outbox : List Outgoing
  /-- Our requests by context identifier: the fetch and the chunk. -/
  outbound : List (ℕ × ℕ × ℕ)
  nextContext : ℕ
  deriving DecidableEq, Repr

/-- Where a chunk stands. -/
inductive ChunkState
  | unsent
  | sent (context : ℕ)
  | settled
  deriving DecidableEq, Repr

/-- One message's worth of a fetch: where its entries start, and how many they are. -/
structure Chunk where
  offset : ℕ
  count : ℕ
  state : ChunkState
  deriving DecidableEq, Repr

/-- A fetch in progress. -/
structure Fetch where
  peer : PeerId
  /-- The number of entries, until they are split into chunks. -/
  items : Option ℕ
  chunks : List Chunk
  len : ℕ
  outcomes : List (Option EntryOutcome)
  /-- The first refusal of a chunk. -/
  refused : Option String
  deriving DecidableEq, Repr

namespace Fetch

/-- A fetch as it starts. -/
def start (peer : PeerId) (items : ℕ) : Fetch :=
  ⟨peer, some items, [], items, replicate items none, none⟩

/-- Split `items` entries into chunks of at most `max`, in request order. -/
def chunksOf (items max : ℕ) : List Chunk :=
  (range ((items + max - 1) / max)).map fun i =>
    ⟨i * max, min max (items - i * max), .unsent⟩

/-- Split the fetch into chunks of at most `max` entries, unless it is already. -/
def chunk (f : Fetch) (max : ℕ) : Fetch :=
  match f.items with
  | none => f
  | some items => { f with items := none, chunks := chunksOf items (Nat.max max 1) }

/-- Every chunk is answered or refused. -/
def settled (f : Fetch) : Bool :=
  f.items.isNone && f.chunks.all fun c => decide (c.state = .settled)

/-- The first chunk not yet sent. -/
def unsent (f : Fetch) : Option ℕ := f.chunks.findIdx? fun c => decide (c.state = .unsent)

/-- Chunk `k` gets the state `s`. -/
def setState (f : Fetch) (k : ℕ) (s : ChunkState) : Fetch :=
  { f with chunks := f.chunks.modify k fun c => { c with state := s } }

/-- The outcomes of a chunk, placed at its offset. -/
def place (f : Fetch) (offset : ℕ) (outcomes : List EntryOutcome) : Fetch :=
  { f with
    outcomes := f.outcomes.take offset ++ outcomes.map some
      ++ f.outcomes.drop (offset + outcomes.length) }

/-- Chunk `k` is refused: what is not sent yet will not be. -/
def refuse (f : Fetch) (k : ℕ) (why : String) : Fetch :=
  let f := f.setState k .settled
  { f with
    refused := f.refused.or (some why)
    chunks := f.chunks.map fun c => if c.state = .unsent then { c with state := .settled } else c }

end Fetch

/-- How a block-tier read ends: in a bounce buffer, for want of one, or with an error. -/
inductive ReadResult
  | filled
  | noSpace
  | failed
  deriving DecidableEq, Repr

/-- Who a push reports to. -/
inductive Finish
  /-- The local caller. -/
  | callback
  /-- The peer whose request it serves. -/
  | reply (context request : ℕ)
  deriving DecidableEq, Repr

/-- A push in progress; entries are named by their index in the request. -/
structure Push where
  peer : PeerId
  /-- Entries not yet looked up. -/
  pending : List ℕ
  /-- Block-tier entries put back for want of a reader or bounce space. -/
  deferred : List ℕ
  /-- Entries read into a buffer that wait for a send credit. -/
  ready : List ℕ
  outcomes : List (Option EntryOutcome)
  /-- Writes posted and not yet completed. -/
  inFlight : ℕ
  /-- Block-tier reads not yet back. -/
  reading : ℕ
  /-- Its connection was torn down. -/
  dead : Bool
  finish : Finish
  deriving DecidableEq, Repr

namespace Push

/-- A push as it starts. -/
def start (peer : PeerId) (items : ℕ) (finish : Finish) : Push :=
  ⟨peer, range items, [], [], replicate items none, 0, 0, false, finish⟩

/-- Nothing of it is under way. -/
def isDone (p : Push) : Bool :=
  p.pending.isEmpty && p.deferred.isEmpty && p.ready.isEmpty && p.inFlight == 0 && p.reading == 0

/-- Its outcomes; an undecided entry failed. -/
def results (p : Push) : List EntryOutcome := p.outcomes.map fun o => o.getD .failed

/-- The outcome of one entry. -/
def settle (p : Push) (index : ℕ) (o : EntryOutcome) : Push :=
  { p with outcomes := p.outcomes.set index (some o) }

/-- A read is back: its entry can be posted or is put back, or it fails. Nothing more becomes of a
dead push. -/
def onRead (p : Push) (index : ℕ) (r : ReadResult) : Push :=
  let p := { p with reading := p.reading - 1 }
  match r with
  | .filled =>
    if p.dead then p.settle index .failed else { p with ready := p.ready ++ [index] }
  | .noSpace =>
    if p.dead then p.settle index .failed else { p with deferred := p.deferred ++ [index] }
  | .failed => p.settle index .failed

/-- End what can make no further progress. -/
def kill (p : Push) : Push :=
  { (p.pending ++ p.deferred ++ p.ready).foldl (fun q i => q.settle i .failed) p with
    dead := true, pending := [], deferred := [], ready := [] }

end Push

/-- Why a whole fetch fails. -/
inductive Abort
  | refused (why : String)
  | lost (why : String)
  | deadline (why : String)
  | incompatible (why : String)
  deriving DecidableEq, Repr

/-- What its callback gets. -/
def Abort.error : Abort → TransferEndpointError
  | .refused m => .protocol m
  | .lost m => .transport m
  | .deadline m => .deadline m
  | .incompatible m => .incompatiblePeer m

/-- Why a connection is torn down. -/
inductive Cause
  | lost
  | deadline (fetch : ℕ) (why : String)
  | incompatible (why : String)
  deriving DecidableEq, Repr

/-- What a fetch is told. -/
def Cause.abort (c : Cause) (peer : PeerId) (id : ℕ) : Abort :=
  match c with
  | .deadline expired why =>
    if expired = id then .deadline why
    else .lost (s!"aborted: the connection to {peer} was torn down after the reply " ++
      s!"deadline of fetch {expired} expired")
  | .incompatible why => .incompatible why
  | .lost => .lost s!"the connection to {peer} was lost"

/-- Why an inbound message tears its connection down. -/
inductive Fault
  | protocol
  | incompatible (why : String)
  deriving DecidableEq, Repr

/-- Why the peer's OP_HELLO makes a connection impossible. -/
def incompatibility (peer : PeerId) : HelloError → String
  | .incompatible ours theirs =>
    s!"{peer} speaks protocol versions {theirs.1}..={theirs.2}, " ++
      s!"this end {ours.1}..={ours.2}: none in common"
  | .zeroQuota => s!"{peer} advertised an inbound quota of 0"
  | .zeroMaxEntries => s!"{peer} advertised a max_entries of 0"
  | .duplicate => ""

/-! ## The state -/

/-- Where the thread is: between polls, handling the events of the transport, acting on the reports
of the table, or advancing. -/
inductive Phase
  | resting
  | polling
  | pumping
  | advancing
  deriving DecidableEq, Repr

/-- The state of the endpoint thread. -/
structure World where
  limits : Limits
  table : Table
  /-- What the transport has yet to deliver, oldest first. -/
  incoming : List TransportEvent
  /-- The links whose connect or accept has not come to an end yet. -/
  undecided : List LinkId
  /-- Reports of the table not yet acted on, oldest first. -/
  events : List TableEvent
  phase : Phase
  /-- Not shut down. -/
  running : Bool
  /-- The process was aborted by a failed assertion. -/
  aborted : Bool
  conns : PeerId → Option Conn
  fetches : ℕ → Option Fetch
  nextFetch : ℕ
  pushes : ℕ → Option Push
  nextPush : ℕ
  /-- Block-tier reads out: the push and the entry of each. -/
  reads : List (ℕ × ℕ)
  nextRequest : ℕ
  /-- Peers to tear down at the end of `advance`. -/
  faulted : List PeerId
  incompatible : List (PeerId × String)

/-- The endpoint as it starts. -/
def World.start (localPeer : PeerId) (limits : Limits) : World where
  limits := limits
  table := ⟨localPeer, OrdMap.empty, [], 0, []⟩
  incoming := []
  undecided := []
  events := []
  phase := .resting
  running := true
  aborted := false
  conns := fun _ => none
  fetches := fun _ => none
  nextFetch := 0
  pushes := fun _ => none
  nextPush := 0
  reads := []
  nextRequest := 0
  faulted := []
  incompatible := []

namespace World

/-- What has happened, newest first. -/
def log (w : World) : List Act := w.table.log

/-- Something happens. -/
def record (w : World) (a : Act) : World := { w with table := w.table.record a }

variable (w : World) (p : PeerId) (id : ℕ)

/-- An assertion fails. -/
def abort : World := { w with aborted := true }

def setConn (c : Option Conn) : World :=
  { w with conns := Function.update w.conns p c }

def setFetch (f : Option Fetch) : World :=
  { w with fetches := Function.update w.fetches id f }

def setPush (p : Option Push) : World :=
  { w with pushes := Function.update w.pushes id p }

/-- The table changes; how a link it opened ends is undecided. -/
def withTable (t : Table) : World :=
  { w with
    table := t
    undecided := if t.nextLink = w.table.nextLink then w.undecided
      else w.table.nextLink :: w.undecided }

/-- The live link of a peer, if established. -/
def upLink : Option Live := (w.table.entry p).live.filter fun l => l.up

/-- Give the live link of a peer other outstanding requests. -/
def setSlab (l : Live) (slab : List Work) : World :=
  { w with table := w.table.put p { w.table.entry p with live := some { l with slab := slab } } }

/-! ## Finishing requests -/

/-- A finished push reports: to the caller, or to the peer if the peer has a connection. -/
def finishOne : World :=
  match w.pushes id with
  | none => w
  | some p =>
    let w := w.setPush id none
    match p.finish with
    | .callback => w.record (.called (.push id) (.ok p.results))
    | .reply context request =>
      match w.conns p.peer with
      | none => w
      | some c =>
        match c.session.replied with
        | none => w.abort
        | some s =>
          (w.setConn p.peer (some { c with
            session := s, outbox := .reply context request p.results :: c.outbox })).record
            (.answered request c.link)

/-- The pushes that are done, in arrival order. -/
def donePushes : List ℕ :=
  (range w.nextPush).filter fun id => (w.pushes id).any Push.isDone

/-- Report every push that has finished. -/
def finishDone : World := w.donePushes.foldl finishOne w

/-- End every push to the peer that can make no further progress. -/
def failPushes : World :=
  finishDone { w with
    pushes := fun id => (w.pushes id).map fun q => if q.peer = p then q.kill else q }

/-- The callback of a fetch gets an error. -/
def abortFetch (a : Abort) : World :=
  (w.setFetch id none).record (.called (.fetch id) (.err a.error))

/-- The fetches to a peer, in the order of their numbers. -/
def fetchesTo : List ℕ :=
  (range w.nextFetch).filter fun id => (w.fetches id).any fun f => f.peer = p

/-- End every fetch to the peer. -/
def failFetches (cause : Cause) : World :=
  (w.fetchesTo p).foldl (fun w id => w.abortFetch id (cause.abort p id)) w

/-- The callback of a fetch whose chunks are all settled: its outcomes, each asserted to be there, or
an error if a chunk was refused. -/
def completeFetch (f : Fetch) : World :=
  match f.refused with
  | some why => w.abortFetch id (.refused why)
  | none =>
    if f.outcomes.all Option.isSome then
      (w.setFetch id none).record (.called (.fetch id) (.ok (f.outcomes.filterMap fun o => o)))
    else (w.setFetch id none).abort

/-! ## Teardown -/

/-- The completion of a write: its entry gets its outcome. -/
def settle (w : World) (work : Work) (ok : Bool) : World :=
  match work with
  | .push id index hold =>
    match w.pushes id with
    | none => w.abort
    | some p =>
      if p.inFlight = 0 then w.abort
      else
        let hit := match hold with | .pin => EntryOutcome.hitMemoryTier | .buffer => .hitBlockTier
        w.setPush id (some ({ p with inFlight := p.inFlight - 1 }.settle index
          (if ok then hit else .failed)))
  | .send => w
  | .recv => w

/-- Settle the works a drain releases; `ok i` says whether the `i`-th completed with success. -/
def settleAll (ok : ℕ → Bool) : ℕ → List Work → World → World
  | _, [], w => w
  | i, work :: works, w => settleAll ok (i + 1) works (w.settle work (ok i))

/-- The transport's answers during a teardown. -/
structure TearIo where
  toError : ToError
  /-- For each link the completions that come back, or `none` when its state cannot be read. -/
  drain : LinkId → Option ℕ
  /-- Which of the drained requests completed with success. -/
  completed : ℕ → Bool

/-- The first parts of a teardown: the live link is forced to ERROR, the links are drained as far as
they can be, what came back is settled, and the connection is forgotten. -/
def quenched (io : TearIo) : World :=
  (settleAll io.completed 0 (w.table.quench p io.toError io.drain).2.1
    { w with table := (w.table.quench p io.toError io.drain).1 }).setConn p none

/-- Tear a peer down: once its links are in ERROR, drained and destroyed, and only then, end what was
under way with it. The flag says whether it succeeded. -/
def teardownFor (cause : Cause) (io : TearIo) : World × Bool :=
  if w.running = false then (w, false)
  else if (w.table.beginTeardown p io.toError).2 && (w.table.quench p io.toError io.drain).2.2 then
    match (w.quenched p io).table.finishTeardown p with
    | none => (w.quenched p io, false)
    | some t => (({ w.quenched p io with table := t }.failPushes p).failFetches p cause, true)
  else (w.quenched p io, false)

/-! ## Commands -/

/-- A fetch gets its number. -/
def askFetch (items : ℕ) : World :=
  { w with nextFetch := w.nextFetch + 1 }.record (.requested (.fetch w.nextFetch) items)

/-- `Fetch`. -/
def startFetch (items : ℕ) (connect : Except String ℕ) : World :=
  let id := w.nextFetch
  let w := w.askFetch items
  if w.running = false then w.abortFetch id (.lost "endpoint is shut down")
  else
    match w.table.ensure p connect with
    | (.error e, t) =>
      let why := e.text
      (w.withTable t).abortFetch id (.lost s!"cannot connect to {p}: {why}")
    | (.ok _, t) => (w.withTable t).setFetch id (some (.start p items))

/-- A push gets its number. -/
def askPush (items : ℕ) : World :=
  { w with nextPush := w.nextPush + 1 }.record (.requested (.push w.nextPush) items)

/-- `Push`. -/
def startPush (items : ℕ) (connect : Except String ℕ) : World :=
  let id := w.nextPush
  let w := w.askPush items
  if w.running = false then
    w.record (.called (.push id) (.err (.notInitialized "endpoint is shut down")))
  else
    match w.table.ensure p connect with
    | (.error _, t) =>
      ((w.withTable t).setPush id (some (.start p items .callback))).failPushes p
    | (.ok _, t) => (w.withTable t).setPush id (some (.start p items .callback))

/-- `Disconnect`. -/
def disconnect (io : TearIo) : World :=
  let r := w.teardownFor p .lost io
  if r.2 then r.1.record (.disconnected p) else r.1

/-- One block-tier read is back. -/
def onReadDone (i : ℕ) (result : ReadResult) : World :=
  match w.reads[i]? with
  | none => w
  | some (id, index) =>
    let w := { w with reads := w.reads.eraseIdx i }
    match w.pushes id with
    | none => w.abort
    | some p =>
      if p.reading = 0 then w.abort
      else w.setPush id (some (p.onRead index result))

/-- Wait for so many reads, the oldest first. -/
def collectReads (results : ℕ → ReadResult) : ℕ → World → World
  | 0, w => w
  | n + 1, w => collectReads results n (w.onReadDone 0 (results n))

/-- The peers of the pushes and fetches in progress. -/
def stranded : List PeerId :=
  ((range w.nextPush).filterMap fun id => (w.pushes id).map Push.peer)
    ++ (range w.nextFetch).filterMap fun id => (w.fetches id).map Fetch.peer

/-- Tear every peer down that the table knows. -/
def tearDownAll (io : PeerId → TearIo) : World :=
  w.table.entries.keys.foldl (fun w p => (w.teardownFor p .lost (io p)).1) w

/-- End the pushes and fetches that are left. -/
def failStranded : World :=
  w.stranded.foldl (fun w p => (w.failPushes p).failFetches p .lost) w

/-- `Shutdown`: tear every peer down, wait for the reads, end what is left, and give up the table. -/
def shutdown (io : PeerId → TearIo) (results : ℕ → ReadResult) : World :=
  let w := w.tearDownAll io
  let w := (collectReads results w.reads.length w).finishDone
  { w.failStranded with running := false }

/-! ## Acting on the table's reports -/

/-- A link came up: post the receives that did not go with the connect, and queue our OP_HELLO.
`posted` is the transport's answer: `none` when everything is posted, or how many receives were
before it failed. The flag says whether the connection is there. -/
def bringUp (posted : Option ℕ) : World × Bool :=
  match w.upLink p with
  | none => (w, false)
  | some l =>
    let receives := w.limits.receives - l.slab.count Work.recv
    match posted with
    | some n => (w.setSlab p l (l.slab ++ replicate (min n receives) Work.recv), false)
    | none =>
      ((w.setSlab p l (l.slab ++ replicate receives Work.recv)).setConn p
        (some ⟨l.link, Session.sendHello { limits := w.limits }, [.hello], [], 0⟩), true)

/-- The transport's answers while a report is acted on. -/
structure PumpIo where
  tear : TearIo
  posted : Option ℕ

/-- Act on one report. -/
def onTableEvent (io : PumpIo) : TableEvent → World
  | .down p => (w.teardownFor p .lost io.tear).1
  | .failed p _ => (w.failPushes p).failFetches p .lost
  | .refusedInbound _ _ => w
  | .up p =>
    let r := w.bringUp p io.posted
    if r.2 then r.1 else (r.1.teardownFor p .lost io.tear).1
  | .lostTieBreak _ => w

/-! ## Messages -/

/-- A message of a peer, read: OP_HELLO, OP_HELLO_REPLY, OP_ERROR with the context it names and
whether it refuses an OP_FETCH, OP_FETCH_REPLY and OP_FETCH. A body that cannot be decoded is `none`.
-/
inductive Message
  /-- The header cannot be read; a request is answered all the same. -/
  | unreadable (request : Bool)
  | hello (body : Option Hello)
  | helloReply (wellFormed : Bool)
  | error (body : Option (ℕ × Bool × String))
  | fetchReply (context : ℕ) (outcomes : Option (List EntryOutcome))
  | fetch (context : ℕ) (items : Option ℕ)

/-- Queue a message in front of the outbox. -/
def queueReply (m : Outgoing) : World :=
  match w.conns p with
  | none => w
  | some c => w.setConn p (some { c with outbox := m :: c.outbox })

/-- OP_HELLO. -/
def onHello (w : World) (p : PeerId) (c : Conn) : Option Hello → World × Option Fault
  | none => (w, some .protocol)
  | some h =>
    let r := c.session.onHello h
    let w := w.setConn p (some { c with session := r.1 })
    match r.2 with
    | none => (w.queueReply p .helloReply, none)
    | some .duplicate => (w.queueReply p (.refusal none), none)
    | some e => (w, some (.incompatible (incompatibility p e)))

/-- OP_ERROR: a refusal of one of our fetches fails that fetch, once all its chunks are settled. -/
def onError (c : Conn) : Option (ℕ × Bool × String) → World × Option Fault
  | none => (w, some .protocol)
  | some (context, ofFetch, why) =>
    if ofFetch = false then (w, some .protocol) else
    match c.outbound.lookup context with
    | none => (w, some .protocol)
    | some (id, k) =>
      let c := { c with outbound := c.outbound.filter fun o => o.1 ≠ context }
      match c.session.onReply with
      | .error _ => (w.setConn p (some c), some .protocol)
      | .ok s =>
        let w := w.setConn p (some { c with session := s })
        match w.fetches id with
        | none => (w, none)
        | some f =>
          if f.chunks.length ≤ k then (w.abort, none)
          else
            let f := f.refuse k s!"{p} refused chunk {k}: {why}"
            (if f.settled then w.completeFetch id f else w.setFetch id (some f), none)

/-- OP_FETCH_REPLY. -/
def onFetchReply (c : Conn) (context : ℕ)
    (outcomes : Option (List EntryOutcome)) : World × Option Fault :=
  match c.outbound.lookup context with
  | none => (w, some .protocol)
  | some (id, k) =>
    let c := { c with outbound := c.outbound.filter fun o => o.1 ≠ context }
    let w := w.setConn p (some c)
    match w.fetches id with
    | none => (w, some .protocol)
    | some f =>
      match f.chunks[k]?, outcomes with
      | none, _ => (w.abort, none)
      | some _, none => (w, some .protocol)
      | some chunk, some outcomes =>
        if outcomes.length ≠ chunk.count then (w, some .protocol) else
        match c.session.onReply with
        | .error _ => (w, some .protocol)
        | .ok s =>
          let w := w.setConn p (some { c with session := s })
          let f := (f.setState k .settled).place chunk.offset outcomes
          (if f.settled then w.completeFetch id f else w.setFetch id (some f), none)

/-- OP_FETCH: it is served as a push that ends with the reply. -/
def onFetch (c : Conn) (context : ℕ) (items : Option ℕ) : World × Option Fault :=
  let request := w.nextRequest
  match c.session.onRequest with
  | .error .beforeHello =>
    ((({ w with nextRequest := request + 1 }.record (.received request c.link)).queueReply p
      (.refusal (some request))).record (.answered request c.link), none)
  | .error _ => (w, some .protocol)
  | .ok s =>
    let w := { w with nextRequest := request + 1 }.record (.received request c.link)
    match items with
    | none =>
      match s.replied with
      | none => (w.abort, none)
      | some s =>
        (((w.setConn p (some { c with session := s })).queueReply p
          (.refusal (some request))).record (.answered request c.link), none)
    | some items =>
      (finishDone ({ w with nextPush := w.nextPush + 1 }.setConn p
        (some { c with session := s }) |>.setPush w.nextPush
          (some (.start p items (.reply context request)))), none)

/-- One inbound message. -/
def onMessage (m : Message) : World × Option Fault :=
  match m, w.conns p with
  | .unreadable true, _ => (w.queueReply p (.refusal none), none)
  | .unreadable false, _ => (w, some .protocol)
  | _, none => (w, some .protocol)
  | .hello body, some c => w.onHello p c body
  | .helloReply wellFormed, some c =>
    if wellFormed then
      match c.session.onHelloReply with
      | .error _ => (w, some .protocol)
      | .ok s => (w.setConn p (some { c with session := s }), none)
    else (w, some .protocol)
  | .error body, some c => w.onError p c body
  | .fetchReply context outcomes, some c => w.onFetchReply p c context outcomes
  | .fetch context items, some c => w.onFetch p c context items

/-- A fault marks its peer for the teardown. -/
def fault : Option Fault → World
  | none => w
  | some .protocol => { w with faulted := w.faulted ++ [p] }
  | some (.incompatible why) =>
    { w with incompatible := w.incompatible.filter (fun x => x.1 ≠ p) ++ [(p, why)] }

/-! ## Advancing -/

/-- Send the next chunk of a fetch, if its connection is ready and has a message credit. A fetch
without entries is answered at once. -/
def sendFetch : Option World :=
  match w.fetches id with
  | none => none
  | some f =>
    match w.conns f.peer with
    | none => none
    | some c =>
      if c.session.ready = false then none else
      let f := f.chunk c.session.peerMaxEntries
      if f.chunks = [] then some (w.completeFetch id f) else
      match f.unsent, c.session.trySendRequest with
      | some k, some s =>
        some ((w.setFetch id (some (f.setState k (.sent c.nextContext)))).setConn f.peer
          (some { c with
            session := s
            outbox := c.outbox ++ [.fetch c.nextContext id k]
            outbound := (c.nextContext, id, k) :: c.outbound
            nextContext := c.nextContext + 1 }))
      | _, _ => some (w.setFetch id (some f))

/-- The connection of a push is ready and its link up. -/
def canPost (p : Push) : Option Live :=
  match w.conns p.peer with
  | none => none
  | some c => if c.session.ready then w.upLink p.peer else none

/-- Post the write of an entry, or fail: then the entry fails and the peer is torn down. -/
def post (p : Push) (l : Live) (index : ℕ) (hold : Hold) (posted : Bool) :
    World :=
  if posted then
    (w.setPush id (some { p with inFlight := p.inFlight + 1 })).setSlab p.peer l
      (l.slab ++ [.push id index hold])
  else (w.setPush id (some (p.settle index .failed))).fault p.peer (some .protocol)

/-- What the look-up of an entry gives: a failure, a miss, a write that is posted or not, a block
read handed out, or put back for want of a reader. -/
inductive Resolution
  | failed
  | miss
  | write (posted : Bool)
  | block
  | deferred
  deriving DecidableEq, Repr

/-- Look up the next entry of a push. -/
def resolve (r : Resolution) : Option World :=
  match w.pushes id with
  | none => none
  | some p =>
    match w.canPost p, p.pending with
    | none, _ => none
    | _, [] => none
    | some l, index :: pending =>
      let p := { p with pending := pending }
      match r with
      | .failed => some (w.setPush id (some (p.settle index .failed)))
      | .miss => some (w.setPush id (some (p.settle index .miss)))
      | .write posted => some (w.post id p l index .pin posted)
      | .block =>
        some ({ w with reads := w.reads ++ [(id, index)] }.setPush id
          (some { p with reading := p.reading + 1 }))
      | .deferred => some (w.setPush id (some { p with deferred := p.deferred ++ [index] }))

/-- Post the next entry that was read into a buffer. -/
def postReady (posted : Bool) : Option World :=
  match w.pushes id with
  | none => none
  | some p =>
    match w.canPost p, p.ready with
    | none, _ => none
    | _, [] => none
    | some l, index :: ready => some (w.post id { p with ready := ready } l index .buffer posted)

/-- Deferred entries are looked up again. -/
def retry (id n : ℕ) : Option World :=
  match w.pushes id with
  | none => none
  | some p =>
    match w.canPost p with
    | none => none
    | some _ =>
      some (w.setPush id (some { p with
        pending := p.deferred.take n ++ p.pending, deferred := p.deferred.drop n }))

/-- How a completed work request ended. -/
inductive Completion
  | done
  | flushed
  | failed
  deriving DecidableEq, Repr

/-- A send-queue completion of a peer's link. -/
def onCompletion (i : ℕ) (c : Completion) : Option World :=
  match w.conns p, w.upLink p with
  | some _, some l =>
    match l.slab[i]? with
    | some (.push id index hold) =>
      let w := (w.setSlab p l (l.slab.eraseIdx i)).settle (.push id index hold) (decide (c = .done))
      some (if c = .failed then w.fault p (some .protocol) else w)
    | some .send => some (w.setSlab p l (l.slab.eraseIdx i))
    | _ => none
  | _, _ => none

/-- Take a receive off the live link. -/
def takeRecv : Option World :=
  match w.conns p, w.upLink p with
  | some _, some l =>
    if Work.recv ∈ l.slab then some (w.setSlab p l (l.slab.erase Work.recv)) else none
  | _, _ => none

/-- A receive is posted again. -/
def repost (ok : Bool) : World :=
  match w.upLink p with
  | some l => if ok then w.setSlab p l (l.slab ++ [.recv]) else w
  | none => w

/-- A receive completes with a message, or fails. -/
def onRecv (m : Option Message) (reposted : Bool) : Option World :=
  match w.takeRecv p, m with
  | none, _ => none
  | some w, none => some (w.fault p (some .protocol))
  | some w, some m =>
    let r := w.onMessage p m
    some ((r.1.repost p reposted).fault p r.2)

/-- What the log says about a posted message. -/
def postedAct (p : PeerId) (link : LinkId) : Outgoing → Option Act
  | .fetch _ id _ => some (.posted id p link)
  | .reply _ request _ => some (.transmitted request link)
  | .refusal (some request) => some (.transmitted request link)
  | _ => none

/-- Post the first `n` messages of the outbox; `ok` is false when the transport then fails. -/
def flushOutbox (n : ℕ) (ok : Bool) : Option World :=
  match w.conns p with
  | none => none
  | some c =>
    if c.outbox = [] then none else
    match w.upLink p with
    | none => some (w.fault p (some .protocol))
    | some l =>
      let sent := c.outbox.take n
      let w := (sent.filterMap (postedAct p l.link)).foldl record
        ((w.setSlab p l (l.slab ++ replicate sent.length Work.send)).setConn p
          (some { c with outbox := c.outbox.drop n }))
      some (if ok then w else w.fault p (some .protocol))

/-! ## Events -/

/-- What can happen next. -/
inductive Event
  /-- The transport has an event to deliver. -/
  | arrive (ev : TransportEvent)
  | fetch (peer : PeerId) (items : ℕ) (connect : Except String ℕ)
  | push (peer : PeerId) (items : ℕ) (connect : Except String ℕ)
  | disconnect (peer : PeerId) (io : TearIo)
  | shutdown (io : PeerId → TearIo) (results : ℕ → ReadResult)
  /-- The reply deadline of a fetch with a chunk on the wire expires. -/
  | deadline (id : ℕ) (why : String) (io : TearIo)
  /-- A poll begins. -/
  | poll
  | handle (io : HandleIo)
  | polled
  | pump (io : PumpIo)
  | pumped
  | sendFetch (id : ℕ)
  | readDone (i : ℕ) (result : ReadResult)
  | retry (id n : ℕ)
  | resolve (id : ℕ) (r : Resolution)
  | postReady (id : ℕ) (posted : Bool)
  | completion (peer : PeerId) (i : ℕ) (c : Completion)
  | recv (peer : PeerId) (m : Option Message) (reposted : Bool)
  | flush (peer : PeerId) (n : ℕ) (ok : Bool)
  /-- The teardown of the next peer with a fault. -/
  | tear (io : TearIo)
  /-- The teardown of the next peer whose exchange failed. -/
  | tearIncompatible (io : TearIo)
  /-- `advance` ends. -/
  | advanced

/-- The link whose connect or accept an event decides. -/
def decides : TransportEvent → Option LinkId
  | .established link _ => some link
  | .rejected link _ => some link
  | .connectError link _ => some link
  | _ => none

/-- The transport delivers an event: each connect and each accept comes to one end. -/
def arrive (ev : TransportEvent) : Option World :=
  match decides ev with
  | none => some { w with incoming := w.incoming ++ [ev] }
  | some link =>
    if link ∈ w.undecided then
      some { w with incoming := w.incoming ++ [ev], undecided := w.undecided.erase link }
    else none

/-- Handle the next event of the transport. -/
def handleNext (io : HandleIo) : Option World :=
  match w.incoming with
  | [] => none
  | ev :: incoming =>
    match w.table.handle io ev with
    | none => some w.abort
    | some (t, out) =>
      some { w.withTable t with incoming := incoming, events := w.events ++ out }

/-- Act on the next report of the table. -/
def pumpNext (io : PumpIo) : Option World :=
  match w.events with
  | [] => none
  | ev :: events => some ({ w with events := events }.onTableEvent io ev)

/-- The reply deadline of a fetch expires. -/
def expire (why : String) (io : TearIo) : Option World :=
  match w.fetches id with
  | none => none
  | some f =>
    if f.chunks.any fun c => match c.state with | .sent _ => true | _ => false then
      some (w.teardownFor f.peer (.deadline id why) io).1
    else none

/-- Tear the next peer with a fault down, unless its exchange failed too. -/
def tearNext (io : TearIo) : Option World :=
  match w.faulted with
  | [] => none
  | p :: faulted =>
    if w.incompatible.any (fun x => x.1 = p) then some { w with faulted := faulted }
    else some ({ w with faulted := faulted }.teardownFor p .lost io).1

/-- Tear the next peer whose exchange failed down. -/
def tearNextIncompatible (io : TearIo) : Option World :=
  match w.incompatible with
  | [] => none
  | (p, why) :: incompatible =>
    some ({ w with incompatible := incompatible }.teardownFor p (.incompatible why) io).1

/-- What happens in each phase of the thread. -/
def act : Phase → Event → Option World
  | _, .arrive ev => w.arrive ev
  | .resting, .fetch p items connect => some (w.startFetch p items connect)
  | .resting, .push p items connect => some (w.startPush p items connect)
  | .resting, .disconnect p io => some (w.disconnect p io)
  | .resting, .shutdown io results =>
    if w.running then some (w.shutdown io results) else some w
  | .resting, .deadline id why io => w.expire id why io
  | .resting, .poll => if w.running then some { w with phase := .polling } else none
  | .polling, .handle io => w.handleNext io
  | .polling, .polled => some { w with phase := .pumping }
  | .pumping, .pump io => w.pumpNext io
  | .pumping, .pumped => if w.events = [] then some { w with phase := .advancing } else none
  | .advancing, .sendFetch id => w.sendFetch id
  | .advancing, .readDone i result => if i < w.reads.length then some (w.onReadDone i result) else none
  | .advancing, .retry id n => w.retry id n
  | .advancing, .resolve id r => w.resolve id r
  | .advancing, .postReady id posted => w.postReady id posted
  | .advancing, .completion p i c => w.onCompletion p i c
  | .advancing, .recv p m reposted => w.onRecv p m reposted
  | .advancing, .flush p n ok => w.flushOutbox p n ok
  | .advancing, .tear io => w.tearNext io
  | .advancing, .tearIncompatible io => w.tearNextIncompatible io
  | .advancing, .advanced =>
    if w.faulted = [] ∧ w.incompatible = [] then some { w.finishDone with phase := .resting }
    else none
  | _, _ => none

/-- One step of the endpoint; an aborted process takes none. -/
def step (e : Event) : Option World :=
  if w.aborted then none else w.act w.phase e

end World

end Certus.TransferEndpoint.Actor
