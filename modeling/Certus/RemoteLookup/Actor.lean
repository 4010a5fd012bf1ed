import Certus.Lib.Run
import Certus.RemoteLookup.Operation

/-! # The actor of the remote lookup

One thread owns all operations. It takes submissions and messages from peers one at a time and lets
time pass in between; each of its handlers runs to the end before the next event.

* **`Event`**, **`World.step`** — the events and the handlers.

Statuses and acknowledgements carry a mark of what they are about. The code cannot see it: it is
there so that a log tells which slot a peer reported on and which `Disconnect` was acknowledged. The
operation being worked on stays in the table, where no handler looks at it meanwhile. -/

namespace Certus.RemoteLookup

/-! ## The log -/

/-- What happens. -/
inductive Act
  /-- An operation starts. -/
  | submitted (op : OpId) (entries : List (CacheKey × UInt32))
  /-- A KEY_QUERY is sent to the group. -/
  | shouted (op : OpId) (entries : List (CacheKey × UInt32))
  /-- A landing slot is reserved in the memory tier. -/
  | reserved (serial : ℕ) (op : OpId) (key : CacheKey) (peer : PeerId)
  /-- An RDMA_REQUEST with the slot is sent to the peer. -/
  | advertised (serial : ℕ) (op : OpId) (key : CacheKey) (peer : PeerId)
  /-- The peer reports a status about the slot. -/
  | reported (serial : ℕ) (peer : PeerId)
  /-- The dispatch map holds the key with so many bytes. -/
  | holds (key : CacheKey) (bytes : UInt32)
  /-- A dispatch-map entry is created on the slot. -/
  | published (serial : ℕ) (op : OpId) (key : CacheKey)
  /-- The write-through of an entry is scheduled. -/
  | scheduled (key : CacheKey) (len : UInt32)
  /-- `memory_tier.remove` is called on account of the slot. -/
  | freed (serial : ℕ)
  /-- The state of a key is set. -/
  | turned (op : OpId) (key : CacheKey) (before after : KeyState)
  /-- `Disconnect` number `index` is sent to the responder. -/
  | disconnect (peer : PeerId) (index : ℕ)
  /-- A `DisconnectAck` is received; the mark is the `Disconnect` it answers. -/
  | acked (peer : PeerId) (index : Option ℕ)
  /-- The caller of the operation gets its result. -/
  | returned (op : OpId) (results : BatchResult)
  deriving DecidableEq

/-! ## The state -/

/-- The settings of the lookup. -/
structure LookupConfig where
  quorumPct : ℕ
  phase1Timeout : ℕ
  opDeadline : ℕ
  connectionTeardownTimeout : ℕ
  maxRetryRounds : ℕ
  maxKeysPerQuery : ℕ

/-- A key that is being fetched: the operation that reserved the slot, and those that wait along. -/
structure InFlight where
  servingOp : OpId
  followers : List OpId
  deriving DecidableEq, Repr

/-- An operation no longer waits along. -/
def InFlight.without (inf : InFlight) (o : OpId) : InFlight :=
  { inf with followers := inf.followers.filter fun f => decide (f ≠ o) }

/-- A landing slot that outlived its operation. -/
structure Orphan where
  peer : PeerId
  deadline : ℕ
  serial : ℕ
  deriving DecidableEq, Repr

/-- The actor and its surroundings. -/
structure World where
  config : LookupConfig
  ops : OrdMap OpId Operation
  inFlight : OrdMap CacheKey InFlight
  orphans : OrdMap CacheKey Orphan
  /-- The dispatch map. -/
  map : DispatchMap
  /-- The callers that wait for the result of their operation. -/
  callers : OrdMap OpId (List (CacheKey × UInt32))
  /-- The actor has not stopped. -/
  running : Bool
  /-- The calls made while handling the current event. -/
  calls : ℕ
  /-- The slots reserved so far. -/
  serial : ℕ
  /-- The `Disconnect` commands sent so far. -/
  disconnects : ℕ
  log : List Act

/-- One look at the control channel of the responder. -/
inductive Poll
  /-- A `DisconnectAck` for `node`, in answer to the `Disconnect` just sent or to an earlier one. -/
  | disconnectAck (node : PeerId) (fresh : Bool)
  /-- Nothing has come; the time is up or not. -/
  | empty (expired : Bool)
  /-- The channel is closed. -/
  | closed
  deriving DecidableEq, Repr

/-- What comes from outside while one event is handled. Answers are numbered by the calls. -/
structure Env where
  now : ℕ → ℕ := fun _ => 0
  /-- The answer of the memory tier to `insert`. -/
  insert : ℕ → Option Pointer := fun _ => none
  /-- The dispatch map is not wired up, with this message. -/
  refuses : ℕ → Option String := fun _ => none
  /-- What other threads have done to the map before the call. -/
  others : ℕ → List (CacheKey × Option DispatchEntry) := fun _ => []
  /-- Which of several candidates a hash table offers first. -/
  pick : ℕ → ℕ := fun _ => 0
  /-- The order in which a hash table is walked. -/
  order : ℕ → List ℕ := fun _ => []
  /-- What the control channel gives after `Disconnect` for a peer. -/
  polls : PeerId → List Poll := fun _ => []

/-- The bytes of an entry. An entry on a block device keeps no more than its blocks. -/
def entryBytes (e : DispatchEntry) : UInt32 :=
  match e.location with
  | .memoryTier _ size _ => size
  | .blockDevice _ => e.sizeBlocks * 4096

/-- The elements of a list, each taken from where the next number says. -/
def arrange {α : Type} : List ℕ → List α → List α
  | [], xs => xs
  | c :: cs, xs =>
    match xs[c % xs.length]? with
    | none => []
    | some x => x :: arrange cs (xs.eraseIdx (c % xs.length))

namespace World

/-- An actor without operations. -/
def new (config : LookupConfig) (map : DispatchMap) : World where
  config := config
  ops := OrdMap.empty
  inFlight := OrdMap.empty
  orphans := OrdMap.empty
  map := map
  callers := OrdMap.empty
  running := true
  calls := 0
  serial := 0
  disconnects := 0
  log := []

variable (env : Env)

/-! ### Single steps -/

variable (w : World) (o : OpId) (from_ : PeerId) (peer : PeerId)

/-- Something has happened. -/
def record (act : Act) : World := { w with log := act :: w.log }

/-- A call has been answered. -/
def next : World := { w with calls := w.calls + 1 }

/-- Change an operation of the table. -/
def updOp (f : Operation → Operation) : World :=
  match w.ops.get? o with
  | some op => { w with ops := w.ops.insert o (f op) }
  | none => w

/-- The progress of a key of an operation. -/
def stateOf (w : World) (o : OpId) (key : CacheKey) : KeyState :=
  ((w.ops.get? o).map fun op => op.stateOf key).getD .unsatisfied

/-- Set the progress of a key of an operation. -/
def setState (w : World) (o : OpId) (key : CacheKey) (s : KeyState) : World :=
  match w.ops.get? o with
  | some op =>
    ({ w with ops := w.ops.insert o (op.setState key s) } : World).record
      (.turned o key (op.stateOf key) ((op.setState key s).stateOf key))
  | none => w

variable (key : CacheKey)

/-- The slot an operation has reserved for a key. -/
def slotOf : Option LandingSlot :=
  (w.ops.get? o).bind fun op => op.slots.get? key

/-- Take a slot out of its operation. -/
def dropSlot : World :=
  w.updOp o fun op => { op with slots := op.slots.erase key }

/-- Give a slot back to the memory tier. -/
def free (serial : ℕ) : World := w.record (.freed serial)

/-- Enter a slot that the memory tier has given. -/
def reserve (slot : LandingSlot) : World :=
  ((({ w with serial := w.serial + 1 } : World).record
    (.reserved slot.serial o key slot.peer)).updOp o fun op =>
      { op with slots := op.slots.insert key slot }).setState o key .inProgress

/-- Ask a peer to fill slots. -/
def advertise (slots : List (CacheKey × LandingSlot)) :
    World :=
  slots.foldl (fun w slot => w.record (.advertised slot.2.serial o slot.1 peer)) w

/-- The operation is the one that fetches the key. -/
def serve : World :=
  { w with inFlight := w.inFlight.insert key ⟨o, []⟩ }

/-- Wait along with the operation that fetches the key. -/
def follow (inf : InFlight) : World :=
  let inf := if inf.servingOp ≠ o ∧ o ∉ inf.followers then
    { inf with followers := inf.followers ++ [o] } else inf
  ({ w with inFlight := w.inFlight.insert key inf } : World).setState o key .inProgress

/-- Any of the candidates. -/
def choose (peers : List PeerId) : Option PeerId × World :=
  (peers[env.pick w.calls % peers.length]?, w.next)

/-- Answer the caller of an operation, if it still waits. -/
def answer (results : BatchResult) : World :=
  match w.callers.get? o with
  | some _ => ({ w with callers := w.callers.erase o } : World).record (.returned o results)
  | none => w

/-! ### The dispatch map -/

/-- Other threads have worked on the map. -/
def meanwhile : World :=
  { w with
    map := (env.others w.calls).foldl
      (fun m change => match change.2 with
        | some e => m.put change.1 e
        | none => m.delete change.1) w.map
    calls := w.calls + 1 }

/-- Note what the map holds for a key. -/
def observe : World :=
  match w.map.get? key with
  | some e => w.record (.holds key (entryBytes e))
  | none => w

/-- Create a dispatch-map entry. -/
def createMemoryTierEntry (w : World) (key : CacheKey) (addr : Pointer) (len : UInt32) :
    Except DispatchMapError Unit × World :=
  match env.refuses w.calls with
  | some msg => (.error (.notInitialized msg), w.meanwhile env)
  | none =>
    let w := w.meanwhile env
    let (r, map) := w.map.createMemoryTierEntry key addr len
    (r, ({ w with map } : World).observe key)

/-- Release the write reference of an entry. -/
def releaseWrite (w : World) (key : CacheKey) : World :=
  let w := w.meanwhile env
  { w with map := (w.map.releaseWrite key).2 }

/-- The size of an entry. -/
def entrySize (w : World) (key : CacheKey) : Except DispatchMapError UInt32 × World :=
  let w := w.meanwhile env
  (w.map.entrySize key, w.observe key)

/-! ### Completion -/

/-- The key has lost the operation that fetched it: those that wait along start over. -/
def abandon : World :=
  match w.inFlight.get? key with
  | none => w
  | some inf =>
    inf.followers.foldl
      (fun w f => if w.stateOf f key = .inProgress then w.setState f key .unsatisfied else w)
      ({ w with inFlight := w.inFlight.erase key } : World)

/-- The slots of an operation that ends without having published them. -/
def orphan (op : Operation) (deadline : ℕ) : World :=
  (op.slots.entries.filter fun e => decide (op.stateOf e.1 ≠ .satisfied)).foldl
    (fun w e => { w with orphans := w.orphans.insert e.1 ⟨e.2.peer, deadline, e.2.serial⟩ }) w

/-- End an operation. -/
def finalize : World :=
  match w.ops.get? o with
  | none => w
  | some op =>
    let w := { w with ops := w.ops.erase o }
    let served := (w.inFlight.entries.filter fun e => decide (e.2.servingOp = o)).map Prod.fst
    let w := served.foldl abandon w
    let w := { w with inFlight := w.inFlight.map fun inf : InFlight => inf.without o }
    let orphanDeadline := env.now w.calls + w.config.connectionTeardownTimeout
    (w.next.orphan op orphanDeadline).answer o op.results

/-- Look for a holder on disk for one key. -/
def phase2Key (o : OpId) (w : World) (key : CacheKey) : World :=
  match w.ops.get? o with
  | none => w
  | some op =>
    match op.sizeOf key with
    | none => w
    | some size =>
      match w.inFlight.get? key with
      | some inf => w.follow o key inf
      | none =>
        let (diskPeer, w) := w.choose env (op.holders key size .disk)
        match diskPeer with
        | none => w
        | some peer =>
          if (w.orphans.get? key).isSome then w
          else
            match env.insert w.calls with
            | none => w.next
            | some addr =>
              let slot : LandingSlot := ⟨addr, size, peer, w.serial⟩
              ((w.next.reserve o key slot).serve o key).advertise o peer [(key, slot)]

/-- Look for holders on disk for the keys that are still missing. -/
def tryPhase2 : World :=
  match w.ops.get? o with
  | none => w
  | some op =>
    ((op.entries.map Prod.fst).filter fun k => decide (op.stateOf k = .unsatisfied)).foldl
      (phase2Key env o) w

/-- Whether all peers have answered and nothing is being fetched. -/
def settled : Bool :=
  match w.ops.get? o with
  | none => false
  | some op =>
    decide (op.peersExpected ≤ op.peersReplied) &&
      !op.state.values.any fun s => decide (s = .inProgress)

/-- Drive an operation towards its end. -/
def advance : World :=
  match w.ops.get? o with
  | none => w
  | some op =>
    let pastPhase1 := op.phase1Deadline ≤ env.now w.calls
    let w := w.next
    if op.allSatisfied then w.finalize env o
    else if op.phase = .phase1 ∧ ¬(op.quorumReached w.config.quorumPct ∨ pastPhase1) then w
    else
      let w := (w.updOp o fun op => { op with phase := .phase2 }).tryPhase2 env o
      if w.settled o then w.finalize env o else w

/-- Drive all operations towards their end. -/
def checkAllCompletions : World :=
  (arrange (env.order w.calls) w.ops.keys).foldl (advance env) w.next

/-! ### Submissions and answers of peers -/

/-- Start an operation. -/
def onSubmit (entries : List (CacheKey × UInt32)) (peersExpected : ℕ) :
    World :=
  let now := env.now w.calls
  let op := Operation.new entries (now + w.config.opDeadline) (now + w.config.phase1Timeout)
    peersExpected
  let w := ({ w.next with
    ops := w.ops.insert o op
    callers := w.callers.insert o entries } : World).record (.submitted o entries)
  let w := (entries.toChunks (max w.config.maxKeysPerQuery 1)).foldl
    (fun w chunk => w.record (.shouted o chunk)) w
  if peersExpected = 0 then w.finalize env o else w

/-- One entry of a peer's answer: a hit in its memory is fetched, unless the key is being fetched
already or an orphaned slot of it may still be written to. -/
def considerEntry (o : OpId) (from_ : PeerId) (acc : World × List (CacheKey × LandingSlot))
    (e : CacheKey × UInt32 × Avail) : World × List (CacheKey × LandingSlot) :=
  let (w, slots) := acc
  let (key, size, avail) := e
  match w.ops.get? o with
  | none => (w, slots)
  | some op =>
    if avail = .memory ∧ op.stateOf key = .unsatisfied ∧ op.sizeOf key = some size then
      match w.inFlight.get? key with
      | some inf => (w.follow o key inf, slots)
      | none =>
        if (w.orphans.get? key).isSome then (w, slots)
        else
          match env.insert w.calls with
          | none => (w.next, slots)
          | some addr =>
            let slot : LandingSlot := ⟨addr, size, from_, w.serial⟩
            ((w.next.reserve o key slot).serve o key, slots ++ [(key, slot)])
    else (w, slots)

/-- A peer answers a query. -/
def onKeyResponse (o : OpId) (entries : List (CacheKey × UInt32 × Avail)) : World :=
  match w.ops.get? o with
  | none => w
  | some op =>
    let w := if (op.replies.get? from_).isNone then
      w.updOp o fun op => { op with peersReplied := op.peersReplied + 1 } else w
    let (w, slots) := entries.foldl (considerEntry env o from_) (w, [])
    let w := w.updOp o fun op => { op with replies := op.replies.insert from_ ⟨entries⟩ }
    (w.advertise o from_ slots).advance env o

/-! ### Statuses -/

/-- Publish a key that has been fetched. If another entry was there first, its size decides. -/
def publishSuccess : World :=
  match w.slotOf o key with
  | none => w
  | some slot =>
    match w.createMemoryTierEntry env key slot.addr slot.len with
    | (.ok (), w) =>
      (((w.record (.published slot.serial o key)).releaseWrite env key).record
        (.scheduled key slot.len)).setState o key .satisfied
    | (.error (.alreadyExists _), w) =>
      match w.entrySize env key with
      | (.ok size, w) =>
        if size = slot.len then w.setState o key .satisfied
        else ((w.dropSlot o key).free slot.serial).setState o key .unsatisfied
      | (.error _, w) => ((w.dropSlot o key).free slot.serial).setState o key .unsatisfied
    | (.error _, w) => w.setState o key .unsatisfied

/-- Turn to another peer with a key that could not be fetched. -/
def tryRetry : Bool × World :=
  match w.ops.get? o with
  | none => (false, w)
  | some op =>
    match op.sizeOf key with
    | none => (false, w)
    | some size =>
      if w.config.maxRetryRounds < ((op.tried.get? key).map List.length).getD 0 then (false, w)
      else
        let (inMemory, w) := w.choose env (op.holders key size .memory)
        let (onDisk, w) := w.choose env (op.holders key size .disk)
        match inMemory.or onDisk with
        | none => (false, w)
        | some alternate =>
          if (w.orphans.get? key).isSome then (false, w)
          else
            match env.insert w.calls with
            | none => (false, w.next)
            | some addr =>
              let slot : LandingSlot := ⟨addr, size, alternate, w.serial⟩
              (true, (w.next.reserve o key slot).advertise o alternate [(key, slot)])

/-- A status entry: the key, the code and the slot the peer reports on. -/
abbrev StatusEntry := CacheKey × RdmaStatusCode × Option ℕ

/-- The slot of a key could not be filled: it is given back. -/
def reclaim : World :=
  match w.slotOf o key with
  | some slot => (w.dropSlot o key).free slot.serial
  | none => w

/-- A key could not be fetched from a peer. -/
def failed (o : OpId) (key : CacheKey) : World :=
  ((w.reclaim o key).setState o key .unsatisfied).updOp o fun op => op.noteTried key from_

/-- A peer reports on a slot. -/
def reportOn (about : Option ℕ) : World :=
  match about with
  | some serial => w.record (.reported serial from_)
  | none => w

/-- One entry of a status of a live operation, with the outcome for those that wait along. -/
def statusEntry (from_ : PeerId) (o : OpId) (w : World) (e : StatusEntry) :
    World × Option (CacheKey × Bool) :=
  let (key, code, about) := e
  let w := w.reportOn from_ about
  match code with
  | .success =>
    let w := w.publishSuccess env o key
    (w, some (key, decide (w.stateOf o key = .satisfied)))
  | .unableToConnect | .keyNoLongerAvailable =>
    match (w.failed from_ o key).tryRetry env o key with
    | (true, w) => (w, none)
    | (false, w) => (w, some (key, false))

/-- The entries of a status one after the other, collecting the outcomes. -/
def statusEntries (from_ : PeerId) (o : OpId) (w : World) (entries : List StatusEntry) :
    World × List (CacheKey × Bool) :=
  match entries with
  | [] => (w, [])
  | e :: rest =>
    let (w, outcome) := w.statusEntry env from_ o e
    let (w, resolved) := statusEntries from_ o w rest
    (w, outcome.toList ++ resolved)

/-- The outcome of a fetch for the operations that waited along. -/
def settle (outcome : CacheKey × Bool) : World :=
  match w.inFlight.get? outcome.1 with
  | none => w
  | some inf =>
    inf.followers.foldl
      (fun w f => w.setState f outcome.1 (if outcome.2 then .satisfied else .unsatisfied))
      { w with inFlight := w.inFlight.erase outcome.1 }

/-- A late status frees the orphaned slot that was exposed to the peer. -/
def lateEntry (from_ : PeerId) (w : World) (e : StatusEntry) : World :=
  let (key, _, about) := e
  let w := w.reportOn from_ about
  match w.orphans.get? key with
  | some orphan =>
    if orphan.peer = from_ then
      ({ w with orphans := w.orphans.erase key } : World).free orphan.serial
    else w
  | none => w

/-- A peer reports how it got on. -/
def onRdmaStatus (o : OpId) (entries : List StatusEntry) : World :=
  match w.ops.get? o with
  | none => entries.foldl (lateEntry from_) w
  | some _ =>
    let (w, resolved) := w.statusEntries env from_ o entries
    (resolved.foldl settle w).checkAllCompletions env

/-! ### Teardown -/

/-- What the control channel gives until the actor stops waiting for the acknowledgement. -/
def awaited (peer : PeerId) : List Poll → List Poll
  | [] => []
  | .disconnectAck node fresh :: polls =>
    .disconnectAck node fresh :: if node = peer then [] else awaited peer polls
  | .empty expired :: polls => .empty expired :: if expired then [] else awaited peer polls
  | .closed :: _ => [.closed]

/-- Sever the connection to a peer and wait for the acknowledgement, for a bounded time. -/
def teardownPeer : World :=
  let index := w.disconnects
  let w := ({ w with disconnects := index + 1 } : World).record (.disconnect peer index)
  (awaited peer (env.polls peer)).foldl (fun w poll => match poll with
      | .disconnectAck node fresh => w.record (.acked node (if fresh then some index else none))
      | _ => w) w

/-- The slots exposed to a peer, of all operations. -/
def exposedInOps : List (OpId × CacheKey × ℕ) :=
  w.ops.entries.flatMap fun e =>
    (e.2.slots.entries.filter fun s => decide (s.2.peer = peer)).map fun s =>
      (e.1, s.1, s.2.serial)

/-- The keys of the orphaned slots exposed to a peer. -/
def exposedOrphans : List (CacheKey × ℕ) :=
  (w.orphans.entries.filter fun e => decide (e.2.peer = peer)).map fun e => (e.1, e.2.serial)

/-- A key that was to come from a departed peer is unsatisfied again. -/
def forsake (exposed : OpId × CacheKey × ℕ) : World :=
  let (o, key, _) := exposed
  let w := w.setState o key .unsatisfied
  match w.inFlight.get? key with
  | some inf =>
    if inf.servingOp = o then
      inf.followers.foldl (fun w f => w.setState f key .unsatisfied)
        { w with inFlight := w.inFlight.erase key }
    else w
  | none => w

/-- Give the slot of an operation back. -/
def releaseExposed (exposed : OpId × CacheKey × ℕ) : World :=
  (w.dropSlot exposed.1 exposed.2.1).free exposed.2.2

/-- Give an orphaned slot back. -/
def releaseOrphan (exposed : CacheKey × ℕ) : World :=
  ({ w with orphans := w.orphans.erase exposed.1 } : World).free exposed.2

/-- A peer has left. -/
def onExit : World :=
  let w := { w with ops := w.ops.map fun op : Operation => op.dropReply peer }
  let exposedInOps := w.exposedInOps peer
  let exposedOrphans := w.exposedOrphans peer
  let w := exposedInOps.foldl forsake w
  let w := if exposedInOps.isEmpty && exposedOrphans.isEmpty then w
    else exposedOrphans.foldl releaseOrphan
      (exposedInOps.foldl releaseExposed (w.teardownPeer env peer))
  w.checkAllCompletions env

/-! ### Time -/

/-- End the operations whose time is up, and start the second phase where the first is over. -/
def tickDeadlines : World :=
  let now := env.now w.calls
  let w := w.next
  let expired := (w.ops.entries.filter fun e => decide (e.2.deadline ≤ now)).map Prod.fst
  let w := (arrange (env.order w.calls) expired).foldl (finalize env) w.next
  let transition := (w.ops.entries.filter fun e =>
    decide (e.2.phase = .phase1 ∧ e.2.phase1Deadline ≤ now)).map Prod.fst
  (arrange (env.order w.calls) transition).foldl (advance env) w.next

/-- Free the orphaned slots of one peer whose grace has run out, after severing the peer. A peer
that a live operation depends on is left alone. -/
def reapPeer (now : ℕ) (w : World) (peer : PeerId) : World :=
  if w.ops.values.any fun op => op.slots.values.any fun s => decide (s.peer = peer) then w
  else
    let w := w.teardownPeer env peer
    let expired := (w.orphans.entries.filter fun e =>
      decide (e.2.peer = peer ∧ e.2.deadline ≤ now)).map fun e => (e.1, e.2.serial)
    expired.foldl releaseOrphan w

/-- Free the orphaned slots whose grace has run out. -/
def tickOrphans : World :=
  let now := env.now w.calls
  let w := w.next
  let peers := ((w.orphans.values.filter fun e => decide (e.deadline ≤ now)).map
    fun e => e.peer).dedup
  peers.foldl (reapPeer env now) w

/-- The actor is told to end. -/
def shutdown : World :=
  let w := (arrange (env.order w.calls) w.ops.keys).foldl (finalize env) w.next
  { w with running := false }

/-- What a caller returns without an answer of the actor. -/
def allNotFound (entries : List (CacheKey × UInt32)) : BatchResult :=
  entries.map fun _ => .error .notFound

/-- A caller gives up waiting; also what happens to all of them when the actor is gone. -/
def callerGivesUp : World :=
  match w.callers.get? o with
  | some entries => w.answer o (allNotFound entries)
  | none => w

/-- The node has stopped: the actor ends without looking back. -/
def stop : World :=
  let w := w.callers.keys.foldl callerGivesUp w
  { w with running := false, ops := OrdMap.empty }

end World

/-! ## Events -/

/-- What the actor reacts to. -/
inductive Event
  | submit (op : OpId) (entries : List (CacheKey × UInt32)) (peersExpected : ℕ)
  | keyResponse (from_ : PeerId) (op : OpId) (entries : List (CacheKey × UInt32 × Avail))
  | rdmaStatus (from_ : PeerId) (op : OpId) (entries : List World.StatusEntry)
  | exit (peer : PeerId)
  | tickDeadlines
  | tickOrphans
  | callerGivesUp (op : OpId)
  | shutdown
  | stop

namespace World

/-- The handler of an event. -/
def handle (env : Env) (w : World) : Event → World
  | .submit o entries peersExpected => w.onSubmit env o entries peersExpected
  | .keyResponse from_ o entries => w.onKeyResponse env from_ o entries
  | .rdmaStatus from_ o entries => w.onRdmaStatus env from_ o entries
  | .exit peer => w.onExit env peer
  | .tickDeadlines => w.tickDeadlines env
  | .tickOrphans => w.tickOrphans env
  | .callerGivesUp o => w.callerGivesUp o
  | .shutdown => w.shutdown env
  | .stop => w.stop

/-- Operations are numbered apart. -/
def fresh (w : World) : Event → Bool
  | .submit o _ _ => !w.log.any fun
      | .submitted o' _ => decide (o' = o)
      | _ => false
  | _ => true

/-- One event, with what comes from outside meanwhile. -/
def step (w : World) (e : Event × Env) : Option World :=
  if w.running && w.fresh e.1 then some (handle e.2 ({ w with calls := 0 } : World) e.1) else none

end World

end Certus.RemoteLookup
