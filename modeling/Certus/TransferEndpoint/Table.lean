import Certus.Lib.OrdMap
import Mathlib.Data.List.Basic

/-! # The connection table of the transfer endpoint

One instance keeps at most one live link per peer, whichever end opened it. Peers are named by
numbers in the order of their names, links are numbered by the transport.

* **`beginTeardown`**, **`drain`**, **`finishTeardown`** — the three parts of a teardown.

What the transport answers is an argument of each operation. Send credits, counters and the message
buffers behind the work requests are left out. -/

namespace Certus.TransferEndpoint.Actor

open List Option

/-- An instance, by the rank of its name. -/
abbrev PeerId := ℕ

/-- A link, numbered by the transport. -/
abbrev LinkId := ℕ

/-! ## The log -/

/-- What became of one requested entry. -/
inductive EntryOutcome
  | hitMemoryTier
  | hitBlockTier
  | miss
  | failed
  deriving DecidableEq, Repr

/-- The errors a callback can get. -/
inductive TransferEndpointError
  | notInitialized (why : String)
  | deadline (why : String)
  | protocol (why : String)
  | incompatiblePeer (why : String)
  | transport (why : String)
  deriving DecidableEq, Repr

/-- A request of the local caller, by its number. -/
inductive Request
  | fetch (id : ℕ)
  | push (id : ℕ)
  deriving DecidableEq, Repr

/-- The argument of a callback. -/
inductive CallResult
  | ok (outcomes : List EntryOutcome)
  | err (why : TransferEndpointError)
  deriving DecidableEq, Repr

/-- What happens at the endpoint. -/
inductive Act
  /-- The caller asks for so many entries. -/
  | requested (request : Request) (entries : ℕ)
  /-- A chunk of a fetch is posted on a link to the peer. -/
  | posted (fetch : ℕ) (peer : PeerId) (link : LinkId)
  /-- A link was put into ERROR with success. -/
  | forced (link : LinkId)
  /-- Every outstanding work request of a link in ERROR has come back. -/
  | drained (link : LinkId)
  /-- A link is destroyed. -/
  | closed (link : LinkId)
  /-- The callback of a request is invoked. -/
  | called (request : Request) (result : CallResult)
  /-- `Disconnect` answers `Ok`. -/
  | disconnected (peer : PeerId)
  /-- An OP_FETCH arrives on the connection of a link. -/
  | received (request : ℕ) (link : LinkId)
  /-- Its answer is queued on the connection of a link. -/
  | answered (request : ℕ) (link : LinkId)
  /-- Its answer is posted on a link. -/
  | transmitted (request : ℕ) (link : LinkId)
  deriving DecidableEq, Repr

/-! ## Entries -/

/-- What keeps the source of a posted write in place: the entry's pin, or a bounce buffer. -/
inductive Hold
  | pin
  | buffer
  deriving DecidableEq, Repr

/-- The state held for a work request until its completion. -/
inductive Work
  /-- The write of one entry of a push. -/
  | push (id index : ℕ) (hold : Hold)
  /-- A message being sent. -/
  | send
  /-- A posted receive. -/
  | recv
  deriving DecidableEq, Repr

/-- A link with its outstanding work requests. -/
structure OpenLink where
  link : LinkId
  slab : List Work
  deriving DecidableEq, Repr

/-- The end that opened a link. -/
inductive Initiator
  | localEnd
  | peerEnd
  deriving DecidableEq, Repr

/-- The link in service; an accepted one is `up` once established. -/
structure Live where
  link : LinkId
  initiator : Initiator
  up : Bool
  slab : List Work
  deriving DecidableEq, Repr

/-- What the table holds for a peer. -/
structure Entry where
  /-- Our outbound attempt, not yet established. -/
  pending : Option OpenLink := none
  live : Option Live := none
  /-- Links out of service that wait for the drain. -/
  draining : List OpenLink := []
  deriving DecidableEq, Repr

/-- Nothing is held. -/
def Entry.isEmpty (e : Entry) : Bool :=
  e.pending.isNone && e.live.isNone && e.draining.isEmpty

/-- The links in service or waiting for the drain. -/
def Entry.links (e : Entry) : List LinkId :=
  e.live.toList.map Live.link ++ e.draining.map OpenLink.link

/-- The work requests outstanding on these links. -/
def Entry.outstanding (e : Entry) : List Work :=
  e.live.toList.flatMap Live.slab ++ e.draining.flatMap OpenLink.slab

/-- The entry with everything out of service. -/
def Entry.retired (e : Entry) : Entry :=
  { draining := e.draining ++ e.live.toList.map fun l => ⟨l.link, l.slab⟩ }

/-- The entry has the link, in whatever state. -/
def Entry.holds (e : Entry) (link : LinkId) : Bool :=
  e.pending.any (fun p => p.link = link) || e.live.any (fun l => l.link = link)
    || e.draining.any (fun d => d.link = link)

/-! ## The table -/

/-- The connection table. -/
structure Table where
  localPeer : PeerId
  entries : OrdMap PeerId Entry
  /-- The links the device has in ERROR. -/
  inError : List LinkId
  nextLink : LinkId
  log : List Act

namespace Table

section

variable (t : Table) (p : PeerId)

/-- The entry of a peer; a peer the table does not know has an empty one. -/
def entry : Entry := (t.entries.get? p).getD {}

/-- Store the entry of a peer, forgetting it when it is empty. -/
def put (e : Entry) : Table :=
  { t with entries := if e.isEmpty then t.entries.erase p else t.entries.insert p e }

/-- The peer a link belongs to. -/
def ownerOf (link : LinkId) : Option PeerId :=
  (t.entries.entries.find? fun x => x.2.holds link).map Prod.fst

/-- Something happens. -/
def record (a : Act) : Table := { t with log := a :: t.log }

/-! ### Connecting -/

/-- Whether a link is ready to carry work. -/
inductive Readiness
  | ready
  | connecting
  deriving DecidableEq, Repr

/-- Why `ensure` refuses. -/
inductive TableError
  | selfConnect
  | draining (peer : PeerId)
  | transport (why : String)
  deriving DecidableEq, Repr

/-- The text of an error. -/
def TableError.text : TableError → String
  | .selfConnect => "cannot connect to the local instance"
  | .draining p => s!"connection to {p} is still being torn down"
  | .transport why => why

/-- Make sure the peer is connected or connecting. `connect` is the transport's answer: the number
of receives posted with the attempt, or why it cannot be made. -/
def ensure (connect : Except String ℕ) : Except TableError Readiness × Table :=
  if p = t.localPeer then (.error .selfConnect, t) else
  match (t.entry p).live with
  | some l => (.ok (if l.up then .ready else .connecting), t)
  | none =>
    if (t.entry p).pending.isSome then (.ok .connecting, t)
    else if (t.entry p).draining ≠ [] then (.error (.draining p), t)
    else match connect with
      | .error why => (.error (.transport why), t)
      | .ok recvs =>
        (.ok .connecting,
          { t.put p { t.entry p with
              pending := some ⟨t.nextLink, replicate recvs .recv⟩ } with
            nextLink := t.nextLink + 1 })

/-! ### Teardown -/

/-- The transport's answer to forcing a link to ERROR: done, or failed with the link in ERROR or
not. -/
inductive ToError
  | done
  | failed (landed : Bool)
  deriving DecidableEq, Repr

/-- Abandon our outbound attempt: its link is destroyed. -/
def dropPending : Table :=
  match (t.entry p).pending with
  | none => t
  | some pd => (t.put p { t.entry p with pending := none }).record (.closed pd.link)

/-- Force the live link to ERROR and move it to the draining ones, whatever the transport says. -/
def retire (l : Live) (toError : ToError) : Table :=
  let t := t.put p { t.entry p with
    live := none, draining := (t.entry p).draining ++ [⟨l.link, l.slab⟩] }
  match toError with
  | .done => { t with inError := l.link :: t.inError, log := .forced l.link :: t.log }
  | .failed true => { t with inError := l.link :: t.inError }
  | .failed false => t

/-- Start tearing a peer down; the flag says whether every transport call succeeded. -/
def beginTeardown (toError : ToError) : Table × Bool :=
  let t := t.dropPending p
  match (t.entry p).live with
  | none => (t, true)
  | some l => (t.retire p l toError, toError = .done)

/-- What a drain leaves: the links with what is still outstanding, the works that came back, the
links that ran dry, and whether none was left over. -/
structure Drained where
  links : List OpenLink
  released : List Work
  dry : List LinkId
  complete : Bool

/-- Drain links one after the other, up to the first that cannot be. `io` tells for each link how
many completions come back, or `none` when its state cannot be read. A link that the device does not
have in ERROR is not drained. -/
def drainLinks (inError : List LinkId) (io : LinkId → Option ℕ) : List OpenLink → Drained
  | [] => ⟨[], [], [], true⟩
  | d :: ds =>
    match io d.link with
    | none => ⟨d :: ds, [], [], false⟩
    | some n =>
      if d.link ∉ inError then ⟨d :: ds, [], [], false⟩
      else if n < d.slab.length then
        ⟨{ d with slab := d.slab.drop n } :: ds, d.slab.take n, [], false⟩
      else
        let r := drainLinks inError io ds
        ⟨{ d with slab := [] } :: r.links, d.slab ++ r.released, d.link :: r.dry, r.complete⟩

/-- Drain every draining link of a peer. -/
def drain (io : LinkId → Option ℕ) : Table × List Work × Bool :=
  let r := drainLinks t.inError io (t.entry p).draining
  ({ t.put p { t.entry p with draining := r.links } with
      log := r.dry.map .drained ++ t.log }, r.released, r.complete)

/-- The two parts of a teardown before its links are destroyed. -/
def quench (r : ToError) (io : LinkId → Option ℕ) : Table × List Work × Bool :=
  (t.beginTeardown p r).1.drain p io

/-- Destroy the draining links of a peer; refused while one of them still holds state. -/
def finishTeardown : Option Table :=
  if ((t.entry p).draining.map fun d => d.slab.length).sum = 0 then
    some { t.put p { t.entry p with draining := [] } with
      log := (t.entry p).draining.map (fun d => .closed d.link) ++ t.log }
  else none

/-! ### Events of the transport -/

/-- Why a connect request is turned away. -/
inductive RejectReason
  | malformedIdentity
  | draining
  | duplicate
  deriving DecidableEq, Repr

/-- Why an outbound connect did not produce a link. -/
inductive ConnectFailure
  | unreachable (reason : String)
  | rejected (reason : Option RejectReason)
  | nameMismatch (dialed : PeerId) (answered : Option PeerId)
  | disconnected
  deriving DecidableEq, Repr

/-- An event of the transport. A connect request carries the name its sender claims, an
establishment the name the acceptor answers with, if they can be decoded. -/
inductive TransportEvent
  | connectRequest (claimed : Option PeerId)
  | established (link : LinkId) (answered : Option PeerId)
  | rejected (link : LinkId) (reason : Option RejectReason)
  | connectError (link : LinkId) (reason : String)
  | disconnected (link : LinkId)
  deriving DecidableEq, Repr

/-- What the table tells its owner. -/
inductive TableEvent
  | up (peer : PeerId)
  | down (peer : PeerId)
  | failed (peer : PeerId) (reason : ConnectFailure)
  | lostTieBreak (peer : PeerId)
  | refusedInbound (peer : Option PeerId) (reason : RejectReason)
  deriving DecidableEq, Repr

/-- The transport's answers while an event is handled: to an accept the receives posted with it, or
`none` when it fails, and to forcing a link to ERROR. -/
structure HandleIo where
  accept : Option ℕ
  toError : ToError

/-- Abandon the outbound attempt that has the link, naming its peer. -/
def takePending (link : LinkId) : Option (PeerId × Table) :=
  match t.ownerOf link with
  | none => none
  | some p =>
    if (t.entry p).pending.map OpenLink.link = some link then some (p, t.dropPending p) else none

/-- Retire the live link and report it down. Without ERROR late writes stay possible, so the process
is aborted then (`none`). -/
def takeDown (toError : ToError) : Option (Table × List TableEvent) :=
  match (t.entry p).live with
  | none => some (t, [])
  | some l => if toError = .done then some (t.retire p l .done, [.down p]) else none

/-- Accept a peer's request, if the transport does. -/
def accept : Option ℕ → Table
  | none => t
  | some recvs =>
    { t.put p { t.entry p with
        live := some ⟨t.nextLink, .peerEnd, false, replicate recvs .recv⟩ } with
      nextLink := t.nextLink + 1 }

/-- A connect request. Of two simultaneous attempts the one whose initiator has the lower name
survives; a request that cannot be the loser of such a race replaces the live link. -/
def onRequest (claimed : Option PeerId) (io : HandleIo) : Option (Table × List TableEvent) :=
  match claimed with
  | none => some (t, [.refusedInbound none .malformedIdentity])
  | some p =>
    if p = t.localPeer then some (t, [.refusedInbound (some p) .malformedIdentity]) else
    match (t.entry p).live with
    | none =>
      if (t.entry p).draining ≠ [] then some (t, [.refusedInbound (some p) .draining])
      else if (t.entry p).pending.isSome ∧ ¬p < t.localPeer then
        some (t, [.refusedInbound (some p) .duplicate])
      else some ((t.dropPending p).accept p io.accept, [])
    | some l =>
      if l.initiator = .localEnd ∧ ¬p < t.localPeer then
        some (t, [.refusedInbound (some p) .duplicate])
      else (t.takeDown p io.toError).map fun r => (r.1.accept p io.accept, r.2)

/-- A link is established: the one we accepted, or our own attempt, if the acceptor answers to the
name we dialed. -/
def onEstablished (link : LinkId) (answered : Option PeerId) : Table × List TableEvent :=
  match t.ownerOf link with
  | none => (t, [])
  | some p =>
    match (t.entry p).live.filter (fun l => l.link = link), (t.entry p).pending with
    | some l, _ => (t.put p { t.entry p with live := some { l with up := true } }, [.up p])
    | none, none => (t, [])
    | none, some pd =>
      if pd.link ≠ link then (t, [])
      else if answered ≠ some p then
        (t.dropPending p, [.failed p (.nameMismatch p answered)])
      else
        (t.put p { t.entry p with
          pending := none, live := some ⟨link, .localEnd, true, pd.slab⟩ }, [.up p])

/-- Handle one event of the transport; `none` when the process is aborted. -/
def handle (io : HandleIo) : TransportEvent → Option (Table × List TableEvent)
  | .connectRequest claimed => t.onRequest claimed io
  | .established link answered => some (t.onEstablished link answered)
  | .rejected link reason =>
    match t.takePending link with
    | none => some (t, [])
    | some (p, t) =>
      if reason = some .duplicate then some (t, [.lostTieBreak p])
      else some (t, [.failed p (.rejected reason)])
  | .connectError link reason =>
    match t.takePending link with
    | none => some (t, [])
    | some (p, t) => some (t, [.failed p (.unreachable reason)])
  | .disconnected link =>
    match t.ownerOf link with
    | none => some (t, [])
    | some p =>
      match t.takePending link with
      | some (_, t) => some (t, [.failed p .disconnected])
      | none =>
        if (t.entry p).live.any (fun l => l.link = link) then t.takeDown p io.toError
        else some (t, [])

end

/-! ## Reading the table after its operations -/

/-- An entry without links is the empty one. -/
theorem eq_empty_of_isEmpty {e : Entry} (h : e.isEmpty) : e = {} := by
  obtain ⟨pending, live, draining⟩ := e
  simp only [Entry.isEmpty, Bool.and_eq_true, isNone_iff_eq_none, List.isEmpty_iff] at h
  obtain ⟨⟨rfl, rfl⟩, rfl⟩ := h
  rfl

section

variable (t : Table)

theorem entry_put (p q : PeerId) (e : Entry) :
    (t.put p e).entry q = if q = p then e else t.entry q := by
  by_cases hempty : e.isEmpty
  · have hentries : (t.put p e).entries = t.entries.erase p := if_pos hempty
    rw [entry, hentries, OrdMap.get?_erase]
    by_cases hq : q = p
    · rw [if_pos hq, if_pos hq, eq_empty_of_isEmpty hempty]
      rfl
    · rw [if_neg hq, if_neg hq]
      rfl
  · have hentries : (t.put p e).entries = t.entries.insert p e := if_neg hempty
    rw [entry, hentries, OrdMap.get?_insert]
    by_cases hq : q = p
    · rw [if_pos hq, if_pos hq]
      rfl
    · rw [if_neg hq, if_neg hq]
      rfl

end

variable {p : PeerId} {t t' : Table} {out : List TableEvent} {ds : List OpenLink}
  {inError : List LinkId} {io : LinkId → Option ℕ} {r : ToError}

theorem dropPending_of_none (h : (t.entry p).pending = none) : t.dropPending p = t := by
  rw [dropPending, h]

theorem entry_dropPending (t : Table) (p q : PeerId) : (t.dropPending p).entry q
      = if q = p then { t.entry p with pending := none } else t.entry q := by
  cases hpending : (t.entry p).pending with
  | none =>
    rw [dropPending_of_none hpending]
    by_cases hq : q = p
    · subst hq
      rw [if_pos rfl, ← hpending]
    · rw [if_neg hq]
  | some pd =>
    rw [dropPending, hpending]
    exact entry_put ..

/-- Giving up an attempt destroys its link. -/
theorem log_dropPending {pd : OpenLink} (h : (t.entry p).pending = some pd) :
    (t.dropPending p).log = .closed pd.link :: t.log := by
  rw [dropPending, h]
  rfl

theorem entry_retire (t : Table) (p q : PeerId) (l : Live) (r : ToError) :
    (t.retire p l r).entry q = if q = p then { t.entry p with
      live := none, draining := (t.entry p).draining ++ [⟨l.link, l.slab⟩] } else t.entry q := by
  rcases r with _ | ⟨_ | _⟩ <;> exact entry_put ..

/-- What `takePending` finds is the outbound attempt of the peer it names. -/
theorem takePending_eq_some {link : LinkId} (h : t.takePending link = some (p, t')) :
    t' = t.dropPending p ∧ ∃ pd, (t.entry p).pending = some pd := by
  rw [takePending] at h
  split at h
  · cases h
  split_ifs at h with hpending
  cases h
  obtain ⟨pd, hpd, -⟩ := map_eq_some_iff.mp hpending
  exact ⟨rfl, pd, hpd⟩

/-! ### What an event does -/

/-- What handling an event can do to the table, with the reports it gives. -/
inductive Handled (t : Table) (io : HandleIo) : Table → List TableEvent → Prop
  /-- The event is stale. -/
  | ignored : Handled t io t []
  /-- A request is turned away. -/
  | refused (claimed : Option PeerId) (reason : RejectReason) :
      Handled t io t [.refusedInbound claimed reason]
  /-- Our attempt fails. -/
  | dropped {p : PeerId} {pd : OpenLink} (reason : ConnectFailure)
      (hpending : (t.entry p).pending = some pd) :
      Handled t io (t.dropPending p) [.failed p reason]
  /-- Our attempt lost the race. -/
  | lost (p : PeerId) : Handled t io (t.dropPending p) [.lostTieBreak p]
  /-- A request is accepted, if the transport does, in place of our attempt. -/
  | accepted {p : PeerId} (hlive : (t.entry p).live = none) :
      Handled t io ((t.dropPending p).accept p io.accept) []
  /-- A request is accepted in place of the live link. -/
  | replaced {p : PeerId} {l : Live} (hlive : (t.entry p).live = some l) :
      Handled t io ((t.retire p l .done).accept p io.accept) [.down p]
  /-- The link we accepted is established. -/
  | raised {p : PeerId} {l : Live} (hlive : (t.entry p).live = some l) :
      Handled t io (t.put p { t.entry p with live := some { l with up := true } }) [.up p]
  /-- Our attempt is established. -/
  | opened {p : PeerId} {pd : OpenLink} (hpending : (t.entry p).pending = some pd) :
      Handled t io (t.put p { t.entry p with
        pending := none, live := some ⟨pd.link, .localEnd, true, pd.slab⟩ }) [.up p]
  /-- The live link is lost. -/
  | downed {p : PeerId} {l : Live} (hlive : (t.entry p).live = some l) :
      Handled t io (t.retire p l .done) [.down p]

theorem handled_of_onRequest {io : HandleIo} {claimed : Option PeerId}
    (h : t.onRequest claimed io = some (t', out)) : Handled t io t' out := by
  cases claimed with
  | none =>
    cases h
    exact .refused _ _
  | some p =>
    rw [onRequest] at h
    split at h
    · cases h
      exact .refused _ _
    cases hlive : (t.entry p).live with
    | none =>
      rw [hlive] at h
      dsimp only at h
      split_ifs at h <;> cases h
      · exact .refused _ _
      · exact .refused _ _
      · exact .accepted hlive
    | some l =>
      rw [hlive] at h
      dsimp only at h
      split_ifs at h
      · cases h
        exact .refused _ _
      · rw [takeDown, hlive] at h
        split_ifs at h <;> cases h
        exact .replaced hlive

theorem handled_of_onEstablished (t : Table) (io : HandleIo) (link : LinkId)
    (answered : Option PeerId) :
    Handled t io (t.onEstablished link answered).1 (t.onEstablished link answered).2 := by
  rw [onEstablished]
  cases t.ownerOf link with
  | none => exact .ignored
  | some p =>
    dsimp only
    cases hlive : (t.entry p).live.filter fun l => l.link = link with
    | some l => exact .raised (filter_eq_some_iff.mp hlive).1
    | none =>
      cases hpending : (t.entry p).pending with
      | none => exact .ignored
      | some pd =>
        dsimp only
        split_ifs with hlink
        · exact .ignored
        · exact .dropped _ hpending
        · obtain rfl : pd.link = link := not_not.mp hlink
          exact .opened hpending

/-- **What the table can do.** Handling an event ends in one of the ways above. -/
theorem handled_of_handle {io : HandleIo} {ev : TransportEvent}
    (h : t.handle io ev = some (t', out)) : Handled t io t' out := by
  cases ev with
  | connectRequest claimed => exact handled_of_onRequest h
  | established link answered =>
    obtain ⟨rfl, rfl⟩ := Prod.mk.inj (some.inj h)
    exact handled_of_onEstablished t io link answered
  | rejected link reason =>
    rw [handle] at h
    split at h
    · cases h
      exact .ignored
    rename_i p t₁ htake
    obtain ⟨rfl, pd, hpending⟩ := takePending_eq_some htake
    split_ifs at h <;> cases h
    · exact .lost p
    · exact .dropped _ hpending
  | connectError link reason =>
    rw [handle] at h
    split at h <;> cases h
    · exact .ignored
    · rename_i p t₁ htake
      obtain ⟨rfl, pd, hpending⟩ := takePending_eq_some htake
      exact .dropped _ hpending
  | disconnected link =>
    rw [handle] at h
    cases howner : t.ownerOf link with
    | none =>
      rw [howner] at h
      cases h
      exact .ignored
    | some p =>
      rw [howner, takePending, howner] at h
      dsimp only at h
      by_cases hpending : (t.entry p).pending.map OpenLink.link = some link
      · rw [if_pos hpending] at h
        cases h
        obtain ⟨pd, hpd, -⟩ := map_eq_some_iff.mp hpending
        exact .dropped _ hpd
      rw [if_neg hpending, takeDown] at h
      cases hlive : (t.entry p).live with
      | none =>
        rw [hlive] at h
        cases h
        exact .ignored
      | some l =>
        rw [hlive] at h
        dsimp only at h
        split_ifs at h <;> cases h
        · exact .downed hlive
        · exact .ignored

/-- Asking for a connection leaves the table alone, or starts an attempt with a peer it has no link
to. -/
inductive Ensured (t : Table) (p : PeerId) : Except TableError Readiness × Table → Prop
  | refused (e : TableError) : Ensured t p (.error e, t)
  | linked (r : Readiness) : Ensured t p (.ok r, t)
  | started (recvs : ℕ) (hlive : (t.entry p).live = none) (hdraining : (t.entry p).draining = []) :
      Ensured t p (.ok .connecting,
        { t.put p { t.entry p with
            pending := some ⟨t.nextLink, replicate recvs .recv⟩ } with
          nextLink := t.nextLink + 1 })

theorem ensure_cases (t : Table) (p : PeerId) (connect : Except String ℕ) :
    Ensured t p (t.ensure p connect) := by
  rw [ensure.eq_def]
  split
  · exact .refused _
  cases hlive : (t.entry p).live with
  | some l => exact .linked _
  | none =>
    dsimp only
    split
    · exact .linked _
    by_cases hdraining : (t.entry p).draining = []
    · rw [if_neg (not_not_intro hdraining)]
      cases connect with
      | error why => exact .refused _
      | ok recvs => exact .started recvs hlive hdraining
    · rw [if_pos hdraining]
      exact .refused _

theorem entry_accept (t : Table) (p q : PeerId) (recvs : ℕ) :
    (t.accept p (some recvs)).entry q = if q = p then { t.entry p with
      live := some ⟨t.nextLink, .peerEnd, false, replicate recvs .recv⟩ } else t.entry q :=
  entry_put ..

/-! ### What a teardown does -/

/-- Retiring a live link keeps the links and the work requests. -/
theorem links_retired (e : Entry) : e.retired.links.Perm e.links := by
  simp only [Entry.links, Entry.retired, toList_none, map_nil, nil_append, map_append, List.map_map]
  exact perm_append_comm

theorem entry_beginTeardown (t : Table) (p q : PeerId) (r : ToError) :
    (t.beginTeardown p r).1.entry q = if q = p then (t.entry p).retired else t.entry q := by
  have hdrop := entry_dropPending t p
  rw [beginTeardown]
  cases hlive : ((t.dropPending p).entry p).live with
  | none =>
    have hnone : (t.entry p).live = none := by
      rw [hdrop, if_pos rfl] at hlive
      exact hlive
    refine (hdrop q).trans ?_
    by_cases hq : q = p
    · rw [if_pos hq, if_pos hq, Entry.retired, hnone, toList_none, map_nil, append_nil, ← hnone]
    · rw [if_neg hq, if_neg hq]
  | some l =>
    have hsome : (t.entry p).live = some l := by
      rw [hdrop, if_pos rfl] at hlive
      exact hlive
    refine (entry_retire (t.dropPending p) p q l r).trans ?_
    by_cases hq : q = p
    · rw [if_pos hq, if_pos hq, hdrop, if_pos rfl, Entry.retired, hsome]
      rfl
    · rw [if_neg hq, if_neg hq, hdrop, if_neg hq]

/-- The acts of a teardown: a link is forced to ERROR, drained or destroyed. -/
def LinkActs (acts : List Act) : Prop :=
  ∀ a ∈ acts, ∃ link, a = .forced link ∨ a = .drained link ∨ a = .closed link

theorem LinkActs.append {acts acts' : List Act} (h : LinkActs acts) (h' : LinkActs acts') :
    LinkActs (acts ++ acts') := fun a ha =>
  (mem_append.mp ha).elim (h a) (h' a)

section

variable (t : Table) (p : PeerId)

theorem exists_log_dropPending : ∃ acts, (t.dropPending p).log = acts ++ t.log ∧ LinkActs acts := by
  cases hpending : (t.entry p).pending with
  | none => exact ⟨[], by rw [dropPending_of_none hpending]; rfl, fun _ ha => nomatch ha⟩
  | some pd =>
    refine ⟨[.closed pd.link], log_dropPending hpending, fun a ha => ⟨pd.link, ?_⟩⟩
    exact .inr (.inr (mem_singleton.mp ha))

theorem exists_log_retire (l : Live) (r : ToError) :
    ∃ acts, (t.retire p l r).log = acts ++ t.log ∧ LinkActs acts := by
  rcases r with _ | ⟨_ | _⟩
  · refine ⟨[.forced l.link], rfl, fun a ha => ⟨l.link, ?_⟩⟩
    exact .inl (mem_singleton.mp ha)
  · exact ⟨[], rfl, fun _ ha => nomatch ha⟩
  · exact ⟨[], rfl, fun _ ha => nomatch ha⟩

theorem exists_log_beginTeardown (r : ToError) :
    ∃ acts, (t.beginTeardown p r).1.log = acts ++ t.log ∧ LinkActs acts := by
  obtain ⟨acts, hlog, hacts⟩ := exists_log_dropPending t p
  rw [beginTeardown]
  cases ((t.dropPending p).entry p).live with
  | none => exact ⟨acts, hlog, hacts⟩
  | some l =>
    obtain ⟨acts', hlog', hacts'⟩ := exists_log_retire (t.dropPending p) p l r
    refine ⟨acts' ++ acts, ?_, hacts'.append hacts⟩
    rw [hlog', hlog, append_assoc]

end

theorem drainLinks_links (inError : List LinkId) (io : LinkId → Option ℕ) (ds : List OpenLink) :
    (drainLinks inError io ds).links.map OpenLink.link = ds.map OpenLink.link := by
  induction ds with
  | nil => rfl
  | cons d ds ih =>
    rw [drainLinks]
    cases io d.link with
    | none => rfl
    | some n =>
      dsimp only
      split_ifs
      · rfl
      · simp only [map_cons, ih]
      · rfl

/-- A complete drain leaves every link dry. -/
theorem drainLinks_complete (h : (drainLinks inError io ds).complete) :
    (drainLinks inError io ds).links.flatMap OpenLink.slab = []
      ∧ (drainLinks inError io ds).dry = ds.map OpenLink.link := by
  induction ds with
  | nil => exact ⟨rfl, rfl⟩
  | cons d ds ih =>
    rw [drainLinks] at h ⊢
    cases hio : io d.link with
    | none =>
      rw [hio] at h
      cases h
    | some n =>
      rw [hio] at h
      dsimp only at h ⊢
      split_ifs at h ⊢
      obtain ⟨hslabs, hdry⟩ := ih h
      simp only [flatMap_cons, nil_append, map_cons, hdry, hslabs, and_self]

/-- Links that are in ERROR and give all their completions drain. -/
theorem drainLinks_complete_of (h : ∀ d ∈ ds, d.link ∈ inError ∧ ∃ n, io d.link = some n ∧
      d.slab.length ≤ n) : (drainLinks inError io ds).complete := by
  induction ds with
  | nil => rfl
  | cons d ds ih =>
    obtain ⟨herror, n, hio, hn⟩ := h d mem_cons_self
    rw [drainLinks, hio]
    dsimp only
    rw [if_neg (not_not_intro herror), if_neg (Nat.not_lt.mpr hn)]
    exact ih fun d hd => h d (mem_cons_of_mem _ hd)

theorem entry_drain (t : Table) (p q : PeerId) (io : LinkId → Option ℕ) :
    (t.drain p io).1.entry q = if q = p then { t.entry p with
      draining := (drainLinks t.inError io (t.entry p).draining).links } else t.entry q :=
  entry_put ..

theorem exists_log_drain (t : Table) (p : PeerId) (io : LinkId → Option ℕ) :
    ∃ acts, (t.drain p io).1.log = acts ++ t.log ∧ LinkActs acts := by
  refine ⟨_, rfl, fun a ha => ?_⟩
  obtain ⟨link, -, rfl⟩ := mem_map.mp ha
  exact ⟨link, .inr (.inl rfl)⟩

section

variable (t : Table) (p : PeerId) (r : ToError) (io : LinkId → Option ℕ)

/-- Whatever stops a teardown, the peer keeps its links, out of service. -/
theorem entry_quench :
    ∃ links : List OpenLink, links.map OpenLink.link = (t.entry p).retired.links ∧
      ∀ q, (t.quench p r io).1.entry q = if q = p then { draining := links } else t.entry q := by
  refine ⟨_, drainLinks_links (t.beginTeardown p r).1.inError io (t.entry p).retired.draining,
    fun q => ?_⟩
  rw [quench, entry_drain]
  by_cases hq : q = p
  · rw [if_pos hq, if_pos hq, entry_beginTeardown, if_pos rfl]
    rfl
  · rw [if_neg hq, if_neg hq, entry_beginTeardown, if_neg hq]

theorem exists_log_quench : ∃ acts, (t.quench p r io).1.log = acts ++ t.log ∧ LinkActs acts := by
  obtain ⟨acts, hlog, hacts⟩ := exists_log_beginTeardown t p r
  obtain ⟨acts', hlog', hacts'⟩ := exists_log_drain (t.beginTeardown p r).1 p io
  exact ⟨acts' ++ acts, by rw [quench, hlog', hlog, append_assoc], hacts'.append hacts⟩

/-- A teardown takes no link out of ERROR. -/
theorem inError_quench : t.inError ⊆ (t.quench p r io).1.inError := by
  have hdrop : (t.dropPending p).inError = t.inError := by
    rw [dropPending]
    cases (t.entry p).pending <;> rfl
  show t.inError ⊆ (t.beginTeardown p r).1.inError
  rw [beginTeardown]
  cases ((t.dropPending p).entry p).live with
  | none => rw [hdrop]; exact List.Subset.refl _
  | some l =>
    rw [← hdrop]
    rcases r with _ | ⟨_ | _⟩
    · exact subset_cons_self _ _
    · exact List.Subset.refl _
    · exact subset_cons_self _ _

end

/-- A complete drain releases every work request. -/
theorem outstanding_quench_of_complete (h : (t.quench p r io).2.2) :
    ((t.quench p r io).1.entry p).outstanding = [] := by
  obtain ⟨hslabs, -⟩ := drainLinks_complete h
  have hentry := entry_drain (t.beginTeardown p r).1 p p io
  have hbegun := entry_beginTeardown t p p r
  rw [if_pos rfl] at hentry hbegun
  rw [quench, hentry, Entry.outstanding, hslabs, hbegun]
  rfl

/-- What a teardown that succeeds leaves. -/
structure TornDown (t : Table) (p : PeerId) (t' : Table) : Prop where
  entry : ∀ q, t'.entry q = if q = p then {} else t.entry q
  inError : t.inError ⊆ t'.inError
  log : ∃ acts, t'.log = acts ++ t.log ∧ LinkActs acts
  done : ∀ link ∈ (t.entry p).links, .drained link ∈ t'.log ∧ .closed link ∈ t'.log

/-- **The barrier.** Once a complete drain is followed by the destruction of the links, every link
of the peer has run dry and is gone. -/
theorem tornDown_of_finishTeardown (hdrained : (t.quench p r io).2.2)
    (h : (t.quench p r io).1.finishTeardown p = some t') : TornDown t p t' := by
  have hentry := entry_beginTeardown t p
  have hlinks := drainLinks_links (t.beginTeardown p r).1.inError io (t.entry p).retired.draining
  have hretired : (t.beginTeardown p r).1.entry p = (t.entry p).retired := by
    rw [hentry, if_pos rfl]
  have hcomplete : (drainLinks (t.beginTeardown p r).1.inError io
      (t.entry p).retired.draining).complete := by
    rw [← hretired]
    exact hdrained
  obtain ⟨-, hdry⟩ := drainLinks_complete hcomplete
  obtain ⟨acts, hacts, hlinkacts⟩ := exists_log_quench t p r io
  rw [finishTeardown] at h
  split_ifs at h
  cases h
  refine ⟨fun q => ?_, inError_quench t p r io,
    ⟨_ ++ acts, by rw [append_assoc, ← hacts], ?_⟩, fun link hlink => ?_⟩
  · refine (entry_put ..).trans ?_
    by_cases hq : q = p
    · rw [if_pos hq, if_pos hq, quench, entry_drain, if_pos rfl, hretired]
      rfl
    · rw [if_neg hq, if_neg hq, quench, entry_drain, if_neg hq, hentry, if_neg hq]
  · refine LinkActs.append (fun a ha => ?_) hlinkacts
    obtain ⟨d, -, rfl⟩ := mem_map.mp ha
    exact ⟨d.link, .inr (.inr rfl)⟩
  · have hmem : link ∈ (t.entry p).retired.draining.map OpenLink.link :=
      (links_retired (t.entry p)).mem_iff.mpr hlink
    constructor
    · refine mem_append_right _ ?_
      refine mem_append_left _ (mem_map_of_mem ?_)
      rw [hretired, hdry]
      exact hmem
    · refine mem_append_left _ ?_
      rw [quench, entry_drain, if_pos rfl, hretired]
      rw [← hlinks] at hmem
      obtain ⟨d, hd, rfl⟩ := mem_map.mp hmem
      exact mem_map.mpr ⟨d, hd, rfl⟩

/-- A complete drain leaves nothing that stops the destruction of the links. -/
theorem finishTeardown_isSome (hdrained : (t.quench p r io).2.2) :
    ((t.quench p r io).1.finishTeardown p).isSome := by
  have hempty := outstanding_quench_of_complete hdrained
  have hsum : (((t.quench p r io).1.entry p).draining.map fun d => d.slab.length).sum = 0 := by
    rw [← length_flatMap, (append_eq_nil_iff.mp hempty).2]
    rfl
  rw [finishTeardown, if_pos hsum]
  rfl

/-- The transport lets a teardown of the peer succeed: forcing the live link to ERROR works, the
links already retired are in ERROR, and every outstanding request comes back. -/
def TeardownOk (t : Table) (p : PeerId) (r : ToError) (io : LinkId → Option ℕ) : Prop :=
  (∀ l ∈ (t.entry p).live, r = .done ∧ ∃ n ∈ io l.link, l.slab.length ≤ n) ∧
    ∀ d ∈ (t.entry p).draining, d.link ∈ t.inError ∧ ∃ n ∈ io d.link, d.slab.length ≤ n

instance (t : Table) (p : PeerId) (r : ToError) (io : LinkId → Option ℕ) :
    Decidable (TeardownOk t p r io) :=
  inferInstanceAs (Decidable (_ ∧ _))

theorem TeardownOk.succeeds (h : TeardownOk t p r io) :
    (t.beginTeardown p r).2 ∧ (t.quench p r io).2.2 := by
  obtain ⟨hlive, hdraining⟩ := h
  have hdrop := entry_dropPending t p p
  rw [if_pos rfl] at hdrop
  have hretired := entry_beginTeardown t p p r
  rw [if_pos rfl] at hretired
  have hcomplete : ∀ inError, (∀ d ∈ (t.entry p).draining, d.link ∈ inError) →
      (∀ l ∈ (t.entry p).live, l.link ∈ inError) →
      (drainLinks inError io (t.entry p).retired.draining).complete := by
    intro inError hold hnew
    refine drainLinks_complete_of fun d hd => ?_
    rcases mem_append.mp hd with hd | hd
    · obtain ⟨-, n, hn⟩ := hdraining d hd
      exact ⟨hold d hd, n, hn⟩
    · obtain ⟨l, hl, rfl⟩ := mem_map.mp hd
      have hl : l ∈ (t.entry p).live := mem_toList.mp hl
      obtain ⟨-, n, hn⟩ := hlive l hl
      exact ⟨hnew l hl, n, hn⟩
  have hquench : (t.quench p r io).2.2
      = (drainLinks (t.beginTeardown p r).1.inError io (t.entry p).retired.draining).complete := by
    rw [← hretired]
    rfl
  rw [hquench]
  have hdropped : (t.dropPending p).inError = t.inError := by
    rw [dropPending]
    cases (t.entry p).pending <;> rfl
  rw [beginTeardown]
  cases hl : (t.entry p).live with
  | none =>
    have hnone : ((t.dropPending p).entry p).live = none := by
      rw [hdrop]
      exact hl
    rw [hnone]
    refine ⟨rfl, hcomplete _ (fun d hd => ?_) fun l hl' => ?_⟩
    · rw [hdropped]
      exact (hdraining d hd).1
    · rw [hl] at hl'
      cases hl'
  | some l =>
    have hsome : ((t.dropPending p).entry p).live = some l := by
      rw [hdrop]
      exact hl
    obtain ⟨rfl, -⟩ := hlive l hl
    rw [hsome]
    refine ⟨rfl, hcomplete _ (fun d hd => ?_) fun l' hl' => ?_⟩
    · refine mem_cons_of_mem _ ?_
      show d.link ∈ (t.dropPending p).inError
      rw [hdropped]
      exact (hdraining d hd).1
    · rw [hl] at hl'
      cases hl'
      exact mem_cons_self

end Table

end Certus.TransferEndpoint.Actor
