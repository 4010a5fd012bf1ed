import Certus.BlockDevice.Answers
import Certus.Lib.Run

/-! # The actor of the NVMe block device

`block-device-spdk-nvme`, `actor.rs`: one thread takes the commands of all clients and hands reads and
writes to the controller, whose completions it collects by polling. The operations in flight are kept
for each client with a reference to their buffer.

* **`World.step`** — a step of a client, of the actor, or of the controller. -/

namespace Certus.BlockDevice.Nvme

/-- `PendingOp`, with the client whose table holds it. -/
structure PendingOp where
  handle : ℕ
  client : ℕ
  tag : ℕ
  deadline : ℕ
  kind : OpKind
  buf : Buffer
  aborting : Bool
  deriving DecidableEq

/-- A command at the controller, with the context for its completion. -/
structure DeviceOp where
  handle : ℕ
  client : ℕ
  kind : OpKind
  buf : Buffer
  deriving DecidableEq

/-- `AsyncCompletionEntry` -/
structure CompletionEntry where
  handle : ℕ
  client : ℕ
  kind : OpKind
  result : Except NvmeBlockError Unit

/-- The actor with its surroundings. `agenda` holds the commands taken from a client and not carried
out yet, each with whether it was sent by itself or in a batch. -/
structure World where
  ticksPerMs : ℕ
  clients : ℕ → Option (List Command)
  nextClient : ℕ
  pending : List PendingOp
  nextHandle : ℕ
  agenda : List (ℕ × Bool × Command)
  device : List DeviceOp
  completions : List CompletionEntry
  clock : ℕ
  panicked : Bool
  log : List Act

/-- What the controller answers while a command is carried out: whether the namespace takes the range,
what submitting returned, the result of a command that is waited for, and what namespaces there are. -/
structure Io where
  valid : Except NvmeBlockError Unit
  rc : ℤ
  result : Except NvmeBlockError Unit
  nsId : ℕ
  numSectors : ℕ
  sectorSize : ℕ

inductive Event where
  | connect
  | disconnect (client : ℕ)
  | submit (client : ℕ) (cmd : Command)
  | take (client : ℕ)
  | next (io : Io)
  | collect (handle : ℕ) (result : Except NvmeBlockError Unit)
  | drain
  | checkTimeouts
  | tick (n : ℕ)

namespace World

def start (ticksPerMs : ℕ) : World :=
  ⟨ticksPerMs, fun _ => none, 1, [], 1, [], [], [], 0, false, []⟩

variable (w : World) (client : ℕ)

def record (a : Act) : World := { w with log := a :: w.log }

/-- A client that has left is sent nothing. -/
def deliver (completion : Completion) (ends : Option ℕ) : World :=
  if (w.clients client).isSome then w.record (.sent client completion ends) else w

/-- The next handle. -/
def allocHandle : World := { w with nextHandle := w.nextHandle + 1 }

/-- `deadline_from_ms`, in 64 bits. -/
def deadlineFromMs (ms : ℕ) : ℕ := (w.clock + ms * w.ticksPerMs) % 2 ^ 64

/-- A read, write or write-zeros that is waited for. -/
def doSync (kind : OpKind) (lba len : ℕ) (io : Io) : World :=
  let h := w.nextHandle
  (w.allocHandle.record (.asked h ⟨client, 0, kind, false, lba, len⟩)).deliver client
    (kind.done h 0 io.result) (some h)

/-- `ReadAsync`, `WriteAsync`: the operation is in the table before it is submitted, and leaves it if
the controller does not take it. -/
def doAsync (kind : OpKind) (lba : ℕ) (buf : Buffer) (timeoutMs tag : ℕ) (io : Io) : World :=
  let h := w.nextHandle
  let w := w.allocHandle.record (.asked h ⟨client, tag, kind, true, lba, buf.len⟩)
  match io.valid with
  | .error e => w.deliver client (kind.done h tag (.error e)) (some h)
  | .ok () =>
    if io.rc = 0 then
      { w with
        pending := ⟨h, client, tag, w.deadlineFromMs timeoutMs, kind, buf, false⟩ :: w.pending
        device := ⟨h, client, kind, buf⟩ :: w.device }
    else w.deliver client (kind.done h tag (.error (kind.failed
      ("async submit failed with rc=" ++ toString io.rc)))) (some h)

/-- The operations of a client with the handle; there is at most one. -/
def isOp (client handle : ℕ) (op : PendingOp) : Bool := op.handle = handle && op.client = client

/-- `AbortOp`: the operation stays in the table until the controller reports it, and the
acknowledgement with it. -/
def abortOp (client handle : ℕ) : World :=
  let w := w.record (.abortAsked client handle)
  if w.pending.any (isOp client handle) then
    { w with pending := w.pending.map fun op =>
        if isOp client handle op then { op with aborting := true } else op }
  else w.deliver client (.abortAck handle) none

/-- An operation is ended because of a reset. -/
def cancelOp (op : PendingOp) : World :=
  { w with pending := w.pending.filter (·.handle ≠ op.handle) }.deliver op.client
    (.error (some op.handle) (.aborted "cancelled due to controller reset")) (some op.handle)

/-- `handle_controller_reset`: the operations of all clients end, and then the controller is reset. -/
def handleControllerReset (io : Io) : World :=
  (w.pending.foldl cancelOp w).deliver client (.resetDone io.result) none

/-- The answer to a command on namespaces. -/
def answerNs (done : Completion) (io : Io) : World :=
  w.deliver client (match io.result with | .ok () => done | .error e => .error none e) none

/-- `dispatch_command`, with `ControllerReset` intercepted if it was not in a batch. -/
def dispatchCommand (top : Bool) (io : Io) : Command → World
  | .readSync _ lba buf => w.doSync client .read lba buf.len io
  | .writeSync _ lba buf => w.doSync client .write lba buf.len io
  | .readAsync _ lba buf timeoutMs tag => w.doAsync client .read lba buf timeoutMs tag io
  | .writeAsync _ lba buf timeoutMs tag => w.doAsync client .write lba buf timeoutMs tag io
  | .writeZeros _ lba numBlocks => w.doSync client .zeros lba numBlocks io
  | .flushSync _ => w.allocHandle.deliver client (.flushDone w.nextHandle io.result) none
  | .batchSubmit ops => { w with agenda := ops.map (client, false, ·) ++ w.agenda }
  | .abortOp handle => w.abortOp client handle
  | .nsProbe => w.deliver client (.nsProbeResult io.numSectors io.sectorSize) none
  | .nsCreate _ => w.answerNs client (.nsCreated io.nsId) io
  | .nsFormat nsId _ => w.answerNs client (.nsFormatted nsId) io
  | .nsDelete nsId => w.answerNs client (.nsDeleted nsId) io
  | .controllerReset => if top then w.handleControllerReset client io else { w with panicked := true }

/-- A collected completion ends its operation, unless the operation has ended already. -/
def handleCompletion (e : CompletionEntry) : World :=
  if (w.clients e.client).isSome then
    match w.pending.find? (isOp e.client e.handle) with
    | some op =>
      { w with pending := w.pending.filter (·.handle ≠ e.handle) }.deliver e.client
        (if op.aborting then .abortAck e.handle else e.kind.done e.handle op.tag e.result)
        (some e.handle)
    | none => w
  else w

/-- The completions collected so far are handled. -/
def drain : World := w.completions.foldl handleCompletion { w with completions := [] }

/-- An operation is given up. -/
def giveUp (op : PendingOp) : World :=
  { w with pending := w.pending.filter (·.handle ≠ op.handle) }.deliver op.client
    (.timeout op.handle) (some op.handle)

/-- `check_timeouts` -/
def checkTimeouts : World :=
  (w.pending.filter fun op => decide (op.deadline ≤ w.clock)).foldl giveUp w

/-- The actor is between two commands. -/
def free : Bool := w.agenda.isEmpty && !w.panicked

/-- One step. -/
def step : Event → Option World
  | .connect => if w.free then
      some { w with
        clients := fun c => if c = w.nextClient then some [] else w.clients c
        nextClient := w.nextClient + 1 } else none
  | .disconnect client => if w.free then
      some { w with
        clients := fun c => if c = client then none else w.clients c
        pending := w.pending.filter (·.client ≠ client) } else none
  | .submit client cmd => match w.clients client with
      | some ingress => some { w with
          clients := fun c => if c = client then some (ingress ++ [cmd]) else w.clients c }
      | none => none
  | .take client => match w.free, w.clients client with
      | true, some (cmd :: rest) => some { w with
          clients := fun c => if c = client then some rest else w.clients c
          agenda := [(client, true, cmd)] }
      | _, _ => none
  | .next io => match w.panicked, w.agenda with
      | false, (client, top, cmd) :: rest =>
        some ({ w with agenda := rest }.dispatchCommand client top io cmd)
      | _, _ => none
  | .collect handle result => match w.device.find? (·.handle = handle) with
      | some d => some { w with
          device := w.device.erase d
          completions := w.completions ++ [⟨d.handle, d.client, d.kind, result⟩] }
      | none => none
  | .drain => if w.free then some w.drain else none
  | .checkTimeouts => if w.free then some w.checkTimeouts else none
  | .tick n => some { w with clock := w.clock + n }

/-- The table as far as answers depend on it. -/
def table : List Pending :=
  w.pending.map fun op => ⟨op.handle, op.client, op.tag, op.kind, op.aborting⟩

def connected : Bool := (w.clients client).isSome

end World

end Certus.BlockDevice.Nvme
