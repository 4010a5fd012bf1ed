import Certus.BlockDevice.Commands
import Certus.Lib.History
import Certus.Lib.Run

/-! # The actors of the kernel and the file block device

`block-device-kernel` and `block-device-filesys`, `actor.rs`: one thread takes the commands of all
clients, hands reads and writes to the operating system through a ring, and answers as the entries
complete. The file device synchronises its data after each write, and without a ring does all reads
and writes itself.

* **`World.step`** — a step of a client, of the actor, or of the operating system. -/

namespace Certus.BlockDevice.Ring

/-- The kernel device, or the file device with or without a ring. -/
inductive Kind where
  | kernel
  | file (ring : Bool)
  deriving DecidableEq

def Kind.hasRing : Kind → Bool
  | .kernel => true
  | .file ring => ring

def Kind.isFile : Kind → Bool
  | .kernel => false
  | .file _ => true

/-- The tag that the device keeps for a command: the kernel device keeps none and answers with 0. -/
def Kind.keepTag : Kind → ℕ → ℕ
  | .kernel, _ => 0
  | .file _, tag => tag

/-- `DeviceConfig` -/
structure Config where
  blockSize : ℕ
  numBlocks : ℕ

/-- `validate_lba` -/
def Config.validateLba (c : Config) (nsId lba numBlocks : ℕ) : Except NvmeBlockError Unit :=
  if nsId ≠ 1 then
    .error (.invalidNamespace s!"ns_id {nsId} invalid; only ns_id=1 supported")
  else if 2 ^ 64 ≤ lba + numBlocks then
    .error (.lbaOutOfRange s!"lba {lba} + count {numBlocks} overflows")
  else if c.numBlocks < lba + numBlocks then
    .error (.lbaOutOfRange (s!"lba range [{lba}.." ++ toString (lba + numBlocks) ++
      ") exceeds device size " ++ toString c.numBlocks ++ " blocks"))
  else .ok ()

/-- The `user_data` of an entry: that of an operation is its handle, that of its data sync has the
highest bit set, and that of a cancellation is 0. -/
inductive UserData where
  | op (handle : ℕ)
  | sync (handle : ℕ)
  | cancel (handle : ℕ)
  deriving DecidableEq

/-- An entry at the operating system. The length is cut to 32 bits; `want` is the buffer's. -/
structure Entry where
  data : UserData
  offset : ℕ
  len : ℕ
  want : ℕ
  deriving DecidableEq

/-- `InflightOp` -/
structure InflightOp where
  handle : ℕ
  client : ℕ
  deadline : Option ℕ
  isRead : Bool
  tag : ℕ
  deriving DecidableEq

/-- A synchronous command of the kernel device waits for its entry, and holds its buffer. -/
structure Waiting where
  handle : ℕ
  client : ℕ
  kind : OpKind

/-- The actor with its surroundings. `agenda` holds the commands taken from a client and not carried
out yet. -/
structure World where
  kind : Kind
  config : Config
  clients : ℕ → Option (List Command)
  nextClient : ℕ
  inflight : List InflightOp
  nextHandle : ℕ
  agenda : List (ℕ × Command)
  waiting : Option Waiting
  entries : List Entry
  queue : List (UserData × ℤ)
  pendingCancels : List ℕ
  clock : ℕ
  log : List Act
  panicked : Bool

/-- What the operating system answers while a command is carried out: how many entries fit in the
submission queue, what a read or write returned, whether the data sync succeeded, the text of the
last error, and whether memory was to be had. -/
structure Io where
  room : ℕ
  ret : ℤ
  synced : Bool
  message : String
  memory : Bool

inductive Event where
  | connect
  | disconnect (client : ℕ)
  | submit (client : ℕ) (cmd : Command)
  | take (client : ℕ)
  | next (io : Io)
  | reap
  | harvest
  | checkTimeouts (cancels : ℕ)
  | complete (data : UserData) (res : ℤ)
  | tick (n : ℕ)

namespace World

def start (kind : Kind) (config : Config) : World :=
  ⟨kind, config, fun _ => none, 1, [], 1, [], none, [], [], [], 0, [], false⟩

variable (w : World) (client : ℕ)

def record (a : Act) : World := { w with log := a :: w.log }

/-- `send_completion`: a client that has left is sent nothing. -/
def sendCompletion (completion : Completion) (ends : Option ℕ) : World :=
  if (w.clients client).isSome then w.record (.sent client completion ends) else w

/-- The handle of the next command. -/
def nextOpHandle : World := { w with nextHandle := w.nextHandle + 1 }

def offsetForLba (lba : ℕ) : ℕ := lba * w.config.blockSize

/-- The read or write is made at once, and a write is followed by a data sync. -/
def transfer (client h tag : ℕ) (kind : OpKind) (lba : ℕ) (io : Io) : World :=
  if io.ret < 0 then
    w.sendCompletion client (kind.done h tag (.error (kind.failed io.message))) (some h)
  else
    let w := w.record (.moved h (w.offsetForLba lba) io.ret.toNat)
    if kind = .read then w.sendCompletion client (kind.done h tag (.ok ())) (some h)
    else if io.synced then
      (w.record (.synced h)).sendCompletion client (kind.done h tag (.ok ())) (some h)
    else w.sendCompletion client
      (kind.done h tag (.error (.writeFailed s!"fdatasync failed: {io.message}"))) (some h)

/-- An entry is pushed to the ring. -/
def push (h lba len : ℕ) : World :=
  { w with entries := w.entries ++ [⟨.op h, w.offsetForLba lba, len % 2 ^ 32, len⟩] }

def queueFull : NvmeBlockError := .notInitialized "io_uring submission queue full"

/-- The read, write or write-zeros is carried out before the next command: on the kernel device the
actor waits for its entry. -/
def carryOut (client h : ℕ) (kind : OpKind) (lba len : ℕ) (io : Io) : World :=
  match w.kind with
  | .kernel =>
    if io.room = 0 then w.sendCompletion client (kind.done h 0 (.error queueFull)) (some h)
    else { w.push h lba len with waiting := some ⟨h, client, kind⟩ }
  | .file _ => w.transfer client h 0 kind lba io

/-- `handle_read_sync`, `handle_write_sync` -/
def handleSync (kind : OpKind) (nsId lba len : ℕ) (io : Io) : World :=
  let h := w.nextHandle
  let w := w.nextOpHandle.record (.asked h ⟨client, 0, kind, false, lba, len⟩)
  match w.config.validateLba nsId lba (len / w.config.blockSize) with
  | .error e => w.sendCompletion client (kind.done h 0 (.error e)) (some h)
  | .ok () => w.carryOut client h kind lba len io

/-- `handle_write_zeros` -/
def handleWriteZeros (client nsId lba numBlocks : ℕ) (io : Io) : World :=
  let h := w.nextHandle
  let len := numBlocks * w.config.blockSize
  let w := w.nextOpHandle.record (.asked h ⟨client, 0, .zeros, false, lba, len⟩)
  match w.config.validateLba nsId lba numBlocks with
  | .error e => w.sendCompletion client (.writeZerosDone h (.error e)) (some h)
  | .ok () =>
    if io.memory then w.carryOut client h .zeros lba len io
    else w.sendCompletion client
      (.writeZerosDone h (.error (.writeFailed "posix_memalign failed"))) (some h)

/-- The command is in flight: it is in the table of the actor. -/
def insertInflight (op : InflightOp) : World :=
  { w with inflight := op :: w.inflight.filter (·.handle ≠ op.handle) }

/-- The file device links a data sync to a write; one that does not fit is only logged. -/
def pushSync (h : ℕ) (kind : OpKind) (io : Io) : World :=
  if w.kind.isFile ∧ kind = .write ∧ 2 ≤ io.room then
    { w with entries := w.entries ++ [⟨.sync h, 0, 0, 0⟩] } else w

/-- `handle_read_async`, `handle_write_async` -/
def handleAsync (kind : OpKind) (nsId lba len timeoutMs tag : ℕ) (io : Io) : World :=
  let h := w.nextHandle
  let kept := w.kind.keepTag tag
  let w := w.nextOpHandle.record (.asked h ⟨client, tag, kind, true, lba, len⟩)
  match w.config.validateLba nsId lba (len / w.config.blockSize) with
  | .error e => w.sendCompletion client (kind.done h kept (.error e)) (some h)
  | .ok () =>
    if w.kind.hasRing then
      if io.room = 0 then w.sendCompletion client (kind.done h kept (.error queueFull)) (some h)
      else ((w.push h lba len).pushSync h kind io).insertInflight
        ⟨h, client, if 0 < timeoutMs then some (w.clock + timeoutMs) else none, kind = .read, kept⟩
    else w.transfer client h kept kind lba io

/-- `handle_abort`: the entry is cancelled, if the cancellation fits, and the operation forgotten. The
acknowledgement answers the operation if it is the client's. -/
def handleAbort (client target : ℕ) (io : Io) : World :=
  let entries := if w.kind.hasRing ∧ 1 ≤ io.room then
    w.entries ++ [⟨.cancel target, 0, 0, 0⟩] else w.entries
  let own := w.inflight.any fun op => op.handle = target && op.client = client
  let w := { w.record (.abortAsked client target) with
    entries, inflight := w.inflight.filter (·.handle ≠ target) }
  w.sendCompletion client (.abortAck target) (if own then some target else none)

/-- `FlushSync`: the file device synchronises its data; on the kernel device every write is
synchronous. -/
def handleFlush (client nsId : ℕ) (io : Io) : World :=
  let h := w.nextHandle
  let w := w.nextOpHandle
  let result : Except NvmeBlockError Unit :=
    if nsId ≠ 1 then .error (.invalidNamespace s!"ns_id {nsId} invalid; only ns_id=1 supported")
    else if w.kind.isFile ∧ io.synced = false then
      .error (.writeFailed s!"fdatasync failed: {io.message}")
    else .ok ()
  w.sendCompletion client (.flushDone h result) none

def notSupported : Kind → NvmeBlockError
  | .kernel => .notSupported "operation not supported on kernel block device"
  | .file _ => .notSupported "operation not supported on file-backed device"

/-- `process_command`: the operations of a batch come first in the agenda. -/
def processCommand (io : Io) : Command → World
  | .readSync nsId lba buf => w.handleSync client .read nsId lba buf.len io
  | .writeSync nsId lba buf => w.handleSync client .write nsId lba buf.len io
  | .readAsync nsId lba buf timeoutMs tag =>
    w.handleAsync client .read nsId lba buf.len timeoutMs tag io
  | .writeAsync nsId lba buf timeoutMs tag =>
    w.handleAsync client .write nsId lba buf.len timeoutMs tag io
  | .writeZeros nsId lba numBlocks => w.handleWriteZeros client nsId lba numBlocks io
  | .batchSubmit ops => { w with agenda := ops.map (client, ·) ++ w.agenda }
  | .abortOp handle => w.handleAbort client handle io
  | .nsProbe => w.sendCompletion client (.nsProbeResult w.config.numBlocks w.config.blockSize) none
  | .flushSync nsId => w.handleFlush client nsId io
  | .nsCreate _ | .nsFormat _ _ | .nsDelete _ | .controllerReset =>
    w.sendCompletion client (.error none (notSupported w.kind)) none

/-- The result of an entry: any count is a success. -/
def entryResult (kind : OpKind) (res : ℤ) : Except NvmeBlockError Unit :=
  if res < 0 then .error (kind.failed ("io_uring error: " ++ toString (-res))) else .ok ()

/-- A completion of the ring is matched with the operation in flight. -/
def completeEntry (cqe : UserData × ℤ) : World :=
  match cqe.1 with
  | .op h => match w.inflight.find? (·.handle = h) with
      | some op =>
        let kind := if op.isRead then OpKind.read else OpKind.write
        { w with inflight := w.inflight.filter (·.handle ≠ h) }.sendCompletion op.client
          (kind.done h op.tag (entryResult kind cqe.2)) (some h)
      | none => w
  | _ => w

/-- `harvest_completions` -/
def harvestCompletions : World := w.queue.foldl completeEntry { w with queue := [] }

/-- One pass of `wait_for_cqe`: the others first, then the answer if the entry is there. -/
def waitForCqe (wait : Waiting) : World :=
  let others := w.queue.filter (·.1 ≠ .op wait.handle)
  let w' := others.foldl completeEntry { w with queue := [] }
  match w.queue.find? (·.1 = .op wait.handle) with
  | some (_, res) => { w' with waiting := none }.sendCompletion wait.client
      (wait.kind.done wait.handle 0 (entryResult wait.kind res)) (some wait.handle)
  | none => w'

/-- The deadline of the operation has passed. -/
def expired (op : InflightOp) : Bool := op.deadline.any (· ≤ w.clock)

/-- An operation is given up. -/
def giveUp (op : InflightOp) : World :=
  { w with
    inflight := w.inflight.filter (·.handle ≠ op.handle)
    pendingCancels := w.pendingCancels ++ [op.handle] }.sendCompletion op.client (.timeout op.handle)
    (some op.handle)

/-- `submit_pending_cancels`: as many cancellations as fit. The file device tries each of them once. -/
def submitPendingCancels (n : ℕ) : World :=
  { w with
    entries := w.entries ++ (w.pendingCancels.take n).map (⟨.cancel ·, 0, 0, 0⟩)
    pendingCancels := if w.kind.isFile then [] else w.pendingCancels.drop n }

/-- `check_timeouts` -/
def checkTimeouts (cancels : ℕ) : World :=
  ((w.inflight.filter w.expired).foldl giveUp w).submitPendingCancels cancels

/-- The operating system finishes an entry. A data sync succeeds only after its write. -/
def complete (e : Entry) (res : ℤ) : Option World :=
  let w' := { w with entries := w.entries.erase e, queue := w.queue ++ [(e.data, res)] }
  match e.data with
  | .op h => if res ≤ e.len then
      some (if res < 0 then w' else w'.record (.moved h e.offset res.toNat)) else none
  | .sync h => if res < 0 then some w'
      else if w.entries.any (·.data = .op h) then none else some (w'.record (.synced h))
  | .cancel _ => some w'

/-- The actor runs, and is between two commands. -/
def free : Bool := w.agenda.isEmpty && (w.waiting.isNone && !w.panicked)

/-- One step. -/
def step : Event → Option World
  | .connect => if w.free then
      some { w with
        clients := fun c => if c = w.nextClient then some [] else w.clients c
        nextClient := w.nextClient + 1 } else none
  | .disconnect client => if w.free then
      some { w with clients := fun c => if c = client then none else w.clients c } else none
  | .submit client cmd => match w.clients client with
      | some ingress => some { w with
          clients := fun c => if c = client then some (ingress ++ [cmd]) else w.clients c }
      | none => none
  | .take client => match w.free, w.clients client with
      | true, some (cmd :: rest) => some { w with
          clients := fun c => if c = client then some rest else w.clients c
          agenda := [(client, cmd)] }
      | _, _ => none
  | .next io => match w.panicked, w.waiting, w.agenda with
      | false, none, (client, cmd) :: rest => some
        -- `lock().expect` of a read's buffer, right after its handle is taken
        (if cmd.poisoned then { w with agenda := rest, panicked := true }
          else { w with agenda := rest }.processCommand client io cmd)
      | _, _, _ => none
  | .reap => w.waiting.map w.waitForCqe
  | .harvest => if w.free then some w.harvestCompletions else none
  | .checkTimeouts cancels => if w.free then some (w.checkTimeouts cancels) else none
  | .complete data res => match w.entries.find? (·.data = data) with
      | some e => w.complete e res
      | none => none
  | .tick n => some { w with clock := w.clock + n }

end World

end Certus.BlockDevice.Ring
