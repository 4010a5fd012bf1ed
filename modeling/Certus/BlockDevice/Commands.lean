import Mathlib.Data.List.Basic
import Mathlib.Tactic.Linarith

/-! # Commands and completions of the block devices

`iblock_device.rs`: the messages between the clients of a block device and its actor. -/

namespace Certus.BlockDevice

inductive NvmeBlockError where
  | invalidNamespace (message : String)
  | lbaOutOfRange (message : String)
  | notInitialized (message : String)
  | notSupported (message : String)
  | aborted (message : String)
  | readFailed (message : String)
  | writeFailed (message : String)
  | probeFailure (message : String)
  deriving DecidableEq, Repr

/-- A DMA buffer, shared by reference. `poisoned` says that a thread panicked with its lock held. -/
structure Buffer where
  name : ℕ
  len : ℕ
  poisoned : Bool
  deriving DecidableEq, Repr

/-- `Command`. The commands on namespaces carry nothing that the devices' answers depend on here. -/
inductive Command where
  | readSync (nsId lba : ℕ) (buf : Buffer)
  | writeSync (nsId lba : ℕ) (buf : Buffer)
  | readAsync (nsId lba : ℕ) (buf : Buffer) (timeoutMs tag : ℕ)
  | writeAsync (nsId lba : ℕ) (buf : Buffer) (timeoutMs tag : ℕ)
  | writeZeros (nsId lba numBlocks : ℕ)
  | batchSubmit (ops : List Command)
  | abortOp (handle : ℕ)
  | nsProbe
  | nsCreate (sizeSectors : ℕ)
  | nsFormat (nsId lbaf : ℕ)
  | nsDelete (nsId : ℕ)
  | controllerReset
  | flushSync (nsId : ℕ)

/-- The lock of the buffer, which only a read takes, is poisoned. -/
def Command.poisoned : Command → Bool
  | .readSync _ _ buf | .readAsync _ _ buf _ _ => buf.poisoned
  | _ => false

/-- `Completion` -/
inductive Completion where
  | readDone (handle tag : ℕ) (result : Except NvmeBlockError Unit)
  | writeDone (handle tag : ℕ) (result : Except NvmeBlockError Unit)
  | writeZerosDone (handle : ℕ) (result : Except NvmeBlockError Unit)
  | flushDone (handle : ℕ) (result : Except NvmeBlockError Unit)
  | abortAck (handle : ℕ)
  | timeout (handle : ℕ)
  | error (handle : Option ℕ) (error : NvmeBlockError)
  | nsProbeResult (numSectors sectorSize : ℕ)
  | nsCreated (nsId : ℕ)
  | nsFormatted (nsId : ℕ)
  | nsDeleted (nsId : ℕ)
  | resetDone (result : Except NvmeBlockError Unit)

/-- What a command moves. -/
inductive OpKind where
  | read
  | write
  | zeros
  deriving DecidableEq, Repr

/-- The answer to a read, write or write-zeros. -/
def OpKind.done (kind : OpKind) (handle tag : ℕ) (result : Except NvmeBlockError Unit) : Completion :=
  match kind with
  | .read => .readDone handle tag result
  | .write => .writeDone handle tag result
  | .zeros => .writeZerosDone handle result

/-- The error of a failed transfer. -/
def OpKind.failed (kind : OpKind) (message : String) : NvmeBlockError :=
  match kind with
  | .read => .readFailed message
  | _ => .writeFailed message

/-- The answer says that the transfer succeeded. -/
def Completion.isOk : Completion → Bool
  | .readDone _ _ (.ok _) | .writeDone _ _ (.ok _) | .writeZerosDone _ (.ok _) => true
  | _ => false

/-- An accepted read, write or write-zeros, by the client and with the tag it came with. -/
structure Request where
  client : ℕ
  tag : ℕ
  kind : OpKind
  async : Bool
  lba : ℕ
  len : ℕ
  deriving DecidableEq, Repr

/-- What happened at a device: a command was accepted under a handle, the device moved bytes of it or
synchronised the data after it, a client asked for an abort, and a client was sent a completion, which
answers the command `ends`. -/
inductive Act where
  | asked (handle : ℕ) (request : Request)
  | moved (handle offset n : ℕ)
  | synced (handle : ℕ)
  | abortAsked (client handle : ℕ)
  | sent (client : ℕ) (completion : Completion) (ends : Option ℕ)

end Certus.BlockDevice
