import Certus.BlockDevice.NvmeAnswers
import Certus.BlockDevice.RingAnswers

/-! # One answer for each command, on all three devices

The tables of the actors are what they owe: in every state that a run reaches, each asynchronous read
or write of a connected client is in the table and at the device, or has been answered once, on the
client's channel and with its tag; each abort was acknowledged or is in the table; and no actor has
panicked. -/

namespace Certus.BlockDevice

/-- What holds between the commands of the kernel and the file device. -/
structure Ring.World.Answering (w : Ring.World) : Prop where
  running : w.panicked = false
  answered : Answered w.log w.table w.connected
  atDevice : ∀ op ∈ w.inflight, (∃ e ∈ w.entries, e.data = .op op.handle) ∨
    ∃ q ∈ w.queue, q.1 = .op op.handle

/-- What holds between the commands of the NVMe device. -/
structure Nvme.World.Answering (w : Nvme.World) : Prop where
  running : w.panicked = false
  answered : Answered w.log w.table w.connected
  atDevice : ∀ op ∈ w.pending, (∃ d ∈ w.device, d.handle = op.handle ∧ d.client = op.client) ∨
    ∃ e ∈ w.completions, e.handle = op.handle ∧ e.client = op.client

/-- **Every command is answered once**: on the kernel and the file device if a client aborts only its
own operations, the kernel device is given no tags and no buffer to read into has a poisoned lock; on the NVMe device if no reset comes in a batch
and no operation that is being aborted is ended otherwise than by its completion. -/
theorem one_answer_each (kind : Ring.Kind) (config : Ring.Config) (ticksPerMs : ℕ) :
    (∀ es w, Run Ring.World.step Ring.World.NextAnswerable
      (Ring.World.start kind config) es w → w.Answering) ∧
    (∀ es w, Run Nvme.World.step
      (fun w e => w.nestedReset e = false ∧ w.NextAnswerable e) (Nvme.World.start ticksPerMs) es w →
      w.Answering) := by
  refine ⟨fun es w hrun => ?_, fun es w hrun => ?_⟩
  · have h : Ring.World.Accounted [] w := hrun.invariant (I := Ring.World.Accounted []) (.start kind config)
      fun _ _ _ h hguard hnext => h.step hguard hnext
    exact ⟨h.running, h.books.answered, h.atDevice⟩
  · have h : Nvme.World.Sound True [] w := hrun.invariant (I := Nvme.World.Sound True [])
      (.start True ticksPerMs)
      fun _ _ _ h hguard hnext => h.step hguard.1 (fun _ => hguard.2) hnext
    exact ⟨h.running, h.books.answered, h.atDevice⟩

section Examples

/-- A read of one block. -/
def readOne (tag : ℕ) : Command := .readAsync 1 0 ⟨0, 512, false⟩ 0 tag

def ringIo : Ring.Io := ⟨8, 512, true, "", true⟩

def nvmeIo : Nvme.Io := ⟨.ok (), 0, .ok (), 1, 8, 512⟩

/-- The number of answers of the handle. -/
def answersOf (log : List Act) (h : ℕ) : ℕ := log.countP (Act.answers h)

/-- A client of the file device aborts its own read while one of another client is in flight; a client
of the NVMe device aborts its read, which then completes. -/
def ringAbort : List Ring.Event :=
  [.connect, .connect, .submit 1 (readOne 7), .take 1, .next ringIo, .submit 2 (readOne 8), .take 2,
    .next ringIo, .submit 2 (.abortOp 2), .take 2, .next ringIo, .complete (.op 1) 512, .harvest]

def nvmeAbort : List Nvme.Event :=
  [.connect, .submit 1 (readOne 7), .take 1, .next nvmeIo, .submit 1 (.abortOp 1), .take 1,
    .next nvmeIo, .collect 1 (.ok ()), .drain]

theorem one_answer_each_after_aborts :
    (∃ w, Run Ring.World.step Ring.World.NextAnswerable (.start (.file true) ⟨512, 8⟩) ringAbort w ∧
      answersOf w.log 1 = 1 ∧ answersOf w.log 2 = 1 ∧ w.Answering) ∧
    (∃ w, Run Nvme.World.step (fun w e => w.nestedReset e = false ∧ w.NextAnswerable e) (.start 1)
      nvmeAbort w ∧ answersOf w.log 1 = 1 ∧ w.Answering) := by
  constructor
  · refine exists_run_and_of_checkedExec
      (fun w => decide (answersOf w.log 1 = 1 ∧ answersOf w.log 2 = 1)) (by decide +kernel)
      fun hrun hw => ?_
    obtain ⟨h1, h2⟩ := of_decide_eq_true hw
    exact ⟨h1, h2, (one_answer_each _ _ 1).1 _ _ hrun⟩
  · refine exists_run_and_of_checkedExec (fun w => decide (answersOf w.log 1 = 1))
      (by decide +kernel) fun hrun hw => ⟨of_decide_eq_true hw, ?_⟩
    exact (one_answer_each .kernel ⟨512, 8⟩ _).2 _ _ hrun

/-- A read of the kernel device with a tag. -/
def kernelTag : List Ring.Event :=
  [.connect, .submit 1 (readOne 7), .take 1, .next ringIo, .complete (.op 1) 512, .harvest]

/-- A client of the file device aborts the read of another one. -/
def foreignAbort : List Ring.Event :=
  [.connect, .connect, .submit 1 (readOne 7), .take 1, .next ringIo, .submit 2 (.abortOp 1), .take 2,
    .next ringIo, .complete (.op 1) 512, .harvest]

/-- A client of the NVMe device sends a reset in a batch. -/
def batchedReset : List Nvme.Event :=
  [.connect, .submit 1 (.batchSubmit [.controllerReset]), .take 1, .next nvmeIo, .next nvmeIo]

/-- A client sends a read into a buffer whose lock is poisoned. -/
def poisonedRead : List Ring.Event :=
  [.connect, .submit 1 (.readSync 1 0 ⟨0, 512, true⟩), .take 1, .next ringIo]

/-- The completion carries the tag. -/
def hasTag (tag : ℕ) : Act → Bool
  | .sent _ (.readDone _ t _) _ => t = tag
  | _ => false

/-- The kernel device answers without the tag; another client's abort leaves a read without an answer;
a reset in a batch ends the NVMe device's actor, and a read with a poisoned buffer that of the others. -/
theorem answers_go_wrong : (∃ w, Run Ring.World.step anyStep (.start .kernel ⟨512, 8⟩) kernelTag w ∧
      answersOf w.log 1 = 1 ∧ w.log.any (hasTag 7) = false) ∧
    (∃ w, Run Ring.World.step anyStep (.start (.file true) ⟨512, 8⟩) foreignAbort w ∧
      w.connected 1 ∧ w.table = [] ∧ answersOf w.log 1 = 0) ∧
    (∃ w, Run Nvme.World.step anyStep (.start 1) batchedReset w ∧ w.panicked) ∧
    (∃ w, Run Ring.World.step anyStep (.start .kernel ⟨512, 8⟩) poisonedRead w ∧ w.panicked) ∧
    ∃ w, Run Ring.World.step anyStep (.start (.file true) ⟨512, 8⟩) poisonedRead w ∧ w.panicked := by
  exact ⟨exists_run_of_decide (by decide +kernel), exists_run_of_decide (by decide +kernel),
    exists_run_of_decide (by decide +kernel), exists_run_of_decide (by decide +kernel),
    exists_run_of_decide (by decide +kernel)⟩

end Examples

end Certus.BlockDevice
