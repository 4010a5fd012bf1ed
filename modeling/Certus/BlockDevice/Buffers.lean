import Certus.BlockDevice.NvmeAnswers
import Certus.BlockDevice.RingAnswers

/-! # Buffers outlive the device's access to them

While the device has a read or write, the actor must hold its buffer and must not have answered it.
The NVMe actor holds the buffer in its table. The kernel and the file device hold the buffer of a
command that they wait for, and hand an asynchronous one to the ring without it. -/

namespace Certus.BlockDevice

open List Option

namespace Nvme.World

variable {w w' : World} {strict : Prop} {client : ℕ}

/-- Nothing the controller has is ended by a timeout, a reset or its client's leaving. -/
def QuietEnd (w : World) : Event → Prop
  | .disconnect client => ∀ d ∈ w.device, d.client ≠ client
  | .checkTimeouts => ∀ op ∈ w.pending, op.deadline ≤ w.clock → ∀ d ∈ w.device, d.handle ≠ op.handle
  | .next _ => ∀ x ∈ w.agenda.head?, isReset x.2.2 → w.device = []
  | _ => True
where
  isReset : Command → Bool
    | .controllerReset => true
    | _ => false

instance (w : World) (e : Event) : Decidable (w.QuietEnd e) :=
  match e with
  | .disconnect client => inferInstanceAs (Decidable (∀ d ∈ w.device, d.client ≠ client))
  | .checkTimeouts => inferInstanceAs (Decidable (∀ op ∈ w.pending, op.deadline ≤ w.clock →
      ∀ d ∈ w.device, d.handle ≠ op.handle))
  | .next _ =>
    inferInstanceAs (Decidable (∀ x ∈ w.agenda.head?, QuietEnd.isReset x.2.2 → w.device = []))
  | .connect | .submit _ _ | .take _ | .collect _ _ | .drain | .tick _ => instDecidableTrue

/-- The operations at the controller are in the table with their buffers, and are not among those that
were collected. -/
structure Held (device : List DeviceOp) (pending : List PendingOp) (collected : List CompletionEntry) :
    Prop where
  held : ∀ d ∈ device, ∃ op ∈ pending, op.handle = d.handle ∧ op.client = d.client ∧ op.buf = d.buf
  distinct : (device.map (·.handle)).Nodup
  apart : ∀ d ∈ device, ∀ e ∈ collected, e.handle ≠ d.handle

namespace Held

variable {device : List DeviceOp} {pending pending' : List PendingOp}
  {collected : List CompletionEntry}

theorem of_empty (hempty : device = []) : Held device pending collected := by
  subst hempty
  exact ⟨nofun, nodup_nil, nofun⟩

variable (h : Held device pending collected)
include h

theorem mono
    (hkeep : ∀ op ∈ pending, (∃ d ∈ device, d.handle = op.handle ∧ d.client = op.client) →
      ∃ op' ∈ pending', op'.handle = op.handle ∧ op'.client = op.client ∧ op'.buf = op.buf) :
    Held device pending' collected where
  held d hd := by
    obtain ⟨op, hop, hhandle, hclient, hbuf⟩ := h.held d hd
    obtain ⟨op', hop', h1, h2, h3⟩ := hkeep op hop ⟨d, hd, hhandle.symm, hclient.symm⟩
    exact ⟨op', hop', h1.trans hhandle, h2.trans hclient, h3.trans hbuf⟩
  distinct := h.distinct
  apart := h.apart

theorem insert {handle client tag deadline : ℕ} {kind : OpKind}
    {buf : Buffer} (hdevice : ∀ d ∈ device, d.handle ≠ handle)
    (hcollected : ∀ e ∈ collected, e.handle ≠ handle) :
    Held (⟨handle, client, kind, buf⟩ :: device)
      (⟨handle, client, tag, deadline, kind, buf, false⟩ :: pending) collected where
  held := forall_mem_cons.mpr ⟨⟨_, mem_cons_self, rfl, rfl, rfl⟩, fun d hd => by
    obtain ⟨op, hop, hrest⟩ := h.held d hd
    exact ⟨op, mem_cons_of_mem _ hop, hrest⟩⟩
  distinct := nodup_cons.mpr ⟨fun hin => by
    obtain ⟨d, hd, heq⟩ := List.mem_map.mp hin
    exact hdevice d hd heq, h.distinct⟩
  apart := forall_mem_cons.mpr ⟨hcollected, h.apart⟩

theorem collect {d : DeviceOp} (hd : d ∈ device) {e : CompletionEntry} (he : e.handle = d.handle) :
    Held (device.erase d) pending (collected ++ [e]) where
  held d' hd' := h.held d' (mem_of_mem_erase hd')
  distinct := h.distinct.sublist (erase_sublist.map _)
  apart d' hd' e' he' := by
    rcases mem_append.mp he' with he' | he'
    · exact h.apart d' (mem_of_mem_erase hd') e' he'
    · -- another operation has another handle
      rw [mem_singleton.mp he', he]
      intro heq
      have hsame := inj_on_of_nodup_map h.distinct hd (mem_of_mem_erase hd') heq
      subst hsame
      exact ((h.distinct.of_map).mem_erase_iff.mp hd').1 rfl

end Held

theorem held_handleCompletion {e : CompletionEntry} {taken : List CompletionEntry}
    (h : Held w.device w.pending (e :: taken)) :
    Held (w.handleCompletion e).device (w.handleCompletion e).pending taken ∧
      (w.handleCompletion e).completions = w.completions := by
  have hrest : Held w.device w.pending taken :=
    { h with apart := fun d hd e' he' => h.apart d hd e' (mem_cons_of_mem _ he') }
  unfold handleCompletion
  split_ifs
  · split
    · rw [deliver_eq]
      refine ⟨hrest.mono fun op hop hat => ?_, rfl⟩
      obtain ⟨d, hd, hhandle, -⟩ := hat
      refine ⟨op, mem_filter.mpr ⟨hop, decide_eq_true fun heq => ?_⟩, rfl, rfl, rfl⟩
      exact h.apart d hd e mem_cons_self (heq.symm.trans hhandle.symm)
    · exact ⟨hrest, rfl⟩
  · exact ⟨hrest, rfl⟩

theorem held_handleCompletions {taken : List CompletionEntry} (h : Held w.device w.pending taken) :
    Held (taken.foldl handleCompletion w).device (taken.foldl handleCompletion w).pending [] ∧
      (taken.foldl handleCompletion w).completions = w.completions := by
  induction taken generalizing w with
  | nil => exact ⟨h, rfl⟩
  | cons e taken ih =>
    obtain ⟨hone, hsame⟩ := held_handleCompletion h
    exact ⟨(ih hone).1, (ih hone).2.trans hsame⟩

section

variable (h : Held w.device w.pending w.completions) (hs : Sound strict [] w)
include h hs

/-- The commands other than asynchronous ones, aborts and resets leave table and controller alone. -/
theorem held_dispatchCommand {top : Bool} {cmd : Command}
    (hreset : QuietEnd.isReset cmd → w.device = []) (io : Io) :
    Held (w.dispatchCommand client top io cmd).device (w.dispatchCommand client top io cmd).pending
      (w.dispatchCommand client top io cmd).completions := by
  have hasync : ∀ kind lba buf timeoutMs tag, Held (w.doAsync client kind lba buf timeoutMs tag io).device
      (w.doAsync client kind lba buf timeoutMs tag io).pending
      (w.doAsync client kind lba buf timeoutMs tag io).completions := by
    intro kind lba buf timeoutMs tag
    unfold doAsync
    dsimp only
    split
    · rw [deliver_eq]
      exact h
    · split_ifs
      · -- the handle is new
        refine h.insert (fun d hd heq => ?_) fun e he heq => ?_
        · obtain ⟨r, hr, -⟩ := hs.devices d hd
          exact Nat.lt_irrefl _ (heq ▸ (hs.books.numbered _ r hr).1)
        · obtain ⟨r, hr, -⟩ := hs.collected e he
          exact Nat.lt_irrefl _ (heq ▸ (hs.books.numbered _ r hr).1)
      · rw [deliver_eq]
        exact h
  cases cmd with
  | readSync | writeSync | writeZeros | flushSync | nsProbe | nsCreate | nsFormat | nsDelete =>
    simp only [dispatchCommand, doSync, answerNs, deliver_eq]
    exact h
  | readAsync | writeAsync => exact hasync ..
  | batchSubmit ops => exact h
  | abortOp handle =>
    unfold dispatchCommand abortOp
    dsimp only
    split_ifs
    · refine h.mono fun op hop _ => ⟨_, List.mem_map.mpr ⟨op, hop, rfl⟩, ?_⟩
      split_ifs <;> exact ⟨rfl, rfl, rfl⟩
    · rw [deliver_eq]
      exact h
  | controllerReset =>
    refine Held.of_empty ?_
    cases top with
    | true =>
      rw [dispatchCommand, if_pos rfl, handleControllerReset_eq, deliver_eq]
      exact (device_endAll _ _ _).1.trans (hreset rfl)
    | false => exact hreset rfl

theorem held_step {e : Event} (hguard : w.QuietEnd e) (hnext : w.step e = some w') :
    Held w'.device w'.pending w'.completions := by
  cases e with
  | connect =>
    obtain ⟨-, hnext⟩ := ite_none_right_eq_some.mp hnext
    exact some.inj hnext ▸ h
  | disconnect client =>
    obtain ⟨-, hnext⟩ := ite_none_right_eq_some.mp hnext
    rw [← some.inj hnext]
    refine h.mono fun op hop ⟨d, hd, _, hclient⟩ => ⟨op, mem_filter.mpr ⟨hop, ?_⟩, rfl, rfl, rfl⟩
    exact decide_eq_true fun heq => hguard d hd (hclient.trans heq)
  | submit client cmd | take client =>
    simp only [step] at hnext
    split at hnext
    · exact some.inj hnext ▸ h
    · cases hnext
  | next io =>
    simp only [step] at hnext
    split at hnext
    · rename_i client top cmd rest _ hagenda
      have hrest : Sound strict [] { w with agenda := rest } :=
        { hs with agenda := fun x hx => hs.agenda x (hagenda ▸ mem_cons_of_mem _ hx) }
      rw [← some.inj hnext]
      exact held_dispatchCommand (w := { w with agenda := rest }) h hrest
        (hguard (client, top, cmd) (by rw [hagenda]; rfl)) io
    · cases hnext
  | collect handle result =>
    simp only [step] at hnext
    split at hnext
    · rename_i d hfind
      rw [← some.inj hnext]
      exact h.collect (mem_of_find?_eq_some hfind) rfl
    · cases hnext
  | drain =>
    obtain ⟨-, hnext⟩ := ite_none_right_eq_some.mp hnext
    rw [← some.inj hnext]
    obtain ⟨hall, hnone⟩ := held_handleCompletions (w := { w with completions := [] }) h
    have hnone : w.drain.completions = [] := hnone
    rw [hnone]
    exact hall
  | checkTimeouts =>
    obtain ⟨-, hnext⟩ := ite_none_right_eq_some.mp hnext
    rw [← some.inj hnext, checkTimeouts_eq]
    obtain ⟨hdevice, hcompletions⟩ := device_endAll .timeout
      (w.pending.filter fun op => decide (op.deadline ≤ w.clock)) w
    rw [hdevice, hcompletions]
    refine h.mono fun op hop ⟨d, hd, hhandle, _⟩ => ⟨op, mem_endAll hop fun o ho heq => ?_, rfl, rfl, rfl⟩
    obtain ⟨ho, hexpired⟩ := mem_filter.mp ho
    exact hguard o ho (of_decide_eq_true hexpired) d hd (hhandle.trans heq)
  | tick n => exact some.inj hnext ▸ h

end

/-- Every operation at the controller has its buffer held and no answer yet. -/
def BuffersSafe (w : World) : Prop :=
  ∀ d ∈ w.device, (∃ op ∈ w.pending, op.handle = d.handle ∧ op.buf = d.buf) ∧
    w.log.countP (Act.answers d.handle) = 0

instance (w : World) : Decidable w.BuffersSafe := by
  unfold BuffersSafe
  infer_instance

end Nvme.World

namespace Ring.World

variable {w w' : World}

/-- Every asynchronous operation at the operating system has its buffer held and no answer yet. The
actor holds the buffer of the command it waits for, and no other. -/
def BuffersSafe (w : World) : Prop :=
  ∀ e ∈ w.entries, ∀ h r, e.data = .op h → .asked h r ∈ w.log → r.async →
    (∃ wait, w.waiting = some wait ∧ wait.handle = h) ∧ w.log.countP (Act.answers h) = 0

/-- There is no ring, and nothing is handed to one but cancellations. -/
def Ringless (w : World) : Prop := w.kind = .file false ∧ ∀ e ∈ w.entries, ∀ h, e.data ≠ .op h

theorem ringless_sendCompletion (h : w.Ringless) (client : ℕ) (completion : Completion)
    (ends : Option ℕ) : (w.sendCompletion client completion ends).Ringless :=
  sendCompletion_eq w client completion ends ▸ h

theorem ringless_processCommand (h : w.Ringless) (client : ℕ) (io : Io) (cmd : Command) :
    (w.processCommand client io cmd).Ringless := by
  have htransfer : ∀ (v : World) hd tag kind lba, v.Ringless →
      (v.transfer client hd tag kind lba io).Ringless := by
    intro v hd tag kind lba hv
    obtain ⟨mid, result, -, heq⟩ := transfer_eq v client hd tag kind lba io
    exact heq ▸ hv
  have hcarry : ∀ (v : World) hd kind lba len, v.Ringless →
      (v.carryOut client hd kind lba len io).Ringless := by
    intro v hd kind lba len hv
    unfold carryOut
    split
    · rename_i hkind
      cases hkind.symm.trans hv.1
    · exact htransfer v hd 0 kind lba hv
  have hsync : ∀ kind nsId lba len, (w.handleSync client kind nsId lba len io).Ringless := by
    intro kind nsId lba len
    unfold handleSync
    dsimp only
    split
    · exact ringless_sendCompletion (by exact h) ..
    · exact hcarry _ _ _ _ _ h
  have hasync : ∀ kind nsId lba len timeoutMs tag,
      (w.handleAsync client kind nsId lba len timeoutMs tag io).Ringless := by
    intro kind nsId lba len timeoutMs tag
    unfold handleAsync
    dsimp only
    split
    · exact ringless_sendCompletion (by exact h) ..
    · have hring : ¬ (w.nextOpHandle.record (.asked w.nextHandle
          ⟨client, tag, kind, true, lba, len⟩)).kind.hasRing := by
        change ¬ w.kind.hasRing
        rw [h.1]
        nofun
      rw [if_neg hring]
      exact htransfer _ _ _ _ _ h
  cases cmd with
  | readSync | writeSync => exact hsync ..
  | readAsync | writeAsync => exact hasync ..
  | writeZeros nsId lba numBlocks =>
    unfold processCommand handleWriteZeros
    dsimp only
    split
    · exact ringless_sendCompletion (by exact h) ..
    · split_ifs
      · exact hcarry _ _ _ _ _ h
      · exact ringless_sendCompletion (by exact h) ..
  | batchSubmit ops => exact h
  | abortOp target =>
    unfold processCommand handleAbort
    dsimp only
    rw [sendCompletion_eq, if_neg (by rw [h.1]; nofun)]
    exact h
  | nsProbe | flushSync nsId | nsCreate | nsFormat | nsDelete | controllerReset =>
    exact ringless_sendCompletion (by exact h) ..

theorem ringless_completeEntries {taken : List (UserData × ℤ)} (h : w.Ringless) :
    (taken.foldl completeEntry w).Ringless := by
  induction taken generalizing w with
  | nil => exact h
  | cons q taken ih =>
    refine ih ?_
    unfold completeEntry
    split
    · split
      · exact ringless_sendCompletion (by exact h) ..
      · exact h
    · exact h

theorem ringless_giveUpAll {ops : List InflightOp} (h : w.Ringless) :
    (ops.foldl giveUp w).Ringless := by
  induction ops generalizing w with
  | nil => exact h
  | cons op ops ih => exact ih (by unfold giveUp; exact ringless_sendCompletion (by exact h) ..)

theorem ringless_step (h : w.Ringless) {e : Event} (hnext : w.step e = some w') : w'.Ringless := by
  cases e with
  | connect | disconnect =>
    obtain ⟨-, hnext⟩ := ite_none_right_eq_some.mp hnext
    exact some.inj hnext ▸ h
  | submit client cmd | take client =>
    simp only [step] at hnext
    split at hnext
    · exact some.inj hnext ▸ h
    · cases hnext
  | next io =>
    simp only [step] at hnext
    split at hnext
    · rename_i client cmd rest _ _ _
      rw [← some.inj hnext]
      split_ifs
      · exact h
      · exact ringless_processCommand (w := { w with agenda := rest }) h ..
    · cases hnext
  | reap =>
    obtain ⟨wait, -, rfl⟩ := map_eq_some_iff.mp hnext
    unfold waitForCqe
    dsimp only
    have hothers : ((w.queue.filter (·.1 ≠ .op wait.handle)).foldl completeEntry
        { w with queue := [] }).Ringless := ringless_completeEntries h
    split
    · exact ringless_sendCompletion (by exact hothers) ..
    · exact hothers
  | harvest =>
    obtain ⟨-, hnext⟩ := ite_none_right_eq_some.mp hnext
    exact some.inj hnext ▸ ringless_completeEntries (w := { w with queue := [] }) h
  | checkTimeouts cancels =>
    obtain ⟨-, hnext⟩ := ite_none_right_eq_some.mp hnext
    rw [← some.inj hnext]
    have hgiven : ((w.inflight.filter w.expired).foldl giveUp w).Ringless := ringless_giveUpAll h
    refine ⟨hgiven.1, fun e he => ?_⟩
    rcases mem_append.mp he with he | he
    · exact hgiven.2 e he
    · obtain ⟨n, -, rfl⟩ := List.mem_map.mp he
      exact fun _ h => by cases h
  | complete data res =>
    simp only [step] at hnext
    split at hnext
    · rename_i e _
      have herase : ∀ e' ∈ w.entries.erase e, ∀ h, e'.data ≠ .op h := fun e' he' =>
        h.2 e' (mem_of_mem_erase he')
      unfold complete at hnext
      split at hnext
      · split_ifs at hnext <;> exact some.inj hnext ▸ ⟨h.1, herase⟩
      · split_ifs at hnext <;> exact some.inj hnext ▸ ⟨h.1, herase⟩
      · exact some.inj hnext ▸ ⟨h.1, herase⟩
    · cases hnext
  | tick n => exact some.inj hnext ▸ h

end Ring.World

/-- **Buffers outlive the device's access to them**: on the NVMe device as long as no timeout, reset or
leaving client ends an operation that the controller has; on the file device without a ring. -/
theorem buffers_outlive_access (ticksPerMs : ℕ) (config : Ring.Config) :
    (∀ es w, Run Nvme.World.step
      (fun w e => w.nestedReset e = false ∧ w.QuietEnd e) (Nvme.World.start ticksPerMs) es w →
      w.BuffersSafe) ∧
    (∀ es w, Run Ring.World.step anyStep (Ring.World.start (.file false) config) es w →
      w.BuffersSafe) := by
  refine ⟨fun es w hrun => ?_, fun es w hrun => ?_⟩
  · have h : Nvme.World.Sound False [] w ∧ Nvme.World.Held w.device w.pending w.completions :=
      hrun.invariant (I := fun w => Nvme.World.Sound False [] w ∧
          Nvme.World.Held w.device w.pending w.completions)
        ⟨.start False ticksPerMs, .of_empty rfl⟩ fun _ _ _ h hguard hnext =>
          ⟨h.1.step hguard.1 nofun hnext, Nvme.World.held_step h.2 h.1 hguard.2 hnext⟩
    intro d hd
    obtain ⟨op, hop, hhandle, -, hbuf⟩ := h.2.held d hd
    exact ⟨⟨op, hop, hhandle, hbuf⟩, hhandle ▸ h.1.books.inFlight _ (Nvme.World.mem_table hop)⟩
  · have h : w.Ringless := hrun.invariant (I := Ring.World.Ringless)
      ⟨rfl, fun _ he => absurd he not_mem_nil⟩ fun _ _ _ h _ hnext => Ring.World.ringless_step h hnext
    intro e he n r hdata
    exact absurd hdata (h.2 e he n)

section Examples

/-- A read of one block of the NVMe device that is to take a millisecond at most. -/
def readSoon : Command := .readAsync 1 0 ⟨0, 512, false⟩ 1 0

def controllerIo : Nvme.Io := ⟨.ok (), 0, .ok (), 1, 8, 512⟩

def systemIo : Ring.Io := ⟨8, 512, true, "", true⟩

def readInFlight : List Nvme.Event := [.connect, .submit 1 readSoon, .take 1, .next controllerIo]

/-- Reads at the controller, while timeouts are checked in time, another client leaves, and the
controller is reset once the first read is done; and a read of the file device, answered at once. -/
theorem buffers_outlive_access_in_flight :
    (∃ w, Run Nvme.World.step (fun w e => w.nestedReset e = false ∧ w.QuietEnd e) (.start 1)
      (readInFlight ++ [.checkTimeouts, .connect, .disconnect 2, .collect 1 (.ok ()), .drain,
        .submit 1 .controllerReset, .take 1, .next controllerIo, .submit 1 readSoon, .take 1,
        .next controllerIo]) w ∧ w.device ≠ [] ∧ w.BuffersSafe) ∧
    (∃ w, Run Ring.World.step anyStep (.start (.file false) ⟨512, 8⟩)
      [.connect, .submit 1 readSoon, .take 1, .next systemIo] w ∧
      w.log.countP (Act.answers 1) = 1 ∧ w.BuffersSafe) := by
  constructor
  · refine exists_run_and_of_checkedExec (fun w => decide (w.device ≠ [])) (by decide +kernel)
      fun hrun hw => ⟨of_decide_eq_true hw, ?_⟩
    exact (buffers_outlive_access _ ⟨512, 8⟩).1 _ _ hrun
  · refine exists_run_and_of_exec (fun w => decide (w.log.countP (Act.answers 1) = 1))
      (by decide +kernel) fun hrun hw => ⟨of_decide_eq_true hw, ?_⟩
    exact (buffers_outlive_access 1 _).2 _ _ hrun

/-- An asynchronous command that the log knows under handle 1. -/
def askedAsync : Act → Bool
  | .asked 1 r => r.async
  | _ => false

/-- A read of the NVMe device is answered by a timeout while the controller has it, or loses its buffer
as its client leaves; the kernel device has no buffer of a read in flight. -/
theorem buffers_given_back_too_early :
    (∃ w, Run Nvme.World.step anyStep (.start 1) (readInFlight ++ [.tick 1, .checkTimeouts]) w ∧
      w.device ≠ [] ∧ w.log.countP (Act.answers 1) = 1 ∧ ¬w.BuffersSafe) ∧
    (∃ w, Run Nvme.World.step anyStep (.start 1) (readInFlight ++ [.disconnect 1]) w ∧
      w.device ≠ [] ∧ w.pending = [] ∧ ¬w.BuffersSafe) ∧
    ∃ w, Run Ring.World.step anyStep (.start .kernel ⟨512, 8⟩)
      [.connect, .submit 1 readSoon, .take 1, .next systemIo] w ∧
      w.entries.map (·.data) = [.op 1] ∧ w.waiting.isNone ∧ ¬w.BuffersSafe := by
  refine ⟨exists_run_of_decide (by decide +kernel), exists_run_of_decide (by decide +kernel), ?_⟩
  obtain ⟨w, hrun, hdata, hidle, hasked⟩ : ∃ w, Run Ring.World.step anyStep (.start .kernel ⟨512, 8⟩)
      [.connect, .submit 1 readSoon, .take 1, .next systemIo] w ∧
      w.entries.map (·.data) = [.op 1] ∧ w.waiting.isNone ∧ w.log.any askedAsync :=
    exists_run_of_decide (by decide +kernel)
  refine ⟨w, hrun, hdata, hidle, fun hsafe => ?_⟩
  obtain ⟨e, he, hop⟩ := List.mem_map.mp (hdata ▸ mem_singleton_self _ : _ ∈ w.entries.map (·.data))
  obtain ⟨a, ha, hasync⟩ := any_eq_true.mp hasked
  unfold askedAsync at hasync
  split at hasync
  · obtain ⟨⟨wait, hwait, -⟩, -⟩ := hsafe e he 1 _ hop ha hasync
    rw [hwait] at hidle
    cases hidle
  · cases hasync

end Examples

end Certus.BlockDevice
