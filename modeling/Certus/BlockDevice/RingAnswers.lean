import Certus.BlockDevice.Answers
import Certus.BlockDevice.RingActor

/-! # The answers of the kernel and the file device

* **`World.table`** — the operations in flight, as far as answers depend on them. -/

namespace Certus.BlockDevice.Ring

open List Option Books World InflightOp

def InflightOp.kind (op : InflightOp) : OpKind := if op.isRead then .read else .write

def InflightOp.pending (op : InflightOp) : Pending := ⟨op.handle, op.client, op.tag, op.kind, false⟩

namespace World

variable {w w' : World} {taken : List (UserData × ℤ)} {client : ℕ} {io : Io}

/-- The table as far as answers depend on it. -/
def table (w : World) : List Pending := w.inflight.map pending

def connected (w : World) (client : ℕ) : Bool := (w.clients client).isSome

/-- An abort of the client names no operation of another client, and an asynchronous command carries
a tag that the device keeps. -/
def Answerable (w : World) (client : ℕ) : Command → Prop
  | .abortOp target => ∀ op ∈ w.inflight, op.handle = target → op.client = client
  | .readAsync _ _ _ _ tag | .writeAsync _ _ _ _ tag => w.kind.keepTag tag = tag
  | _ => True

instance (w : World) (client : ℕ) (cmd : Command) : Decidable (w.Answerable client cmd) :=
  match cmd with
  | .abortOp target =>
    inferInstanceAs (Decidable (∀ op ∈ w.inflight, op.handle = target → op.client = client))
  | .readAsync _ _ _ _ _ | .writeAsync _ _ _ _ _ => inferInstanceAs (Decidable (_ = _))
  | .readSync _ _ _ | .writeSync _ _ _ | .writeZeros _ _ _ | .batchSubmit _ | .nsProbe | .nsCreate _
  | .nsFormat _ _ | .nsDelete _ | .controllerReset | .flushSync _ => instDecidableTrue

/-- The condition on a step: the next command can be answered, and it is no read into a buffer whose
lock is poisoned. -/
def NextAnswerable (w : World) : Event → Prop
  | .next _ => ∀ x ∈ w.agenda.head?, w.Answerable x.1 x.2 ∧ x.2.poisoned = false
  | _ => True

instance (w : World) (e : Event) : Decidable (w.NextAnswerable e) := by
  cases e <;> unfold NextAnswerable <;> infer_instance

/-- The operating system has every operation in flight, or its completion is in the queue or among
those taken from it. -/
def AtDevice (w : World) (taken : List (UserData × ℤ)) : Prop :=
  ∀ op ∈ w.inflight, (∃ e ∈ w.entries, e.data = .op op.handle) ∨
    ∃ q ∈ taken ++ w.queue, q.1 = .op op.handle

/-- The invariant, while the completions of `taken` are still to be handled. -/
structure Accounted (taken : List (UserData × ℤ)) (w : World) : Prop where
  books : Books True w.log w.table w.nextHandle w.nextClient w.connected
  agenda : ∀ x ∈ w.agenda, w.connected x.1
  waiting : ∀ wait, w.waiting = some wait →
    ∃ r, .asked wait.handle r ∈ w.log ∧ r.async = false ∧ r.client = wait.client
  atDevice : w.AtDevice taken
  running : w.panicked = false

section

variable (w : World)

/-- A completion reaches its client if it is connected, and the log either way. -/
theorem sendCompletion_eq (client : ℕ) (completion : Completion) (ends : Option ℕ) :
    w.sendCompletion client completion ends =
      { w with log := logSend w.connected client completion ends w.log } := by
  unfold sendCompletion logSend connected
  split_ifs <;> rfl

/-- A transfer is made at once, and ends with its completion. -/
theorem transfer_eq (client h tag : ℕ) (kind : OpKind) (lba : ℕ) (io : Io) :
    ∃ mid result, (∀ a ∈ mid, Books.Silent a) ∧ w.transfer client h tag kind lba io =
      { w with
        log := logSend w.connected client (kind.done h tag result) (some h) (mid ++ w.log) } := by
  unfold transfer
  split_ifs
  · exact ⟨[], _, nofun, sendCompletion_eq ..⟩
  · exact ⟨[.moved h (w.offsetForLba lba) io.ret.toNat], _, by simp [Books.Silent],
      sendCompletion_eq ..⟩
  · exact ⟨[.synced h, .moved h (w.offsetForLba lba) io.ret.toNat], _, by simp [Books.Silent],
      sendCompletion_eq ..⟩
  · exact ⟨[.moved h (w.offsetForLba lba) io.ret.toNat], _, by simp [Books.Silent],
      sendCompletion_eq ..⟩

/-- A data sync adds to the entries of the ring, and changes nothing else. -/
theorem pushSync_eq (h : ℕ) (kind : OpKind) (io : Io) :
    ∃ more, w.pushSync h kind io = { w with entries := w.entries ++ more } := by
  unfold pushSync
  split_ifs
  · exact ⟨_, rfl⟩
  · exact ⟨[], by rw [append_nil]⟩

/-- An operation that is removed leaves the table. -/
theorem table_filter (h : ℕ) :
    (w.inflight.filter (·.handle ≠ h)).map InflightOp.pending = w.table.filter (·.handle ≠ h) := by
  rw [table, List.filter_map]
  rfl

end

namespace Accounted

section

variable (h : Accounted taken w)
include h

/-- The log and the handles go on; the rest stays. -/
theorem withLog {log : List Act} {next : ℕ}
    (hbooks : Books True log w.table next w.nextClient w.connected) (hlog : ∀ a ∈ w.log, a ∈ log) :
    Accounted taken { w with log := log, nextHandle := next } where
  books := hbooks
  agenda := h.agenda
  waiting wait hwait := by
    obtain ⟨r, hr, hrest⟩ := h.waiting wait hwait
    exact ⟨r, hlog _ hr, hrest⟩
  atDevice := h.atDevice
  running := h.running

/-- **A request answered at once**: it is asked and ended in one step. -/
theorem now (r : Request) (kept : ℕ) (mid : List Act)
    (result : Except NvmeBlockError Unit) (hc : w.connected r.client = true)
    (hmid : ∀ a ∈ mid, Books.Silent a) (hends : r.async = true → kept = r.tag ∧ r.kind ≠ .zeros) :
    Accounted taken { w with
      nextHandle := w.nextHandle + 1
      log := logSend w.connected r.client (r.kind.done w.nextHandle kept result)
        (some w.nextHandle) (mid ++ .asked w.nextHandle r :: w.log) } := by
  refine h.withLog (h.books.askNow (h.books.clients _ hc) hmid (fun hasync => ?_)
    (isAck_done ..)) fun a ha => ?_
  · obtain ⟨rfl, hkind⟩ := hends hasync
    exact Completion.ends_done hkind result
  · exact mem_logSend (mem_append_right _ (mem_cons_of_mem _ ha)) ..

/-- A client is sent what is no answer to a read or write. -/
theorem note (client : ℕ) {completion : Completion}
    (hack : isAck completion = false) : Accounted taken (w.sendCompletion client completion none) := by
  rw [sendCompletion_eq]
  exact h.withLog (h.books.noteSent client hack) fun a ha => mem_logSend ha ..

variable (hc : w.connected client)
include hc

/-- A synchronous request is carried out, or the actor waits for its entry. -/
theorem carryOut (kind : OpKind) (lba len : ℕ) (io : Io) :
    Accounted taken ((w.nextOpHandle.record (.asked w.nextHandle ⟨client, 0, kind, false, lba, len⟩)).carryOut
      client w.nextHandle kind lba len io) := by
  unfold World.carryOut
  split
  · split_ifs
    · rw [sendCompletion_eq]
      exact h.now ⟨client, 0, kind, false, lba, len⟩ 0 [] _ hc nofun nofun
    · -- the actor waits for the entry
      have hask := h.books.ask (r := ⟨client, 0, kind, false, lba, len⟩) (h.books.clients _ hc) rfl
      exact {
        books := hask
        agenda := h.agenda
        waiting := fun wait hwait => by
          cases hwait
          exact ⟨_, mem_cons_self, rfl, rfl⟩
        atDevice := fun op hop => (h.atDevice op hop).imp_left fun ⟨e, he, hdata⟩ =>
          ⟨e, mem_append_left _ he, hdata⟩
        running := h.running }
  · obtain ⟨mid, result, hmid, heq⟩ := transfer_eq
      (w.nextOpHandle.record (.asked w.nextHandle ⟨client, 0, kind, false, lba, len⟩)) client
      w.nextHandle 0 kind lba io
    rw [heq]
    exact h.now ⟨client, 0, kind, false, lba, len⟩ 0 mid result hc hmid nofun

/-- A synchronous request is checked and carried out. -/
theorem handleSync (kind : OpKind)
    (nsId lba len : ℕ) (io : Io) : Accounted taken (w.handleSync client kind nsId lba len io) := by
  unfold World.handleSync
  dsimp only
  split
  · rw [sendCompletion_eq]
    exact h.now ⟨client, 0, kind, false, lba, len⟩ 0 [] _ hc nofun nofun
  · exact h.carryOut hc kind lba len io

/-- A write of zeros is checked, gets its buffer and is carried out. -/
theorem handleWriteZeros (nsId lba numBlocks : ℕ) (io : Io) :
    Accounted taken (w.handleWriteZeros client nsId lba numBlocks io) := by
  unfold World.handleWriteZeros
  dsimp only
  split
  · rw [sendCompletion_eq]
    exact h.now ⟨client, 0, .zeros, false, lba, _⟩ 0 [] _ hc nofun nofun
  · split_ifs
    · exact h.carryOut hc .zeros lba _ io
    · rw [sendCompletion_eq]
      exact h.now ⟨client, 0, .zeros, false, lba, _⟩ 0 [] _ hc nofun nofun

/-- **An asynchronous request** goes into the table with its entries in the ring. -/
theorem insertInflight {kind : OpKind}
    (hkind : kind ≠ .zeros) (lba len tag : ℕ) (deadline : Option ℕ) (io : Io) :
    Accounted taken ((((w.nextOpHandle.record
      (.asked w.nextHandle ⟨client, tag, kind, true, lba, len⟩)).push w.nextHandle lba len).pushSync
      w.nextHandle kind io).insertInflight ⟨w.nextHandle, client, deadline, kind = .read, tag⟩) := by
  have hask := h.books.ask (r := ⟨client, tag, kind, true, lba, len⟩) (h.books.clients _ hc) rfl
  have hrest : w.inflight.filter (·.handle ≠ w.nextHandle) = w.inflight :=
    filter_eq_self.mpr fun op hop =>
      decide_eq_true (h.books.ne_of_mem_table (mem_map_of_mem hop) : op.pending.handle ≠ _)
  have hpending : pending ⟨w.nextHandle, client, deadline, kind = .read, tag⟩ =
      ⟨w.nextHandle, client, tag, kind, false⟩ := by
    cases kind with
    | read | write => rfl
    | zeros => exact absurd rfl hkind
  obtain ⟨more, hmore⟩ := pushSync_eq ((w.nextOpHandle.record
    (.asked w.nextHandle ⟨client, tag, kind, true, lba, len⟩)).push w.nextHandle lba len)
    w.nextHandle kind io
  rw [hmore, World.insertInflight]
  refine ⟨?_, h.agenda, fun wait hwait => ?_, fun op hop => ?_, h.running⟩
  · change Books True _ (pending _ ::
      (w.inflight.filter (·.handle ≠ w.nextHandle)).map pending) _ _ _
    rw [hrest, hpending]
    exact hask
  · obtain ⟨r, hr, hsync⟩ := h.waiting wait hwait
    exact ⟨r, mem_cons_of_mem _ hr, hsync⟩
  · rcases mem_cons.mp hop with rfl | hop
    · exact .inl ⟨_, mem_append_left _ (mem_append_right _ mem_cons_self), rfl⟩
    · refine (h.atDevice op (mem_of_mem_filter hop)).imp_left fun ⟨e, he, hdata⟩ => ?_
      exact ⟨e, mem_append_left _ (mem_append_left _ he), hdata⟩

/-- An asynchronous request fails at once, or is in flight. -/
theorem handleAsync {kind : OpKind}
    (hkind : kind ≠ .zeros) (nsId lba len timeoutMs : ℕ) {tag : ℕ} (htag : w.kind.keepTag tag = tag)
    (io : Io) : Accounted taken (w.handleAsync client kind nsId lba len timeoutMs tag io) := by
  unfold World.handleAsync
  dsimp only
  rw [htag]
  split
  · rw [sendCompletion_eq]
    exact h.now ⟨client, tag, kind, true, lba, len⟩ tag [] _ hc nofun fun _ => ⟨rfl, hkind⟩
  · split_ifs
    · rw [sendCompletion_eq]
      exact h.now ⟨client, tag, kind, true, lba, len⟩ tag [] _ hc nofun fun _ => ⟨rfl, hkind⟩
    · exact h.insertInflight hc hkind ..
    · exact h.insertInflight hc hkind ..
    · obtain ⟨mid, result, hmid, heq⟩ := transfer_eq
        (w.nextOpHandle.record (.asked w.nextHandle ⟨client, tag, kind, true, lba, len⟩)) client
        w.nextHandle tag kind lba io
      rw [heq]
      exact h.now ⟨client, tag, kind, true, lba, len⟩ tag mid result hc hmid fun _ => ⟨rfl, hkind⟩

/-- An abort by its own client: the acknowledgement answers the operation. -/
theorem handleAbort {target : ℕ}
    (hown : ∀ op ∈ w.inflight, op.handle = target → op.client = client) (io : Io) :
    Accounted taken (w.handleAbort client target io) := by
  unfold World.handleAbort
  dsimp only
  rw [sendCompletion_eq]
  -- more entries at the operating system change nothing
  have hmore : ∀ op ∈ w.inflight.filter (·.handle ≠ target),
      (∃ e ∈ (if w.kind.hasRing ∧ 1 ≤ io.room then
        w.entries ++ [⟨.cancel target, 0, 0, 0⟩] else w.entries), e.data = .op op.handle) ∨
      ∃ q ∈ taken ++ w.queue, q.1 = .op op.handle := fun op hop => by
    refine (h.atDevice op (mem_of_mem_filter hop)).imp_left fun ⟨e, he, hdata⟩ => ⟨e, ?_, hdata⟩
    split_ifs
    · exact mem_append_left _ he
    · exact he
  refine ⟨?_, h.agenda, fun wait hwait => ?_, hmore, h.running⟩
  · change Books True (logSend w.connected client _ _ (.abortAsked client target :: w.log))
      ((w.inflight.filter (·.handle ≠ target)).map pending) w.nextHandle w.nextClient
      w.connected
    rw [table_filter]
    split_ifs with hany
    · obtain ⟨op, hop, htest⟩ := any_eq_true.mp hany
      obtain ⟨rfl, rfl⟩ : op.handle = target ∧ op.client = client := by simpa using htest
      have hmem : op.pending ∈ w.table := mem_map_of_mem hop
      rw [← mark_filter]
      have hmarked : { op.pending with aborting := true } ∈ Books.mark w.table op.handle :=
        mem_map.mpr ⟨_, hmem, if_pos rfl⟩
      exact (h.books.markAborting hmem fun _ => rfl).answer hmarked (fun _ _ _ _ => rfl) fun _ => rfl
    · have hnone : w.table.filter (·.handle ≠ target) = w.table := by
        refine filter_eq_self.mpr fun p hp => decide_eq_true fun heq => hany ?_
        obtain ⟨op, hop, rfl⟩ := mem_map.mp hp
        exact any_eq_true.mpr ⟨op, hop, by simpa using ⟨heq, hown op hop heq⟩⟩
      rw [hnone, logSend, if_pos hc]
      exact h.books.ackIdle hc target
  · obtain ⟨r, hr, hrest⟩ := h.waiting wait hwait
    exact ⟨r, mem_logSend (mem_cons_of_mem _ hr) .., hrest⟩

/-- **A command** that can be answered is. -/
theorem processCommand {cmd : Command}
    (hcmd : w.Answerable client cmd) (io : Io) : Accounted taken (w.processCommand client io cmd) := by
  cases cmd with
  | readSync nsId lba buf | writeSync nsId lba buf => exact h.handleSync hc ..
  | readAsync nsId lba buf timeoutMs tag =>
    exact h.handleAsync hc (OpKind.noConfusion : OpKind.read ≠ .zeros) _ _ _ _ hcmd _
  | writeAsync nsId lba buf timeoutMs tag =>
    exact h.handleAsync hc (OpKind.noConfusion : OpKind.write ≠ .zeros) _ _ _ _ hcmd _
  | writeZeros nsId lba numBlocks => exact h.handleWriteZeros hc ..
  | batchSubmit ops =>
    refine ⟨h.books, fun x hx => ?_, h.waiting, h.atDevice, h.running⟩
    rcases mem_append.mp hx with hx | hx
    · obtain ⟨op, -, rfl⟩ := mem_map.mp hx
      exact hc
    · exact h.agenda x hx
  | abortOp handle => exact h.handleAbort hc hcmd io
  | nsProbe | nsCreate | nsFormat | nsDelete | controllerReset => exact h.note client rfl
  | flushSync nsId =>
    refine Accounted.note (w := w.nextOpHandle) ?_ client rfl
    exact ⟨h.books.skip, h.agenda, h.waiting, h.atDevice, h.running⟩

omit hc

/-- **An operation is answered** once: it leaves the table with its completion. -/
theorem answer {op : InflightOp} (hop : op ∈ w.inflight) {completion : Completion}
    (hends : ∀ r : Request, r.tag = op.tag → r.kind = op.kind → completion.Ends r op.handle)
    (hack : isAck completion = false) :
    Accounted taken ({ w with inflight := w.inflight.filter (·.handle ≠ op.handle) }.sendCompletion
      op.client completion (some op.handle)) := by
  rw [sendCompletion_eq]
  refine ⟨?_, h.agenda, fun wait hwait => ?_, fun o ho => h.atDevice o (mem_of_mem_filter ho),
    h.running⟩
  · change Books True (logSend w.connected op.client completion (some op.handle) w.log)
      ((w.inflight.filter (·.handle ≠ op.handle)).map pending) w.nextHandle w.nextClient
      w.connected
    rw [table_filter]
    exact h.books.answer (mem_map_of_mem hop) (fun r _ => hends r) fun _ => hack
  · obtain ⟨r, hr, hrest⟩ := h.waiting wait hwait
    exact ⟨r, mem_logSend hr .., hrest⟩

end

/-- A completion of the ring ends its operation, if that is still in flight. -/
theorem completeEntry {q : UserData × ℤ} (h : Accounted (q :: taken) w) :
    Accounted taken (w.completeEntry q) := by
  -- without an operation of its handle in flight the completion is not needed
  have hdrop : (∀ op ∈ w.inflight, q.1 ≠ .op op.handle) → Accounted taken w := fun hnot => by
    refine ⟨h.books, h.agenda, h.waiting, fun op hop => (h.atDevice op hop).imp_right ?_, h.running⟩
    rintro ⟨q', hq', hdata⟩
    rcases mem_cons.mp hq' with rfl | hq'
    · exact absurd hdata (hnot op hop)
    · exact ⟨q', hq', hdata⟩
  unfold World.completeEntry
  split
  · rename_i n hdata
    split
    · rename_i op hfind
      obtain rfl : op.handle = n := by simpa using find?_some hfind
      have hop := mem_of_find?_eq_some hfind
      have hans : Accounted (q :: taken) ({ w with
          inflight := w.inflight.filter (·.handle ≠ op.handle) }.sendCompletion op.client
          (op.kind.done op.handle op.tag (entryResult op.kind q.2)) (some op.handle)) :=
        h.answer hop (fun r htag hkind => ?_) (isAck_done ..)
      · refine ⟨hans.books, hans.agenda, hans.waiting, fun o ho => (hans.atDevice o ho).imp_right ?_,
          hans.running⟩
        rintro ⟨q', hq', hdata'⟩
        rcases mem_cons.mp hq' with rfl | hq'
        · rw [sendCompletion_eq] at ho
          have hne := of_decide_eq_true (mem_filter.mp ho).2
          rw [hdata] at hdata'
          exact absurd (UserData.op.inj hdata').symm hne
        · exact ⟨q', hq', hdata'⟩
      · rw [← htag, ← hkind]
        refine Completion.ends_done ?_ _
        rw [hkind, InflightOp.kind]
        split_ifs <;> nofun
    · rename_i hfind
      refine hdrop fun op hop heq => ?_
      rw [hdata] at heq
      have hnot := find?_eq_none.mp hfind op hop
      exact hnot (by simpa using (UserData.op.inj heq).symm)
  · rename_i hdata
    exact hdrop fun op _ heq => hdata op.handle heq

/-- All completions taken from the ring. -/
theorem completeEntries (h : Accounted taken w) : Accounted [] (taken.foldl World.completeEntry w) := by
  induction taken generalizing w with
  | nil => exact h
  | cons q taken ih => exact ih h.completeEntry

end Accounted

/-- The actor waits on for the entry it waited for. -/
theorem waiting_completeEntries (taken : List (UserData × ℤ)) (w : World) :
    (taken.foldl completeEntry w).waiting = w.waiting := by
  induction taken generalizing w with
  | nil => rfl
  | cons q taken ih =>
    refine (ih _).trans ?_
    unfold completeEntry
    split
    · split
      · rw [sendCompletion_eq]
      · rfl
    · rfl

/-- Between two commands the agenda is empty. -/
theorem agenda_of_free (hfree : w.free) : w.agenda = [] := by
  simp only [free, Bool.and_eq_true, List.isEmpty_iff] at hfree
  exact hfree.1

namespace Accounted

/-- The completion queue is harvested. -/
theorem harvestCompletions (h : Accounted [] w) : Accounted [] w.harvestCompletions := by
  refine completeEntries ⟨h.books, h.agenda, h.waiting, ?_, h.running⟩
  intro op hop
  refine (h.atDevice op hop).imp_right fun ⟨q, hq, hdata⟩ => ⟨q, ?_, hdata⟩
  exact mem_append_left _ hq

/-- A pass of the wait for one entry: the others first, then the answer. -/
theorem waitForCqe (h : Accounted [] w) {wait : Waiting} (hwait : w.waiting = some wait) :
    Accounted [] (w.waitForCqe wait) := by
  obtain ⟨r, hr, hsync, -⟩ := h.waiting wait hwait
  have hothers : Accounted [] ((w.queue.filter (·.1 ≠ .op wait.handle)).foldl World.completeEntry
      { w with queue := [] }) := by
    refine completeEntries ⟨h.books, h.agenda, h.waiting, ?_, h.running⟩
    intro op hop
    refine (h.atDevice op hop).imp_right fun ⟨q, hq, hdata⟩ =>
      ⟨q, mem_append_left _ (mem_filter.mpr ⟨hq, decide_eq_true fun heq => ?_⟩), hdata⟩
    -- the operations in flight are asynchronous
    obtain ⟨r', hr', hasync, -⟩ := h.books.tabled op.pending (mem_map_of_mem hop)
    have hsame : wait.handle = op.handle := UserData.op.inj (heq.symm.trans hdata)
    rw [hsame] at hr
    rw [h.books.unique _ _ _ hr hr', hasync] at hsync
    cases hsync
  unfold World.waitForCqe
  dsimp only
  split
  · obtain ⟨r', hr', hsync', hclient⟩ := hothers.waiting wait
      ((waiting_completeEntries _ _).trans hwait)
    rw [sendCompletion_eq]
    refine ⟨?_, hothers.agenda, nofun, hothers.atDevice, hothers.running⟩
    exact hclient ▸ hothers.books.answerSync hr' hsync' fun _ => isAck_done ..
  · exact hothers

section

variable (h : Accounted taken w)
include h

/-- An operation past its deadline is answered with a timeout. -/
theorem giveUp {op : InflightOp} (hop : op ∈ w.inflight) : Accounted taken (w.giveUp op) := by
  have hans : Accounted taken ({ w with
      inflight := w.inflight.filter (·.handle ≠ op.handle) }.sendCompletion op.client
      (.timeout op.handle) (some op.handle)) := h.answer hop (fun _ _ _ => rfl) rfl
  unfold World.giveUp
  rw [sendCompletion_eq] at hans ⊢
  exact ⟨hans.books, hans.agenda, hans.waiting, hans.atDevice, hans.running⟩

/-- All operations past their deadline. -/
theorem giveUpAll {ops : List InflightOp} (hsub : ∀ op ∈ ops, op ∈ w.inflight)
    (hdistinct : (ops.map (·.handle)).Nodup) : Accounted taken (ops.foldl World.giveUp w) := by
  induction ops generalizing w with
  | nil => exact h
  | cons op ops ih =>
    obtain ⟨hnot, hrest⟩ := nodup_cons.mp hdistinct
    refine ih (h.giveUp (hsub op mem_cons_self)) (fun o ho => ?_) hrest
    unfold World.giveUp
    rw [sendCompletion_eq]
    refine mem_filter.mpr ⟨hsub o (mem_cons_of_mem _ ho), decide_eq_true fun heq => ?_⟩
    exact hnot (mem_map.mpr ⟨o, ho, heq⟩)

/-- The deadlines are looked at. -/
theorem checkTimeouts (cancels : ℕ) : Accounted taken (w.checkTimeouts cancels) := by
  have hdistinct : (w.inflight.map (·.handle)).Nodup := by
    have hd := h.books.distinct
    rwa [table, List.map_map] at hd
  have hgiven : Accounted taken ((w.inflight.filter w.expired).foldl World.giveUp w) :=
    h.giveUpAll (fun op hop => mem_of_mem_filter hop) (hdistinct.sublist (filter_sublist.map _))
  refine ⟨hgiven.books, hgiven.agenda, hgiven.waiting, fun op hop => ?_, hgiven.running⟩
  exact (hgiven.atDevice op hop).imp_left fun ⟨e, he, hdata⟩ => ⟨e, mem_append_left _ he, hdata⟩

end

/-- The operating system finishes an entry. -/
theorem complete (h : Accounted [] w) {e : Entry} {res : ℤ} (hnext : w.complete e res = some w') :
    Accounted [] w' := by
  have hqueued : Accounted [] { w with entries := w.entries.erase e, queue := w.queue ++ [(e.data, res)] } := by
    refine ⟨h.books, h.agenda, h.waiting, fun op hop => ?_, h.running⟩
    rcases h.atDevice op hop with ⟨e', he', hdata⟩ | ⟨q, hq, hdata⟩
    · by_cases heq : e' = e
      · exact .inr ⟨(e.data, res), mem_append_right _ (mem_append_right _
          mem_cons_self), heq ▸ hdata⟩
      · exact .inl ⟨e', (mem_erase_of_ne heq).mpr he', hdata⟩
    · exact .inr ⟨q, mem_append_right _ (mem_append_left _ hq), hdata⟩
  have hnoted : ∀ a, Books.Silent a → Accounted [] (record
      { w with entries := w.entries.erase e, queue := w.queue ++ [(e.data, res)] } a) := fun a ha =>
    hqueued.withLog (hqueued.books.noteAll (forall_mem_singleton.mpr ha)) fun _ hmem =>
      mem_cons_of_mem _ hmem
  unfold World.complete at hnext
  split at hnext
  · split_ifs at hnext
    · exact some.inj hnext ▸ hqueued
    · exact some.inj hnext ▸ hnoted _ trivial
  · split_ifs at hnext
    · exact some.inj hnext ▸ hqueued
    · exact some.inj hnext ▸ hnoted _ trivial
  · exact some.inj hnext ▸ hqueued

/-- **A step** keeps the accounts, if a command can be answered. -/
theorem step (h : Accounted [] w) {e : Event} (hguard : w.NextAnswerable e) (hnext : w.step e = some w') :
    Accounted [] w' := by
  cases e with
  | connect =>
    obtain ⟨hfree, hnext⟩ := ite_none_right_eq_some.mp hnext
    cases hnext
    refine ⟨?_, fun x hx => absurd (agenda_of_free hfree) (ne_nil_of_mem hx), h.waiting, h.atDevice,
      h.running⟩
    change Books True w.log w.table w.nextHandle (w.nextClient + 1) fun c =>
      (if c = w.nextClient then some [] else w.clients c).isSome
    rw [Books.isSome_ite]
    exact h.books.connect
  | disconnect client =>
    obtain ⟨hfree, hnext⟩ := ite_none_right_eq_some.mp hnext
    cases hnext
    refine ⟨?_, fun x hx => absurd (agenda_of_free hfree) (ne_nil_of_mem hx), h.waiting, h.atDevice,
      h.running⟩
    change Books True w.log w.table w.nextHandle w.nextClient fun c =>
      (if c = client then none else w.clients c).isSome
    have hleft : Books True w.log (w.table.filter fun _ => true) w.nextHandle w.nextClient
        (fun c => if c = client then false else w.connected c) := h.books.disconnect nofun
    rw [filter_true] at hleft
    rw [Books.isSome_ite]
    exact hleft
  | submit client cmd =>
    simp only [World.step] at hnext
    split at hnext
    · rename_i ingress hin
      cases hnext
      have hconn := isSome_ite_some hin (ingress ++ [cmd])
      refine ⟨?_, fun x hx => (congrFun hconn x.1).trans (h.agenda x hx), h.waiting, h.atDevice,
        h.running⟩
      exact (congrArg (Books True w.log w.table w.nextHandle w.nextClient) hconn).mpr h.books
    · cases hnext
  | take client =>
    simp only [World.step] at hnext
    split at hnext
    · rename_i cmd rest hfree hin
      cases hnext
      have hconn := isSome_ite_some hin rest
      refine ⟨?_, fun x hx => ?_, h.waiting, h.atDevice, h.running⟩
      · exact (congrArg (Books True w.log w.table w.nextHandle w.nextClient) hconn).mpr h.books
      · rw [mem_singleton.mp hx]
        exact congrArg Option.isSome (if_pos rfl)
    · cases hnext
  | next io =>
    simp only [World.step] at hnext
    split at hnext
    · rename_i client cmd rest _ _ hagenda
      obtain ⟨hhead, hsound⟩ := hguard (client, cmd) (by rw [hagenda]; rfl)
      rw [hsound] at hnext
      cases hnext
      have hc := h.agenda (client, cmd) (hagenda ▸ mem_cons_self)
      refine processCommand (w := { w with agenda := rest })
        ⟨h.books, fun x hx => ?_, h.waiting, h.atDevice, h.running⟩ hc ?_ io
      · exact h.agenda x (hagenda ▸ mem_cons_of_mem _ hx)
      · cases cmd <;> exact hhead
    · cases hnext
  | reap =>
    obtain ⟨wait, hwait, rfl⟩ := map_eq_some_iff.mp hnext
    exact h.waitForCqe hwait
  | harvest =>
    obtain ⟨-, hnext⟩ := ite_none_right_eq_some.mp hnext
    exact some.inj hnext ▸ h.harvestCompletions
  | checkTimeouts cancels =>
    obtain ⟨-, hnext⟩ := ite_none_right_eq_some.mp hnext
    exact some.inj hnext ▸ h.checkTimeouts cancels
  | complete data res =>
    simp only [World.step] at hnext
    split at hnext
    · exact h.complete hnext
    · cases hnext
  | tick n => exact some.inj hnext ▸ ⟨h.books, h.agenda, h.waiting, h.atDevice, h.running⟩

/-- The accounts are empty at the start. -/
theorem start (kind : Kind) (config : Config) : Accounted [] (start kind config) :=
  ⟨Books.start True, nofun, nofun, nofun, rfl⟩

end Accounted

end World

end Certus.BlockDevice.Ring
