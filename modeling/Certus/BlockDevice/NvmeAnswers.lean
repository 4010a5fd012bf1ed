import Certus.BlockDevice.NvmeActor

/-! # The answers of the NVMe device -/

namespace Certus.BlockDevice.Nvme

open List Option Books World

def PendingOp.entry (op : PendingOp) : Pending := ⟨op.handle, op.client, op.tag, op.kind, op.aborting⟩

namespace World

variable {w w' : World} {strict : Prop} {taken : List CompletionEntry} {client : ℕ}

/-- The client's command ends no operation that is being aborted. -/
def Answerable (w : World) (client : ℕ) : Command → Prop
  | .abortOp target => ∀ op ∈ w.pending, isOp client target op → op.aborting = false
  | .controllerReset => ∀ op ∈ w.pending, op.aborting = false
  | _ => True

instance (w : World) (client : ℕ) (cmd : Command) : Decidable (w.Answerable client cmd) := by
  cases cmd <;> unfold Answerable <;> infer_instance

/-- The step ends no operation that is being aborted, other than by its completion. -/
def NextAnswerable (w : World) : Event → Prop
  | .next _ => ∀ x ∈ w.agenda.head?, w.Answerable x.1 x.2.2
  | .checkTimeouts => ∀ op ∈ w.pending, op.deadline ≤ w.clock → op.aborting = false
  | _ => True

instance (w : World) (e : Event) : Decidable (w.NextAnswerable e) := by
  cases e <;> unfold NextAnswerable <;> infer_instance

/-- The step carries out a controller reset of a batch. -/
def nestedReset (w : World) : Event → Bool
  | .next _ => match w.agenda.head? with
      | some (_, false, .controllerReset) => true
      | _ => false
  | _ => false

/-- The controller has every operation of the table, or it was collected. -/
def AtDevice (w : World) (taken : List CompletionEntry) : Prop :=
  ∀ op ∈ w.pending, (∃ d ∈ w.device, d.handle = op.handle ∧ d.client = op.client) ∨
    ∃ e ∈ taken ++ w.completions, e.handle = op.handle ∧ e.client = op.client

/-- What the controller has was asked for. -/
def Known (log : List Act) (handle : ℕ) (kind : OpKind) : Prop :=
  ∃ r, .asked handle r ∈ log ∧ r.kind = kind ∧ kind ≠ .zeros

/-- The invariant, while the completions of `taken` are still to be handled. -/
structure Sound (strict : Prop) (taken : List CompletionEntry) (w : World) : Prop where
  books : Books strict w.log w.table w.nextHandle w.nextClient w.connected
  agenda : ∀ x ∈ w.agenda, w.connected x.1
  running : w.panicked = false
  owners : ∀ op ∈ w.pending, w.connected op.client
  atDevice : w.AtDevice taken
  devices : ∀ d ∈ w.device, Known w.log d.handle d.kind
  collected : ∀ e ∈ taken ++ w.completions, Known w.log e.handle e.kind

/-- A completion reaches its client if it is connected, and the log either way. -/
theorem deliver_eq (w : World) (client : ℕ) (completion : Completion) (ends : Option ℕ) :
    w.deliver client completion ends =
      { w with log := logSend w.connected client completion ends w.log } := by
  unfold deliver logSend connected
  split_ifs <;> rfl

/-- An operation that is removed leaves the table. -/
theorem table_filter (w : World) (h : ℕ) :
    (w.pending.filter (·.handle ≠ h)).map PendingOp.entry = w.table.filter (·.handle ≠ h) := by
  rw [table, List.filter_map]
  rfl

variable {op o : PendingOp} {ops : List PendingOp}

/-- A pending operation is in the table. -/
theorem mem_table (hop : op ∈ w.pending) : op.entry ∈ w.table :=
  mem_map_of_mem hop

/-- Between two commands the agenda is empty. -/
theorem agenda_of_free (hfree : w.free) : w.agenda = [] := by
  simp only [free, Bool.and_eq_true, List.isEmpty_iff] at hfree
  exact hfree.1

/-- What was asked stays in the log. -/
theorem Known.mono {log log' : List Act} {h : ℕ} {kind : OpKind} (hknown : Known log h kind)
    (hlog : ∀ a ∈ log, a ∈ log') : Known log' h kind := by
  obtain ⟨r, hr, hrest⟩ := hknown
  exact ⟨r, hlog _ hr, hrest⟩

/-- The operation is ended with a completion. -/
def endOp (w : World) (op : PendingOp) (completion : Completion) : World :=
  { w with pending := w.pending.filter (·.handle ≠ op.handle) }.deliver op.client completion
    (some op.handle)

namespace Sound

variable (h : Sound strict taken w)
include h

/-- The log and the handles go on; the rest stays. -/
theorem withLog {log : List Act} {next : ℕ}
    (hbooks : Books strict log w.table next w.nextClient w.connected) (hlog : ∀ a ∈ w.log, a ∈ log) :
    Sound strict taken { w with log := log, nextHandle := next } where
  books := hbooks
  agenda := h.agenda
  running := h.running
  owners := h.owners
  atDevice := h.atDevice
  devices d hd := (h.devices d hd).mono hlog
  collected e he := (h.collected e he).mono hlog

/-- **A request answered at once**: it is asked and ended in one step. -/
theorem now (r : Request) (result : Except NvmeBlockError Unit)
    (hc : w.connected r.client) (hkind : r.async → r.kind ≠ .zeros) :
    Sound strict taken ((w.allocHandle.record (.asked w.nextHandle r)).deliver r.client
      (r.kind.done w.nextHandle r.tag result) (some w.nextHandle)) := by
  rw [deliver_eq]
  exact h.withLog (h.books.askNow (h.books.clients _ hc) (fun _ h => absurd h not_mem_nil)
    (fun hasync => Completion.ends_done (hkind hasync) result) (isAck_done ..))
    fun a ha => mem_logSend (mem_cons_of_mem _ ha) ..

variable {completion : Completion}

/-- A client is sent what is no answer to a read or write. -/
theorem note (client : ℕ) (hack : isAck completion = false) :
    Sound strict taken (w.deliver client completion none) := by
  rw [deliver_eq]
  exact h.withLog (h.books.noteSent client hack) fun a ha => mem_logSend ha ..

/-- **An asynchronous request** fails at once, or is pending at the controller. -/
theorem doAsync (hc : w.connected client) {kind : OpKind}
    (hkind : kind ≠ .zeros) (lba : ℕ) (buf : Buffer) (timeoutMs tag : ℕ) (io : Io) :
    Sound strict taken (w.doAsync client kind lba buf timeoutMs tag io) := by
  unfold World.doAsync
  dsimp only
  split
  · exact h.now ⟨client, tag, kind, true, lba, buf.len⟩ _ hc fun _ => hkind
  · split_ifs
    · have hask := h.books.ask (r := ⟨client, tag, kind, true, lba, buf.len⟩)
        (h.books.clients _ hc) rfl
      have hknown : Known (.asked w.nextHandle ⟨client, tag, kind, true, lba, buf.len⟩ :: w.log)
          w.nextHandle kind := ⟨_, mem_cons_self, rfl, hkind⟩
      exact {
        books := hask
        agenda := h.agenda
        running := h.running
        owners := forall_mem_cons.mpr ⟨hc, h.owners⟩
        atDevice := forall_mem_cons.mpr ⟨.inl ⟨_, mem_cons_self, rfl, rfl⟩,
          fun op hop => (h.atDevice op hop).imp_left fun ⟨d, hd, heq⟩ =>
            ⟨d, mem_cons_of_mem _ hd, heq⟩⟩
        devices := forall_mem_cons.mpr ⟨hknown, fun d hd =>
          (h.devices d hd).mono fun _ => mem_cons_of_mem _⟩
        collected := fun e he => (h.collected e he).mono fun _ => mem_cons_of_mem _ }
    · exact h.now ⟨client, tag, kind, true, lba, buf.len⟩ _ hc fun _ => hkind

/-- An abort marks the operation, or is acknowledged at once. -/
theorem abortOp (hc : w.connected client) {target : ℕ}
    (hfirst : strict → ∀ op ∈ w.pending, isOp client target op → op.aborting = false) :
    Sound strict taken (w.abortOp client target) := by
  unfold World.abortOp
  dsimp only
  by_cases hany : w.pending.any (isOp client target)
  · obtain ⟨op, hop, htest⟩ := any_eq_true.mp hany
    obtain ⟨rfl, rfl⟩ : op.handle = target ∧ op.client = client := by simpa [isOp] using htest
    -- it is the only operation with the handle
    have hmark : (w.pending.map fun o => if isOp op.client op.handle o then
        { o with aborting := true } else o).map PendingOp.entry = Books.mark w.table op.handle := by
      rw [table, Books.mark, List.map_map, List.map_map]
      refine map_congr_left fun o ho => ?_
      by_cases heq : o.handle = op.handle
      · have hsame : o.entry = op.entry := inj_on_of_nodup_map h.books.distinct
          (mem_table ho) (mem_table hop) heq
        have hclient : o.client = op.client := congrArg Pending.client hsame
        simp only [Function.comp_apply, isOp, heq, hclient, decide_true, Bool.and_self, if_true]
        rfl
      · simp only [Function.comp_apply, isOp, heq, decide_false, Bool.false_and, if_false,
          Bool.false_eq_true]
        rfl
    have hback : ∀ o ∈ (w.pending.map fun o => if isOp op.client op.handle o then
        { o with aborting := true } else o), ∃ o' ∈ w.pending, o.handle = o'.handle ∧
          o.client = o'.client := by
      intro o ho
      obtain ⟨o', ho', rfl⟩ := mem_map.mp ho
      refine ⟨o', ho', ?_⟩
      split_ifs <;> exact ⟨rfl, rfl⟩
    have hbooks := h.books.markAborting (mem_table hop) fun hstrict => hfirst hstrict op hop htest
    change Books strict _ (Books.mark w.table op.handle) _ _ _ at hbooks
    rw [← hmark] at hbooks
    rw [if_pos (show (w.record _).pending.any _ from hany)]
    refine ⟨?_, h.agenda, h.running, fun o ho => ?_, fun o ho => ?_, fun d hd => ?_, fun e he => ?_⟩
    · exact hbooks
    · obtain ⟨o', ho', -, hclient⟩ := hback o ho
      exact hclient ▸ h.owners o' ho'
    · obtain ⟨o', ho', hhandle, hclient⟩ := hback o ho
      rw [hhandle, hclient]
      exact h.atDevice o' ho'
    · exact (h.devices d hd).mono fun _ => mem_cons_of_mem _
    · exact (h.collected e he).mono fun _ => mem_cons_of_mem _
  · rw [if_neg (show ¬ (w.record _).pending.any _ from hany), deliver_eq]
    refine h.withLog ?_ fun a ha => mem_logSend (mem_cons_of_mem _ ha) ..
    change Books strict (logSend w.connected client _ _ (_ :: w.log)) _ _ _ _
    rw [logSend, if_pos hc]
    exact h.books.ackIdle hc target

/-- **An operation ends** once: it leaves the table with its completion. -/
theorem endOp {op : PendingOp} (hop : op ∈ w.pending)
    (hends : ∀ r, .asked op.handle r ∈ w.log → r.tag = op.tag → r.kind = op.kind →
      completion.Ends r op.handle) (hack : strict → isAck completion = op.aborting) :
    Sound strict taken (w.endOp op completion) := by
  unfold World.endOp
  rw [deliver_eq]
  have hlog : ∀ a ∈ w.log, a ∈ logSend w.connected op.client completion (some op.handle)
      w.log := fun a ha => mem_logSend ha ..
  refine ⟨?_, h.agenda, h.running, fun o ho => h.owners o (mem_of_mem_filter ho),
    fun o ho => h.atDevice o (mem_of_mem_filter ho), fun d hd => (h.devices d hd).mono hlog,
    fun e he => (h.collected e he).mono hlog⟩
  change Books strict (logSend w.connected op.client completion (some op.handle) w.log)
    ((w.pending.filter (·.handle ≠ op.handle)).map PendingOp.entry) w.nextHandle w.nextClient
    w.connected
  rw [table_filter]
  exact h.books.answer (mem_table hop) hends hack

end Sound

/-- Other operations stay pending. -/
theorem mem_endOp {completion : Completion} (ho : o ∈ w.pending) (hne : o.handle ≠ op.handle) :
    o ∈ (w.endOp op completion).pending := by
  unfold endOp
  rw [deliver_eq]
  exact mem_filter.mpr ⟨ho, decide_eq_true hne⟩

/-- The controller does not see the end of an operation. -/
theorem device_endOp (w : World) (op : PendingOp) (completion : Completion) :
    (w.endOp op completion).device = w.device ∧
      (w.endOp op completion).completions = w.completions := by
  unfold endOp
  rw [deliver_eq]
  exact ⟨rfl, rfl⟩

variable (completion : ℕ → Completion)

/-- Operations of the table are ended one after the other. -/
def endAll (w : World) (ops : List PendingOp) : World :=
  ops.foldl (fun w op => w.endOp op (completion op.handle)) w

/-- Several operations end, one after the other. -/
theorem Sound.endAll (hends : ∀ n r, (completion n).Ends r n)
    (hack : ∀ n, isAck (completion n) = false) (hdistinct : (ops.map (·.handle)).Nodup)
    (h : Sound strict taken w) (hsub : ∀ op ∈ ops, op ∈ w.pending)
    (hfirst : strict → ∀ op ∈ ops, op.aborting = false) :
    Sound strict taken (endAll completion w ops) := by
  induction ops generalizing w with
  | nil => exact h
  | cons op ops ih =>
    obtain ⟨hnot, hrest⟩ := nodup_cons.mp hdistinct
    refine ih hrest (h.endOp (hsub op mem_cons_self) (fun r _ _ _ => hends _ r)
      fun hstrict => (hack _).trans (hfirst hstrict op mem_cons_self).symm) (fun o ho => ?_)
      fun hstrict o ho => hfirst hstrict o (mem_cons_of_mem _ ho)
    exact mem_endOp (hsub o (mem_cons_of_mem _ ho)) fun heq =>
      hnot (mem_map.mpr ⟨o, ho, heq⟩)

/-- Other operations stay pending. -/
theorem mem_endAll {completion : ℕ → Completion} (ho : o ∈ w.pending)
    (hne : ∀ op ∈ ops, o.handle ≠ op.handle) : o ∈ (endAll completion w ops).pending := by
  induction ops generalizing w with
  | nil => exact ho
  | cons op ops ih =>
    exact ih (mem_endOp ho (hne op mem_cons_self)) fun o' ho' =>
      hne o' (mem_cons_of_mem _ ho')

/-- The controller does not see it. -/
theorem device_endAll (ops : List PendingOp) (w : World) :
    (endAll completion w ops).device = w.device ∧
      (endAll completion w ops).completions = w.completions := by
  induction ops generalizing w with
  | nil => exact ⟨rfl, rfl⟩
  | cons op ops ih =>
    have hop := device_endOp w op (completion op.handle)
    exact ⟨(ih _).1.trans hop.1, (ih _).2.trans hop.2⟩

/-- A reset ends all pending operations before it is answered. -/
theorem handleControllerReset_eq (w : World) (client : ℕ) (io : Io) :
    w.handleControllerReset client io =
      (endAll (fun n => .error (some n) (.aborted "cancelled due to controller reset")) w
        w.pending).deliver client (.resetDone io.result) none :=
  rfl

/-- The timeouts end the operations past their deadline. -/
theorem checkTimeouts_eq (w : World) : w.checkTimeouts =
    endAll .timeout w (w.pending.filter fun op => decide (op.deadline ≤ w.clock)) :=
  rfl

namespace Sound

/-- No two pending operations have one handle. -/
theorem handles_nodup (h : Sound strict taken w) : (w.pending.map (·.handle)).Nodup := by
  have hd := h.books.distinct
  rwa [table, List.map_map] at hd

/-- **A command** that can be answered is. -/
theorem dispatchCommand (h : Sound strict taken w) (hc : w.connected client) {top : Bool}
    {cmd : Command} (hcmd : strict → w.Answerable client cmd)
    (htop : cmd = .controllerReset → top) (io : Io) :
    Sound strict taken (w.dispatchCommand client top io cmd) := by
  cases cmd with
  | readSync nsId lba buf => exact h.now ⟨client, 0, .read, false, lba, buf.len⟩ _ hc nofun
  | writeSync nsId lba buf => exact h.now ⟨client, 0, .write, false, lba, buf.len⟩ _ hc nofun
  | readAsync nsId lba buf timeoutMs tag =>
    exact h.doAsync hc (OpKind.noConfusion : OpKind.read ≠ .zeros) ..
  | writeAsync nsId lba buf timeoutMs tag =>
    exact h.doAsync hc (OpKind.noConfusion : OpKind.write ≠ .zeros) ..
  | writeZeros nsId lba numBlocks => exact h.now ⟨client, 0, .zeros, false, lba, numBlocks⟩ _ hc nofun
  | batchSubmit ops =>
    refine { h with agenda := fun x hx => ?_ }
    rcases mem_append.mp hx with hx | hx
    · obtain ⟨op, -, rfl⟩ := mem_map.mp hx
      exact hc
    · exact h.agenda x hx
  | abortOp handle => exact h.abortOp hc hcmd
  | nsProbe => exact h.note client rfl
  | flushSync nsId =>
    have hskip : Sound strict taken w.allocHandle := { h with books := h.books.skip }
    exact hskip.note client rfl
  | nsCreate | nsFormat | nsDelete =>
    refine h.note client ?_
    split <;> rfl
  | controllerReset =>
    rw [World.dispatchCommand, if_pos (htop rfl), handleControllerReset_eq]
    exact (h.endAll (fun n => .error (some n) (.aborted "cancelled due to controller reset"))
      (fun _ _ => rfl) (fun _ => rfl) h.handles_nodup (fun _ => id) hcmd).note client rfl

/-- A collected completion ends its operation, unless it has ended already. -/
theorem handleCompletion {e : CompletionEntry} (h : Sound strict (e :: taken) w) :
    Sound strict taken (w.handleCompletion e) := by
  -- without its operation in the table the completion is not needed
  have hdrop : ∀ {w : World}, Sound strict (e :: taken) w →
      (∀ op ∈ w.pending, ¬ (e.handle = op.handle ∧ e.client = op.client)) → Sound strict taken w := by
    intro w h hnot
    refine { h with
      atDevice := fun op hop => (h.atDevice op hop).imp_right ?_
      collected := fun e' he' => h.collected e' (mem_cons_of_mem _ he') }
    rintro ⟨e', he', heq⟩
    rcases mem_cons.mp he' with rfl | he'
    · exact absurd heq (hnot op hop)
    · exact ⟨e', he', heq⟩
  unfold World.handleCompletion
  split_ifs with hconn
  · cases hfind : w.pending.find? (isOp e.client e.handle) with
    | some op =>
      have htest := find?_some hfind
      obtain ⟨hhandle, hclient⟩ : op.handle = e.handle ∧ op.client = e.client := by
        simpa [isOp] using htest
      obtain ⟨r, hr, hkind, hzeros⟩ := h.collected e mem_cons_self
      have hended : Sound strict (e :: taken) (w.endOp op
          (if op.aborting then .abortAck e.handle else e.kind.done e.handle op.tag e.result)) := by
        refine h.endOp (mem_of_find?_eq_some hfind) (fun r' hr' htag _ => ?_) fun _ => ?_
        · rw [hhandle] at hr' ⊢
          split_ifs
          · rfl
          · obtain rfl := h.books.unique _ _ _ hr hr'
            rw [← htag, ← hkind]
            exact Completion.ends_done (hkind ▸ hzeros) _
        · split_ifs with haborting
          · exact haborting.symm
          · exact (isAck_done ..).trans (Bool.not_eq_true _ ▸ haborting).symm
      have hdone := hdrop hended fun o ho heq => ?_
      · unfold World.endOp at hdone
        rw [hhandle, hclient] at hdone
        exact hdone
      · unfold World.endOp at ho
        rw [deliver_eq] at ho
        exact of_decide_eq_true (mem_filter.mp ho).2 (heq.1.symm.trans hhandle.symm)
    | none =>
      refine hdrop h fun op hop heq => find?_eq_none.mp hfind op hop ?_
      simpa [isOp] using ⟨heq.1.symm, heq.2.symm⟩
  · exact hdrop h fun op hop heq => hconn (heq.2 ▸ h.owners op hop)

/-- All completions that were collected. -/
theorem handleCompletions (h : Sound strict taken w) :
    Sound strict [] (taken.foldl World.handleCompletion w) := by
  induction taken generalizing w with
  | nil => exact h
  | cons e taken ih => exact ih h.handleCompletion

section

variable (h : Sound strict [] w)
include h

/-- The completions collected so far are handled. -/
theorem drain : Sound strict [] w.drain := by
  refine handleCompletions { h with atDevice := ?_, collected := ?_ }
  · intro op hop
    exact (h.atDevice op hop).imp_right fun ⟨e, he, heq⟩ => ⟨e, mem_append_left _ he, heq⟩
  · intro e he
    exact h.collected e (append_nil w.completions ▸ he)

/-- The controller reports an operation. -/
theorem collect {d : DeviceOp} (hd : d ∈ w.device) (result : Except NvmeBlockError Unit) :
    Sound strict [] { w with
      device := w.device.erase d
      completions := w.completions ++ [⟨d.handle, d.client, d.kind, result⟩] } := by
  refine { h with atDevice := fun op hop => ?_, devices := ?_, collected := ?_ }
  · rcases h.atDevice op hop with ⟨d', hd', heq⟩ | ⟨e, he, heq⟩
    · by_cases hsame : d' = d
      · exact .inr ⟨_, mem_append_right _ (mem_append_right _ mem_cons_self), hsame ▸ heq⟩
      · exact .inl ⟨d', (mem_erase_of_ne hsame).mpr hd', heq⟩
    · exact .inr ⟨e, mem_append_right _ (mem_append_left _ he), heq⟩
  · exact fun d' hd' => h.devices d' (mem_of_mem_erase hd')
  · intro e he
    rcases mem_append.mp he with he | he
    · cases he
    · rcases mem_append.mp he with he | he
      · exact h.collected e (mem_append_right _ he)
      · rw [mem_singleton.mp he]
        exact h.devices d hd

/-- **A step** keeps the invariant, unless it is the reset of a batch. -/
theorem step {e : Event} (hnested : w.nestedReset e = false)
    (hguard : strict → w.NextAnswerable e) (hnext : w.step e = some w') : Sound strict [] w' := by
  cases e with
  | connect =>
    obtain ⟨hfree, hnext⟩ := ite_none_right_eq_some.mp hnext
    cases hnext
    have hconn := Books.isSome_ite w.clients w.nextClient (some [])
    refine { h with
      books := (congrArg (Books strict w.log w.table w.nextHandle (w.nextClient + 1)) hconn).mpr
        h.books.connect
      agenda := fun x hx => absurd (agenda_of_free hfree) (ne_nil_of_mem hx)
      owners := fun op hop => (congrFun hconn op.client).trans ?_ }
    split_ifs
    · rfl
    · exact h.owners op hop
  | disconnect client =>
    obtain ⟨hfree, hnext⟩ := ite_none_right_eq_some.mp hnext
    cases hnext
    have hconn := Books.isSome_ite w.clients client none
    have hleft : Books strict w.log (w.table.filter (·.client ≠ client)) w.nextHandle w.nextClient
        (fun c => if c = client then false else w.connected c) :=
      h.books.disconnect fun op hop => by simpa using hop
    rw [table, List.filter_map] at hleft
    refine { h with
      books := (congrArg (Books strict w.log _ w.nextHandle w.nextClient) hconn).mpr hleft
      agenda := fun x hx => absurd (agenda_of_free hfree) (ne_nil_of_mem hx)
      owners := fun op hop => (congrFun hconn op.client).trans ?_
      atDevice := fun op hop => h.atDevice op (mem_of_mem_filter hop) }
    have hne : op.client ≠ client := of_decide_eq_true (mem_filter.mp hop).2
    rw [if_neg hne]
    exact h.owners op (mem_of_mem_filter hop)
  | submit client cmd =>
    simp only [World.step] at hnext
    split at hnext
    · rename_i ingress hin
      cases hnext
      have hconn := isSome_ite_some hin (ingress ++ [cmd])
      exact { h with
        books := (congrArg (Books strict w.log w.table w.nextHandle w.nextClient) hconn).mpr h.books
        agenda := fun x hx => (congrFun hconn x.1).trans (h.agenda x hx)
        owners := fun op hop => (congrFun hconn op.client).trans (h.owners op hop) }
    · cases hnext
  | take client =>
    simp only [World.step] at hnext
    split at hnext
    · rename_i cmd rest hfree hin
      cases hnext
      have hconn := isSome_ite_some hin rest
      refine { h with
        books := (congrArg (Books strict w.log w.table w.nextHandle w.nextClient) hconn).mpr h.books
        agenda := fun x hx => ?_
        owners := fun op hop => (congrFun hconn op.client).trans (h.owners op hop) }
      rw [mem_singleton.mp hx]
      exact congrArg Option.isSome (if_pos rfl)
    · cases hnext
  | next io =>
    simp only [World.step] at hnext
    split at hnext
    · rename_i client top cmd rest _ hagenda
      cases hnext
      have hc := h.agenda (client, top, cmd) (hagenda ▸ mem_cons_self)
      have hrest : Sound strict [] { w with agenda := rest } :=
        { h with agenda := fun x hx => h.agenda x (hagenda ▸ mem_cons_of_mem _ hx) }
      refine hrest.dispatchCommand hc (fun hstrict => ?_) (fun hreset => ?_) io
      · have hhead := hguard hstrict (client, top, cmd) (by rw [hagenda]; rfl)
        cases cmd <;> exact hhead
      · subst hreset
        cases top with
        | true => rfl
        | false =>
          rw [nestedReset, hagenda] at hnested
          cases hnested
    · cases hnext
  | collect handle result =>
    simp only [World.step] at hnext
    split at hnext
    · rename_i d hfind
      cases hnext
      exact h.collect (mem_of_find?_eq_some hfind) result
    · cases hnext
  | drain =>
    obtain ⟨-, hnext⟩ := ite_none_right_eq_some.mp hnext
    exact some.inj hnext ▸ h.drain
  | checkTimeouts =>
    obtain ⟨-, hnext⟩ := ite_none_right_eq_some.mp hnext
    rw [← some.inj hnext, checkTimeouts_eq]
    refine h.endAll .timeout (fun _ _ => rfl) (fun _ => rfl)
      (h.handles_nodup.sublist (filter_sublist.map _))
      (fun op hop => mem_of_mem_filter hop) fun hstrict op hop => ?_
    obtain ⟨hop, hexpired⟩ := mem_filter.mp hop
    exact hguard hstrict op hop (of_decide_eq_true hexpired)
  | tick n => exact some.inj hnext ▸ { h with }

end

/-- The invariant holds at the start. -/
theorem start (strict : Prop) (ticksPerMs : ℕ) : Sound strict [] (start ticksPerMs) :=
  ⟨Books.start strict, nofun, rfl, nofun, nofun, nofun, nofun⟩

end Sound

end World

end Certus.BlockDevice.Nvme
