import Certus.BlockDevice.RingActor

/-! # What a success of the kernel and the file device means

A read, write or write-zeros is answered with a success when its entry, or the call to the operating
system, returned no error; the count it returned is not looked at. The file device answers a write as
soon as the write's own entry is complete, whatever becomes of the data sync linked to it.

* **`World.whole_transfers`** — in every run under `Full` every success is `Whole`;
  **`World.success_of_partial_transfer`** without it. -/

namespace Certus.BlockDevice.Ring

open List World

/-- The command's bytes were all moved, by a move in the log after which no data sync stands in
`before`. -/
def Moved (c : Config) (h : ℕ) (r : Request) (since before : List Act) (log : List Act) : Prop :=
  log = since ++ .moved h (r.lba * c.blockSize) r.len :: before ∧ .asked h r ∈ before

/-- A success answers a command that was carried out in full, and on the file device one that moved
data to the file only after a data sync. -/
def Whole (c : Config) (isFile : Bool) (past : List Act) : Act → Prop
  | .sent _ completion (some h) => completion.isOk →
      ∃ r since before, Moved c h r since before past ∧
        (∃ tag, completion = r.kind.done h tag (.ok ())) ∧
        (isFile → r.kind ≠ .read → .synced h ∈ since)
  | _ => True

/-- The bytes that a command of the client moves. -/
def Config.bytes (c : Config) : Command → ℕ
  | .readSync _ _ buf | .writeSync _ _ buf | .readAsync _ _ buf _ _ | .writeAsync _ _ buf _ _ => buf.len
  | .writeZeros _ _ numBlocks => numBlocks * c.blockSize
  | _ => 0

/-- The operating system moves the whole of a buffer or reports an error, and when completions are
harvested on the file device, the data syncs of the writes among them have succeeded. -/
def Full (w : World) : Event → Prop
  | .next io => ∀ e ∈ w.agenda.head?, io.ret < 0 ∨ io.ret = w.config.bytes e.2
  | .complete data res => ∀ e ∈ w.entries.find? (·.data = data), res < 0 ∨ res = e.want
  | .harvest => w.kind.isFile → ∀ op ∈ w.inflight, op.isRead = false →
      ∀ cqe ∈ w.queue, cqe.1 = .op op.handle → 0 ≤ cqe.2 →
        w.log.any (fun a => match a with | .synced h => h = op.handle | _ => false)
  | _ => True

/-- The invariant behind `Whole`. -/
structure Sound (w : World) : Prop where
  whole : Throughout (Whole w.config w.kind.isFile) w.log
  numbered : ∀ h r, .asked h r ∈ w.log → h < w.nextHandle
  unique : ∀ h r r', .asked h r ∈ w.log → .asked h r' ∈ w.log → r = r'
  synced : ∀ h, .synced h ∈ w.log → h < w.nextHandle
  entries : ∀ e ∈ w.entries, ∀ h, e.data = .op h → .synced h ∉ w.log ∧
    ∃ r, .asked h r ∈ w.log ∧ e.offset = r.lba * w.config.blockSize ∧ e.want = r.len
  syncs : ∀ e ∈ w.entries, ∀ h, e.data = .sync h → h < w.nextHandle
  queue : ∀ h res, (.op h, res) ∈ w.queue → 0 ≤ res →
    ∃ r since before, Moved w.config h r since before w.log ∧ .synced h ∉ before
  inflight : ∀ op ∈ w.inflight, ∃ r, .asked op.handle r ∈ w.log ∧
    r.kind = if op.isRead then .read else .write
  waiting : ∀ wait, w.waiting = some wait → w.kind = .kernel ∧
    ∃ r, .asked wait.handle r ∈ w.log ∧ r.kind = wait.kind

variable {c : Config}

theorem Moved.cons {h : ℕ} {r : Request} {since before log : List Act}
    (hm : Moved c h r since before log) (a : Act) : Moved c h r (a :: since) before (a :: log) :=
  ⟨by rw [hm.1]; rfl, hm.2⟩

theorem isOk_done_error (kind : OpKind) (h tag : ℕ) (e : NvmeBlockError) :
    (kind.done h tag (.error e)).isOk = false := by cases kind <;> rfl

/-- The completion of a failed command says nothing about its bytes. -/
theorem whole_of_error {isFile : Bool} {past : List Act} {client : ℕ} {completion : Completion}
    {ends : Option ℕ} (herr : completion.isOk = false) :
    Whole c isFile past (.sent client completion ends) := by
  cases ends with
  | none => trivial
  | some h =>
    intro hok
    rw [herr] at hok
    cases hok

namespace Sound

variable {w : World}

/-! ### Acts of the log -/

/-- One more act: a command has the next handle, and a data sync succeeds after the writes it is
for. -/
theorem cons (hw : Sound w) {a : Act} {next : ℕ} (hnext : w.nextHandle ≤ next)
    (ha : Whole w.config w.kind.isFile w.log a)
    (hask : ∀ h r, a = .asked h r → h = w.nextHandle ∧ h < next)
    (hsync : ∀ h, a = .synced h → h < next ∧ ∀ e ∈ w.entries, e.data ≠ .op h) :
    Sound { w with log := a :: w.log, nextHandle := next } where
  whole := ⟨ha, hw.whole⟩
  numbered h r hmem := by
    rcases mem_cons.mp hmem with heq | hmem
    · exact (hask h r heq.symm).2
    · exact Nat.lt_of_lt_of_le (hw.numbered h r hmem) hnext
  unique h r r' hr hr' := by
    rcases mem_cons.mp hr with heq | hold <;> rcases mem_cons.mp hr' with heq' | hold'
    · exact (Act.asked.inj (heq.trans heq'.symm)).2
    · exact absurd (hw.numbered h r' hold') ((hask h r heq.symm).1 ▸ Nat.lt_irrefl _)
    · exact absurd (hw.numbered h r hold) ((hask h r' heq'.symm).1 ▸ Nat.lt_irrefl _)
    · exact hw.unique h r r' hold hold'
  synced h hmem := by
    rcases mem_cons.mp hmem with heq | hmem
    · exact (hsync h heq.symm).1
    · exact Nat.lt_of_lt_of_le (hw.synced h hmem) hnext
  entries e he h hdata := by
    obtain ⟨hnot, r, hr, hrest⟩ := hw.entries e he h hdata
    refine ⟨fun hmem => ?_, r, mem_cons_of_mem _ hr, hrest⟩
    rcases mem_cons.mp hmem with heq | hmem
    · exact (hsync h heq.symm).2 e he hdata
    · exact hnot hmem
  syncs e he h hdata := Nat.lt_of_lt_of_le (hw.syncs e he h hdata) hnext
  queue h res hq hpos := by
    obtain ⟨r, since, before, hmoved, hnot⟩ := hw.queue h res hq hpos
    exact ⟨r, a :: since, before, hmoved.cons a, hnot⟩
  inflight op hop := by
    obtain ⟨r, hr, hkind⟩ := hw.inflight op hop
    exact ⟨r, mem_cons_of_mem _ hr, hkind⟩
  waiting wait hwait := by
    obtain ⟨hkernel, r, hr, hkind⟩ := hw.waiting wait hwait
    exact ⟨hkernel, r, mem_cons_of_mem _ hr, hkind⟩

/-- Something is logged that is no new command and no data sync. -/
theorem record (hw : Sound w) {a : Act} (ha : Whole w.config w.kind.isFile w.log a)
    (hask : ∀ h r, a ≠ .asked h r) (hsync : ∀ h, a ≠ .synced h) : Sound (w.record a) :=
  hw.cons (Nat.le_refl _) ha (fun h r heq => absurd heq (hask h r)) fun h heq =>
    absurd heq (hsync h)

variable {client h : ℕ} {completion : Completion} {ends : Option ℕ} {io : Io} {r : Request}
  {w' : World}

section

variable (hw : Sound w)
include hw

theorem sendCompletion (ha : Whole w.config w.kind.isFile w.log (.sent client completion ends)) :
    Sound (w.sendCompletion client completion ends) := by
  rw [World.sendCompletion]
  split_ifs
  · exact hw.record ha nofun nofun
  · exact hw

theorem sendError (herr : completion.isOk = false) :
    Sound (w.sendCompletion client completion ends) :=
  hw.sendCompletion (whole_of_error herr)

theorem asked (r : Request) : Sound (w.nextOpHandle.record (.asked w.nextHandle r)) := by
  refine hw.cons (Nat.le_succ _) trivial ?_ nofun
  rintro h r' ⟨⟩
  exact ⟨rfl, Nat.lt_succ_self _⟩

theorem recordSynced (hlt : h < w.nextHandle)
    (hdone : ∀ e ∈ w.entries, e.data ≠ .op h) : Sound (w.record (.synced h)) := by
  refine hw.cons (Nat.le_refl _) trivial nofun ?_
  rintro h' ⟨⟩
  exact ⟨hlt, hdone⟩

end

/-! ### Commands -/

/-- A command that was just accepted: it is in the log and nothing has been done for it. -/
structure Fresh (w : World) (h : ℕ) (r : Request) : Prop where
  asked : .asked h r ∈ w.log
  unsynced : .synced h ∉ w.log
  idle : ∀ e ∈ w.entries, e.data ≠ .op h

section

variable (hw : Sound w)
include hw

theorem fresh (r : Request) :
    Fresh (w.nextOpHandle.record (.asked w.nextHandle r)) w.nextHandle r where
  asked := mem_cons_self ..
  unsynced hin := by
    rcases mem_cons.mp hin with heq | hin
    · cases heq
    · exact Nat.lt_irrefl _ (hw.synced _ hin)
  idle e he hdata := by
    obtain ⟨-, r', hr', -⟩ := hw.entries e he _ hdata
    exact Nat.lt_irrefl _ (hw.numbered _ _ hr')

theorem transfer (hfresh : Fresh w h r) (client tag : ℕ) (hfull : io.ret < 0 ∨ io.ret = r.len) :
    Sound (w.transfer client h tag r.kind r.lba io) := by
  rw [World.transfer]
  split_ifs with hneg hread hsync
  · exact hw.sendError (isOk_done_error ..)
  all_goals
    have hret : io.ret = r.len := hfull.resolve_left hneg
    have hnat : io.ret.toNat = r.len := by rw [hret]; exact Int.toNat_natCast _
    have hmove : Sound (w.record (.moved h (w.offsetForLba r.lba) io.ret.toNat)) :=
      hw.record trivial nofun nofun
    have hmoved : Moved w.config h r [] w.log
        (.moved h (w.offsetForLba r.lba) io.ret.toNat :: w.log) :=
      ⟨by rw [hnat]; rfl, hfresh.asked⟩
  · exact hmove.sendCompletion fun _ =>
      ⟨r, [], w.log, hmoved, ⟨tag, rfl⟩, fun _ hnot => absurd hread hnot⟩
  · have hsynced := hmove.recordSynced (hw.numbered h r hfresh.asked) hfresh.idle
    exact hsynced.sendCompletion fun _ =>
      ⟨r, [.synced h], w.log, hmoved.cons _, ⟨tag, rfl⟩, fun _ _ => mem_singleton.mpr rfl⟩
  · exact hmove.sendError (isOk_done_error ..)

theorem push (hfresh : Fresh w h r) : Sound (w.push h r.lba r.len) := by
  refine { hw with entries := fun e he h' hdata => ?_, syncs := fun e he h' hdata => ?_ }
  · rcases mem_append.mp he with hold | hnew
    · exact hw.entries e hold h' hdata
    · cases mem_singleton.mp hnew
      cases hdata
      exact ⟨hfresh.unsynced, r, hfresh.asked, rfl, rfl⟩
  · rcases mem_append.mp he with hold | hnew
    · exact hw.syncs e hold h' hdata
    · cases mem_singleton.mp hnew
      cases hdata

theorem appendEntries {es : List Entry}
    (hes : ∀ e ∈ es, (∀ h, e.data ≠ .op h) ∧ ∀ h, e.data = .sync h → h < w.nextHandle) :
    Sound { w with entries := w.entries ++ es } := by
  refine { hw with entries := fun e he h hdata => ?_, syncs := fun e he h hdata => ?_ }
  · rcases mem_append.mp he with hold | hnew
    · exact hw.entries e hold h hdata
    · exact absurd hdata ((hes e hnew).1 h)
  · rcases mem_append.mp he with hold | hnew
    · exact hw.syncs e hold h hdata
    · exact (hes e hnew).2 h hdata

theorem pushSync (hlt : h < w.nextHandle) (kind : OpKind) (io : Io) :
    Sound (w.pushSync h kind io) := by
  rw [World.pushSync]
  split_ifs
  · refine hw.appendEntries fun e he => ?_
    cases mem_singleton.mp he
    refine ⟨fun _ heq => (nomatch heq), fun h' heq => ?_⟩
    cases heq
    exact hlt
  · exact hw

theorem insertInflight {op : InflightOp} (hasked : .asked op.handle r ∈ w.log)
    (hkind : r.kind = if op.isRead then .read else .write) : Sound (w.insertInflight op) := by
  refine { hw with inflight := fun op' hop' => ?_ }
  rcases mem_cons.mp hop' with rfl | hold
  · exact ⟨r, hasked, hkind⟩
  · exact hw.inflight op' (mem_of_mem_filter hold)

theorem filterInflight (p : InflightOp → Bool) : Sound { w with inflight := w.inflight.filter p } :=
  { hw with inflight := fun op hop => hw.inflight op (mem_of_mem_filter hop) }

theorem carryOut (hfresh : Fresh w h r) (client : ℕ) (hfull : io.ret < 0 ∨ io.ret = r.len) :
    Sound (w.carryOut client h r.kind r.lba r.len io) := by
  rw [World.carryOut]
  split
  · rename_i hkernel
    split_ifs
    · exact hw.sendError (isOk_done_error ..)
    · refine { hw.push hfresh with waiting := fun wait hwait => ?_ }
      cases hwait
      exact ⟨hkernel, r, hfresh.asked, rfl⟩
  · exact hw.transfer hfresh client 0 hfull

theorem handleSync (client : ℕ) (kind : OpKind) (nsId lba len : ℕ)
    (hfull : io.ret < 0 ∨ io.ret = len) : Sound (w.handleSync client kind nsId lba len io) := by
  have hasked := hw.asked ⟨client, 0, kind, false, lba, len⟩
  have hfresh := hw.fresh ⟨client, 0, kind, false, lba, len⟩
  rw [World.handleSync]
  split
  · exact hasked.sendError (isOk_done_error ..)
  · exact hasked.carryOut hfresh client hfull

theorem handleWriteZeros (client nsId lba numBlocks : ℕ)
    (hfull : io.ret < 0 ∨ io.ret = (numBlocks * w.config.blockSize : ℕ)) :
    Sound (w.handleWriteZeros client nsId lba numBlocks io) := by
  have hasked := hw.asked ⟨client, 0, .zeros, false, lba, numBlocks * w.config.blockSize⟩
  have hfresh := hw.fresh ⟨client, 0, .zeros, false, lba, numBlocks * w.config.blockSize⟩
  rw [World.handleWriteZeros]
  split
  · exact hasked.sendError rfl
  · split_ifs
    · exact hasked.carryOut hfresh client hfull
    · exact hasked.sendError rfl

theorem handleAsync (client : ℕ) {kind : OpKind} (hkind : kind ≠ .zeros)
    (nsId lba len timeoutMs tag : ℕ) (hfull : io.ret < 0 ∨ io.ret = len) :
    Sound (w.handleAsync client kind nsId lba len timeoutMs tag io) := by
  have hasked := hw.asked ⟨client, tag, kind, true, lba, len⟩
  have hfresh := hw.fresh ⟨client, tag, kind, true, lba, len⟩
  rw [World.handleAsync]
  split
  · exact hasked.sendError (isOk_done_error ..)
  · change Sound (if w.kind.hasRing then _ else _)
    split
    · split
      · exact hasked.sendError (isOk_done_error ..)
      · have hpushed := (hasked.push hfresh).pushSync (h := w.nextHandle) (Nat.lt_succ_self _) kind io
        refine hpushed.insertInflight (r := ⟨client, tag, kind, true, lba, len⟩) ?_ ?_
        · rw [World.pushSync]
          split_ifs <;> exact hfresh.asked
        · cases kind with
          | read | write => rfl
          | zeros => exact absurd rfl hkind
    · exact hasked.transfer hfresh client _ hfull

theorem handleAbort (client target : ℕ) (io : Io) : Sound (w.handleAbort client target io) := by
  have habort : Sound (w.record (.abortAsked client target)) :=
    hw.record trivial nofun nofun
  refine Sound.sendError ?_ rfl
  split
  · have hcancel : Sound { w.record (.abortAsked client target) with
        entries := w.entries ++ [⟨.cancel target, 0, 0, 0⟩] } :=
      habort.appendEntries fun e he => by
        cases mem_singleton.mp he
        exact ⟨fun _ heq => (nomatch heq), fun _ heq => (nomatch heq)⟩
    exact { hcancel.filterInflight (·.handle ≠ target) with }
  · exact habort.filterInflight _

theorem handleFlush (client nsId : ℕ) (io : Io) : Sound (w.handleFlush client nsId io) := by
  refine Sound.sendError ?_ rfl
  exact { hw with
    numbered := fun h r hmem => Nat.lt_succ_of_lt (hw.numbered h r hmem)
    synced := fun h hmem => Nat.lt_succ_of_lt (hw.synced h hmem)
    syncs := fun e he h hdata => Nat.lt_succ_of_lt (hw.syncs e he h hdata) }

theorem processCommand (client : ℕ) {cmd : Command}
    (hfull : io.ret < 0 ∨ io.ret = w.config.bytes cmd) :
    Sound (w.processCommand client io cmd) := by
  cases cmd with
  | readSync nsId lba buf => exact hw.handleSync client .read nsId lba buf.len hfull
  | writeSync nsId lba buf => exact hw.handleSync client .write nsId lba buf.len hfull
  | readAsync nsId lba buf timeoutMs tag | writeAsync nsId lba buf timeoutMs tag =>
    exact hw.handleAsync client (by decide) _ _ _ _ _ hfull
  | writeZeros nsId lba numBlocks => exact hw.handleWriteZeros client nsId lba numBlocks hfull
  | batchSubmit ops => exact { hw with }
  | abortOp handle => exact hw.handleAbort client handle io
  | flushSync nsId => exact hw.handleFlush client nsId io
  | nsProbe | nsCreate | nsFormat | nsDelete | controllerReset => exact hw.sendError rfl

/-! ### Completions -/

/-- What is in the queue may be counted as a success of the operation. -/
theorem whole_of_queue {res : ℤ} (client tag : ℕ) (hq : (.op h, res) ∈ w.queue)
    (hasked : .asked h r ∈ w.log)
    (hsynced : 0 ≤ res → w.kind.isFile → r.kind ≠ .read → .synced h ∈ w.log) :
    Whole w.config w.kind.isFile w.log
      (.sent client (r.kind.done h tag (entryResult r.kind res)) (some h)) := by
  by_cases hneg : res < 0
  · rw [entryResult, if_pos hneg]
    exact whole_of_error (isOk_done_error ..)
  · rw [entryResult, if_neg hneg]
    intro _
    obtain ⟨r', since, before, hmoved, hnot⟩ := hw.queue h res hq (Int.not_lt.mp hneg)
    have hmem : Act.asked h r' ∈ w.log := by
      rw [hmoved.1]
      exact mem_append_right _ (mem_cons_of_mem _ hmoved.2)
    cases hw.unique h r r' hasked hmem
    refine ⟨r, since, before, hmoved, ⟨tag, rfl⟩, fun hfile hwrite => ?_⟩
    -- the data sync stands in the log, and not before the move
    have hin := hsynced (Int.not_lt.mp hneg) hfile hwrite
    rw [hmoved.1] at hin
    rcases mem_append.mp hin with hsince | hrest
    · exact hsince
    · rcases mem_cons.mp hrest with heq | hbefore
      · cases heq
      · exact absurd hbefore hnot

/-- A completion of the queue is handled; `rest` is what the queue still holds. -/
theorem completeEntry {cqe : UserData × ℤ} (hq : cqe ∈ w.queue)
    (hsynced : w.kind.isFile → ∀ op ∈ w.inflight, op.isRead = false →
      cqe.1 = .op op.handle → 0 ≤ cqe.2 → .synced op.handle ∈ w.log) :
    Sound (w.completeEntry cqe) := by
  obtain ⟨data, res⟩ := cqe
  rw [World.completeEntry]
  split
  · rename_i h hdata
    split
    · rename_i op hfind
      have hmem := mem_of_find?_eq_some hfind
      have hhandle : op.handle = h := by
        have htest := find?_some hfind
        exact of_decide_eq_true htest
      obtain ⟨r, hr, hkind⟩ := hw.inflight op hmem
      rw [hhandle] at hr
      refine (hw.filterInflight _).sendCompletion ?_
      rw [← hkind]
      cases hdata
      refine hw.whole_of_queue op.client op.tag hq hr fun hpos hfile hwrite => ?_
      have hnot : op.isRead = false := by
        rw [← Bool.not_eq_true]
        intro hread
        rw [hread, if_pos rfl] at hkind
        exact hwrite hkind
      exact hhandle ▸ hsynced hfile op hmem hnot (by rw [hhandle]) hpos
    · exact hw
  · exact hw

end

theorem sendCompletion_eq (w : World) (client : ℕ) (completion : Completion) (ends : Option ℕ) :
    ∃ acts, w.sendCompletion client completion ends = { w with log := acts ++ w.log } := by
  rw [World.sendCompletion]
  split_ifs
  · exact ⟨[.sent client completion ends], rfl⟩
  · exact ⟨[], rfl⟩

theorem completeEntry_keeps (w : World) (cqe : UserData × ℤ) :
    (w.completeEntry cqe).queue = w.queue ∧ (w.completeEntry cqe).kind = w.kind ∧
      (w.completeEntry cqe).inflight ⊆ w.inflight ∧ w.log ⊆ (w.completeEntry cqe).log ∧
      (w.completeEntry cqe).waiting = w.waiting := by
  rw [World.completeEntry]
  split
  · split
    · rename_i h hdata _ op hfind
      obtain ⟨acts, heq⟩ := sendCompletion_eq { w with inflight := w.inflight.filter (·.handle ≠ h) }
        op.client ((if op.isRead then OpKind.read else OpKind.write).done h op.tag
          (entryResult (if op.isRead then OpKind.read else OpKind.write) cqe.2)) (some h)
      rw [heq]
      exact ⟨rfl, rfl, filter_subset_self _, subset_append_right acts w.log, rfl⟩
    · exact ⟨rfl, rfl, List.Subset.refl _, List.Subset.refl _, rfl⟩
  · exact ⟨rfl, rfl, List.Subset.refl _, List.Subset.refl _, rfl⟩

/-- The completions taken from the queue are handled one after the other. -/
theorem foldl_completeEntry (hw : Sound w) (cqes : List (UserData × ℤ)) (hq : cqes ⊆ w.queue)
    (hsynced : w.kind.isFile → ∀ op ∈ w.inflight, op.isRead = false →
      ∀ cqe ∈ cqes, cqe.1 = .op op.handle → 0 ≤ cqe.2 → .synced op.handle ∈ w.log) :
    Sound (cqes.foldl World.completeEntry w) ∧
      w.log ⊆ (cqes.foldl World.completeEntry w).log ∧
      (cqes.foldl World.completeEntry w).queue = w.queue ∧
      (cqes.foldl World.completeEntry w).waiting = w.waiting ∧
      (cqes.foldl World.completeEntry w).kind = w.kind := by
  induction cqes generalizing w with
  | nil => exact ⟨hw, List.Subset.refl _, rfl, rfl, rfl⟩
  | cons cqe cqes ih =>
    obtain ⟨hqueue, hkind, hinflight, hlog, hwaiting⟩ := completeEntry_keeps w cqe
    have hstep := hw.completeEntry (hq (mem_cons_self ..)) fun hfile op hop hnot =>
      hsynced hfile op hop hnot cqe (mem_cons_self ..)
    obtain ⟨hsound, hlog', hqueue', hwaiting', hkind'⟩ := ih hstep
      (hqueue ▸ fun c hc => hq (mem_cons_of_mem _ hc))
      fun hfile op hop hnot c hc hdata hpos => hlog (hsynced (hkind ▸ hfile) op (hinflight hop) hnot c
        (mem_cons_of_mem _ hc) hdata hpos)
    exact ⟨hsound, fun a ha => hlog' (hlog ha), hqueue'.trans hqueue, hwaiting'.trans hwaiting,
      hkind'.trans hkind⟩

/-- Handling a completion does not look at the queue. -/
theorem completeEntry_queue (w : World) (q : List (UserData × ℤ)) (cqe : UserData × ℤ) :
    World.completeEntry { w with queue := q } cqe = { w.completeEntry cqe with queue := q } := by
  rw [World.completeEntry, World.completeEntry]
  split
  · dsimp only
    split
    · rw [World.sendCompletion, World.sendCompletion]
      dsimp only
      split_ifs <;> rfl
    · rfl
  · rfl

theorem foldl_completeEntry_queue (w : World) (q cqes : List (UserData × ℤ)) :
    cqes.foldl World.completeEntry { w with queue := q } =
      { cqes.foldl World.completeEntry w with queue := q } := by
  induction cqes generalizing w with
  | nil => rfl
  | cons cqe cqes ih =>
    rw [foldl_cons, foldl_cons, completeEntry_queue]
    exact ih _

variable (hw : Sound w)
include hw

theorem clearQueue : Sound { w with queue := [] } :=
  { hw with queue := fun _ _ hq => nomatch hq }

theorem harvestCompletions (hsynced : w.kind.isFile → ∀ op ∈ w.inflight, op.isRead = false →
      ∀ cqe ∈ w.queue, cqe.1 = .op op.handle → 0 ≤ cqe.2 → .synced op.handle ∈ w.log) :
    Sound w.harvestCompletions := by
  rw [World.harvestCompletions, foldl_completeEntry_queue]
  exact (hw.foldl_completeEntry w.queue (List.Subset.refl _) hsynced).1.clearQueue

/-- A pass of the wait for an entry. Only the kernel device waits, and it syncs nothing. -/
theorem waitForCqe {wait : Waiting} (hwait : w.waiting = some wait) :
    Sound (w.waitForCqe wait) := by
  obtain ⟨hkernel, r, hr, hkind⟩ := hw.waiting wait hwait
  have hnofile : w.kind.isFile ≠ true := by rw [hkernel]; exact Bool.false_ne_true
  obtain ⟨hsound, hlog, hqueue, -, hkind'⟩ :=
    hw.foldl_completeEntry (w.queue.filter (·.1 ≠ .op wait.handle)) (filter_subset_self _)
      fun hfile => absurd hfile hnofile
  rw [World.waitForCqe, foldl_completeEntry_queue]
  split
  · rename_i data res hfind
    have hmem := mem_of_find?_eq_some hfind
    have hdata : data = .op wait.handle := by
      have htest := find?_some hfind
      exact of_decide_eq_true htest
    have hsend := hsound.whole_of_queue wait.client 0
      (hqueue.symm ▸ hdata ▸ hmem) (hlog hr) fun _ hfile => absurd (hkind' ▸ hfile) hnofile
    rw [hkind] at hsend
    refine Sound.sendCompletion ?_ hsend
    exact { hsound.clearQueue with waiting := fun _ hnone => nomatch hnone }
  · exact hsound.clearQueue

/-! ### The rest of the actor, and the operating system -/

theorem giveUp (op : InflightOp) : Sound (w.giveUp op) := by
  refine Sound.sendError ?_ rfl
  exact { hw.filterInflight (·.handle ≠ op.handle) with }

theorem checkTimeouts (cancels : ℕ) : Sound (w.checkTimeouts cancels) := by
  have hfold : ∀ (ops : List InflightOp) (v : World), Sound v → Sound (ops.foldl World.giveUp v) := by
    intro ops
    induction ops with
    | nil => exact fun v hv => hv
    | cons op ops ih => exact fun v hv => ih _ (hv.giveUp op)
  have hcancels : ∀ v, Sound v → Sound { v with
      entries := v.entries ++ (v.pendingCancels.take cancels).map (⟨.cancel ·, 0, 0, 0⟩) } :=
    fun v hv => hv.appendEntries fun e he => by
      obtain ⟨h, -, rfl⟩ := mem_map.mp he
      exact ⟨fun _ heq => (nomatch heq), fun _ heq => (nomatch heq)⟩
  exact { hcancels _ (hfold (w.inflight.filter w.expired) w hw) with }

theorem complete {e : Entry} (he : e ∈ w.entries) {res : ℤ}
    (hfull : res < 0 ∨ res = e.want) (hstep : w.complete e res = some w') : Sound w' := by
  have herase : ∀ e' ∈ w.entries.erase e, e' ∈ w.entries := fun e' h => mem_of_mem_erase h
  -- the entry moves to the queue; of an operation the queue has to know that it was carried out
  have hmove : ∀ v : World, Sound v → v.entries = w.entries →
      (∀ h, e.data = .op h → 0 ≤ res → ∃ r since before,
        Moved v.config h r since before v.log ∧ .synced h ∉ before) →
      Sound { v with entries := v.entries.erase e, queue := v.queue ++ [(e.data, res)] } := by
    intro v hv hentries hdone
    refine { hv with
      entries := fun e' he' => hv.entries e' (mem_of_mem_erase he')
      syncs := fun e' he' => hv.syncs e' (mem_of_mem_erase he')
      queue := fun h res' hq hpos => ?_ }
    rcases mem_append.mp hq with hold | hnew
    · exact hv.queue h res' hold hpos
    · obtain ⟨hdata, rfl⟩ := Prod.mk.inj (mem_singleton.mp hnew)
      exact hdone h hdata.symm hpos
  rw [World.complete] at hstep
  split at hstep
  · rename_i h hdata
    split_ifs at hstep with hle hneg
    · cases hstep
      exact { hmove w hw rfl fun _ _ hpos => absurd hpos (Int.not_le.mpr hneg) with }
    · cases hstep
      obtain ⟨hunsynced, r, hr, hoffset, hwant⟩ := hw.entries e he h hdata
      have hrec : Sound (w.record (.moved h e.offset res.toNat)) :=
        hw.record trivial nofun nofun
      have hlen : res.toNat = r.len := by
        rw [hfull.resolve_left hneg, hwant]
        exact Int.toNat_natCast _
      have hsound := hmove _ hrec rfl fun h' hdata' _ => by
        rw [hdata] at hdata'
        cases hdata'
        exact ⟨r, [], w.log, ⟨by rw [hlen, hoffset]; rfl, hr⟩, hunsynced⟩
      exact { hsound with }
  · rename_i h hdata
    have hnoop : ∀ v : World, ∀ h', e.data = .op h' → 0 ≤ res → ∃ r since before,
        Moved v.config h' r since before v.log ∧ .synced h' ∉ before := fun v h' hdata' => by
      rw [hdata] at hdata'
      cases hdata'
    split_ifs at hstep with hneg hany
    · cases hstep
      exact { hmove w hw rfl (hnoop w) with }
    · cases hstep
      have hdone : ∀ e' ∈ w.entries, e'.data ≠ .op h := fun e' he' heq =>
        hany (any_eq_true.mpr ⟨e', he', decide_eq_true heq⟩)
      have hrec := hw.recordSynced (hw.syncs e he h hdata) hdone
      exact { hmove _ hrec rfl (hnoop _) with }
  · rename_i h hdata
    cases hstep
    have hsound := hmove w hw rfl fun h' hdata' => by
      rw [hdata] at hdata'
      cases hdata'
    exact { hsound with }

theorem step {e : Event} (hfull : Full w e) (hstep : w.step e = some w') : Sound w' := by
  cases e with
  | connect | disconnect client =>
    rw [World.step] at hstep
    split_ifs at hstep
    cases hstep
    exact { hw with }
  | submit client cmd | take client =>
    rw [World.step] at hstep
    split at hstep
    · cases hstep
      exact { hw with }
    · cases hstep
  | next io =>
    rw [World.step] at hstep
    split at hstep
    · rename_i client cmd rest _ hnone hagenda
      cases hstep
      have hbytes := hfull (client, cmd) (by rw [hagenda]; rfl)
      have hrest : Sound { w with agenda := rest } := { hw with }
      split_ifs
      · exact { hw with }
      · exact hrest.processCommand client hbytes
    · cases hstep
  | reap =>
    obtain ⟨wait, hwait, rfl⟩ := Option.map_eq_some_iff.mp hstep
    exact hw.waitForCqe hwait
  | harvest =>
    rw [World.step] at hstep
    split_ifs at hstep
    cases hstep
    refine hw.harvestCompletions fun hfile op hop hnot cqe hcqe hdata hpos => ?_
    obtain ⟨a, ha, htest⟩ := any_eq_true.mp (hfull hfile op hop hnot cqe hcqe hdata hpos)
    split at htest
    · rename_i h
      exact of_decide_eq_true htest ▸ ha
    · cases htest
  | checkTimeouts cancels =>
    rw [World.step] at hstep
    split_ifs at hstep
    cases hstep
    exact hw.checkTimeouts cancels
  | complete data res =>
    rw [World.step] at hstep
    split at hstep
    · rename_i e hfind
      exact hw.complete (mem_of_find?_eq_some hfind) (hfull e hfind) hstep
    · cases hstep
  | tick n =>
    cases hstep
    exact { hw with }

omit hw

theorem start (kind : Kind) (config : Config) : Sound (.start kind config) where
  whole := trivial
  numbered _ _ h := nomatch h
  unique _ _ _ h := nomatch h
  synced _ h := nomatch h
  entries _ h := nomatch h
  syncs _ h := nomatch h
  queue _ _ h := nomatch h
  inflight _ h := nomatch h
  waiting _ h := nomatch h

end Sound

/-! ## The guarantee -/

namespace World

/-- **A success means the whole transfer**, when the operating system moves all or nothing and, on the
file device, data syncs have succeeded by the time their writes are harvested: in every such run, each
success that was ever sent stands after a move of every byte of its command at the command's address
and, for a write on the file device, after a data sync later than that move. -/
theorem whole_transfers (kind : Kind) (config : Config) {es : List Event} {w : World}
    (hrun : Run step Full (start kind config) es w) :
    Throughout (Whole w.config w.kind.isFile) w.log :=
  (hrun.invariant (I := Sound) (Sound.start kind config)
    fun _ _ _ h hfull hstep => h.step hfull hstep).whole

instance (w : World) (e : Event) : Decidable (Full w e) :=
  match e with
  | .next io => inferInstanceAs (Decidable (∀ e ∈ w.agenda.head?,
      io.ret < 0 ∨ io.ret = w.config.bytes e.2))
  | .complete data res => inferInstanceAs (Decidable (∀ e ∈ w.entries.find? (·.data = data),
      res < 0 ∨ res = e.want))
  | .harvest => by
    dsimp only [Full]
    infer_instance
  | .connect | .disconnect _ | .submit _ _ | .take _ | .reap | .checkTimeouts _ | .tick _ =>
    instDecidableTrue

/-- The write of the tag was answered with a success. -/
def writeAnswered : List Act → Bool
  | .sent _ (.writeDone 1 7 (.ok ())) (some 1) :: _ => true
  | _ => false

/-- A write of two blocks on the file device, harvested after its data sync. -/
theorem whole_transfers_of_write : ∃ es w, Run step Full (start (.file true) ⟨512, 8⟩) es w ∧
      (∃ client since, w.log = .sent client (.writeDone 1 7 (.ok ())) (some 1) :: since) ∧
      Throughout (Whole w.config w.kind.isFile) w.log := by
  obtain ⟨w, hrun, hw⟩ := exists_run_of_checkedExec (show (checkedExec step Full
    (start (.file true) ⟨512, 8⟩)
    [.connect, .submit 1 (.writeAsync 1 0 ⟨0, 1024, false⟩ 100 7), .take 1, .next ⟨2, -1, false, "", true⟩,
      .complete (.op 1) 1024, .complete (.sync 1) 0, .harvest]).any
    (fun w => writeAnswered w.log) by decide +kernel)
  refine ⟨_, w, hrun, ?_, whole_transfers _ _ hrun⟩
  unfold writeAnswered at hw
  split at hw
  · rename_i hlog
    exact ⟨_, _, hlog⟩
  · cases hw

/-- A run that ends in the answer `completion` to the command 1, after no more than the acts `past`. -/
theorem not_whole_of_log {w : World} {client : ℕ} {completion : Completion} {past : List Act}
    (hlog : w.log = .sent client completion (some 1) :: past) (hok : completion.isOk)
    (hpast : ∀ r, .asked 1 r ∈ past → (∀ offset, .moved 1 offset r.len ∉ past) ∨
      (w.kind.isFile ∧ r.kind ≠ .read ∧ .synced 1 ∉ past)) :
    ¬Throughout (Whole w.config w.kind.isFile) w.log := by
  intro h
  rw [hlog] at h
  obtain ⟨r, since, before, ⟨heq, hmem⟩, -, hsynced⟩ := h.1 hok
  have hasked : Act.asked 1 r ∈ past := by
    rw [heq]
    exact mem_append_right _ (mem_cons_of_mem _ hmem)
  rcases hpast r hasked with hmoved | ⟨hfile, hkind, hnot⟩
  · refine hmoved (r.lba * w.config.blockSize) ?_
    rw [heq]
    exact mem_append_right _ (mem_cons_self ..)
  · refine hnot ?_
    rw [heq]
    exact mem_append_left _ (hsynced hfile hkind)

/-- The log of a read of which half was moved. -/
def halfRead : List Act → Bool
  | [.sent 1 (.readDone 1 0 (.ok ())) (some 1), .moved 1 0 512,
      .asked 1 ⟨1, 0, .read, true, 0, 1024⟩] => true
  | _ => false

/-- The log of a write without a data sync. -/
def unsynced : List Act → Bool
  | [.sent 1 (.writeDone 1 0 (.ok ())) (some 1), .moved 1 0 1024,
      .asked 1 ⟨1, 0, .write, true, 0, 1024⟩] => true
  | _ => false

/-- On the kernel device a read of 1024 bytes of which the operating system moved 512 is answered with
a success, and on the file device a write whose data sync failed is. -/
theorem success_of_partial_transfer : (∃ es w, Run step anyStep (start .kernel ⟨512, 8⟩) es w ∧
      ¬Throughout (Whole w.config w.kind.isFile) w.log) ∧
    ∃ es w, Run step anyStep (start (.file true) ⟨512, 8⟩) es w ∧
      ¬Throughout (Whole w.config w.kind.isFile) w.log := by
  constructor
  · obtain ⟨w, hrun, hw⟩ := exists_run_of_exec (show (exec step (start .kernel ⟨512, 8⟩)
      [.connect, .submit 1 (.readAsync 1 0 ⟨0, 1024, false⟩ 100 0), .take 1,
        .next ⟨2, -1, false, "", true⟩, .complete (.op 1) 512, .harvest]).any
      (fun w => halfRead w.log) by decide +kernel)
    refine ⟨_, w, hrun, ?_⟩
    unfold halfRead at hw
    split at hw
    · rename_i hlog
      refine not_whole_of_log hlog rfl fun r hr => .inl fun offset hmem => ?_
      simp only [mem_cons, not_mem_nil, reduceCtorEq, Act.asked.injEq, true_and,
        false_or, or_false] at hr
      simp [hr] at hmem
    · cases hw
  · obtain ⟨w, hrun, hw⟩ := exists_run_of_exec (show (exec step (start (.file true) ⟨512, 8⟩)
      [.connect, .submit 1 (.writeAsync 1 0 ⟨0, 1024, false⟩ 100 0), .take 1,
        .next ⟨2, -1, false, "", true⟩, .complete (.op 1) 1024, .complete (.sync 1) (-5),
        .harvest]).any
      (fun w => w.kind.isFile && unsynced w.log) by decide +kernel)
    rw [Bool.and_eq_true] at hw
    obtain ⟨hfile, hw⟩ := hw
    refine ⟨_, w, hrun, ?_⟩
    unfold unsynced at hw
    split at hw
    · rename_i hlog
      refine not_whole_of_log hlog rfl fun r hr => .inr ⟨hfile, ?_, by simp⟩
      simp only [mem_cons, not_mem_nil, reduceCtorEq, Act.asked.injEq, true_and,
        false_or, or_false] at hr
      rw [hr]
      decide
    · cases hw

end World

end Certus.BlockDevice.Ring
