import Certus.BlockDevice.Commands
import Mathlib.Data.List.Nodup
import Mathlib.Data.List.Perm.Basic

/-! # One answer for each command

The three device actors keep a table of the asynchronous reads and writes in flight and answer each of
them when it leaves the table. What they owe their clients is a property of the log, the table and the
clients that are connected. -/

namespace Certus.BlockDevice

open List Bool Act

/-- An operation in flight. -/
structure Pending where
  handle : ℕ
  client : ℕ
  tag : ℕ
  kind : OpKind
  aborting : Bool
  deriving DecidableEq

/-- The completion ends the operation that was asked for under the handle: it names the handle, and if
it reports the transfer, it is of the right kind and carries the tag. -/
def Completion.Ends (r : Request) (h : ℕ) : Completion → Prop
  | .readDone h' tag _ => h' = h ∧ tag = r.tag ∧ r.kind = .read
  | .writeDone h' tag _ => h' = h ∧ tag = r.tag ∧ r.kind = .write
  | .timeout h' | .abortAck h' | .error (some h') _ => h' = h
  | _ => False

theorem Completion.ends_done {r : Request} {h : ℕ} (hkind : r.kind ≠ .zeros)
    (result : Except NvmeBlockError Unit) : (r.kind.done h r.tag result).Ends r h := by
  obtain ⟨client, tag, kind, async, lba, len⟩ := r
  cases kind with
  | read | write => exact ⟨rfl, rfl, rfl⟩
  | zeros => exact absurd rfl hkind

/-- The act answers the command with the handle. -/
def Act.answers (h : ℕ) : Act → Bool
  | .sent _ _ (some h') => h' = h
  | _ => false

/-- The act is an abort that the client asked for. -/
def Act.asksAbort (client : ℕ) : Act → Bool
  | .abortAsked c _ => c = client
  | _ => false

/-- The act acknowledges an abort to the client. -/
def Act.acksAbort (client : ℕ) : Act → Bool
  | .sent c (.abortAck _) _ => c = client
  | _ => false

/-- What the actor owes: the table holds the operations without an answer, every other operation of a
client that is connected has exactly one, to the client that asked, and the aborts asked for are the
ones acknowledged and those of the table. -/
structure Answered (log : List Act) (table : List Pending) (connected : ℕ → Bool) : Prop where
  inFlight : ∀ op ∈ table, log.countP (answers op.handle) = 0
  once : ∀ h r, .asked h r ∈ log → r.async → connected r.client →
    (∀ op ∈ table, op.handle ≠ h) → log.countP (answers h) = 1
  right : ∀ c completion h, .sent c completion (some h) ∈ log →
    ∃ r, .asked h r ∈ log ∧ r.client = c ∧ (r.async → completion.Ends r h)
  aborts : ∀ c, connected c → log.countP (asksAbort c) =
    log.countP (acksAbort c) + table.countP fun op => op.client = c && op.aborting

/-- What the log says about its own past; `next` and `nextClient` are the next handle and client. -/
structure Ledger (log : List Act) (next nextClient : ℕ) : Prop where
  right : ∀ c completion h, .sent c completion (some h) ∈ log →
    ∃ r, .asked h r ∈ log ∧ r.client = c ∧ (r.async → completion.Ends r h)
  numbered : ∀ h r, .asked h r ∈ log → h < next ∧ r.client < nextClient
  unique : ∀ h r r', .asked h r ∈ log → .asked h r' ∈ log → r = r'
  abortsBelow : ∀ c h, .abortAsked c h ∈ log → c < nextClient
  sentBelow : ∀ c completion ends, .sent c completion ends ∈ log → c < nextClient

/-- The invariant of log and table. Aborts are accounted for if `strict`. -/
structure Books (strict : Prop) (log : List Act) (table : List Pending) (next nextClient : ℕ)
    (connected : ℕ → Bool) : Prop extends Ledger log next nextClient where
  inFlight : ∀ op ∈ table, log.countP (answers op.handle) = 0
  once : ∀ h r, .asked h r ∈ log → r.async → connected r.client →
    (∀ op ∈ table, op.handle ≠ h) → log.countP (answers h) = 1
  aborts : strict → ∀ c, connected c → log.countP (asksAbort c) =
    log.countP (acksAbort c) + table.countP fun op => op.client = c && op.aborting
  distinct : (table.map (·.handle)).Nodup
  tabled : ∀ op ∈ table, ∃ r, .asked op.handle r ∈ log ∧ r.async ∧ r.client = op.client ∧
    r.tag = op.tag ∧ r.kind = op.kind
  clients : ∀ c, connected c → c < nextClient

/-- One more act: a command has the next handle, an answer a command of the client it goes to, and
clients have numbers below the next one. -/
theorem Ledger.cons {log : List Act} {next next' nextClient : ℕ} (h : Ledger log next nextClient)
    {a : Act} (hnext : next ≤ next')
    (hasked : ∀ n r, a = .asked n r → n = next ∧ next < next' ∧ r.client < nextClient)
    (habort : ∀ c n, a = .abortAsked c n → c < nextClient)
    (hsent : ∀ c completion ends, a = .sent c completion ends → c < nextClient ∧
      ∀ n, ends = some n → ∃ r, .asked n r ∈ log ∧ r.client = c ∧
        (r.async → completion.Ends r n)) : Ledger (a :: log) next' nextClient where
  right c completion n hmem := by
    have hold : ∃ r, .asked n r ∈ log ∧ r.client = c ∧ (r.async → completion.Ends r n) := by
      rcases mem_cons.mp hmem with heq | hmem
      · exact (hsent c completion _ heq.symm).2 n rfl
      · exact h.right c completion n hmem
    obtain ⟨r, hr, hrest⟩ := hold
    exact ⟨r, mem_cons_of_mem _ hr, hrest⟩
  numbered n r hmem := by
    rcases mem_cons.mp hmem with heq | hmem
    · obtain ⟨rfl, hlt, hclient⟩ := hasked n r heq.symm
      exact ⟨hlt, hclient⟩
    · exact ⟨Nat.lt_of_lt_of_le (h.numbered n r hmem).1 hnext, (h.numbered n r hmem).2⟩
  unique n r r' hr hr' := by
    rcases mem_cons.mp hr with heq | hold <;> rcases mem_cons.mp hr' with heq' | hold'
    · exact (asked.inj (heq.trans heq'.symm)).2
    · exact absurd (h.numbered n r' hold').1 ((hasked n r heq.symm).1 ▸ lt_irrefl _)
    · exact absurd (h.numbered n r hold).1 ((hasked n r' heq'.symm).1 ▸ lt_irrefl _)
    · exact h.unique n r r' hold hold'
  abortsBelow c n hmem := by
    rcases mem_cons.mp hmem with heq | hmem
    · exact habort c n heq.symm
    · exact h.abortsBelow c n hmem
  sentBelow c completion ends hmem := by
    rcases mem_cons.mp hmem with heq | hmem
    · exact (hsent c completion ends heq.symm).1
    · exact h.sentBelow c completion ends hmem

namespace Books

variable {strict : Prop} {log : List Act} {table : List Pending} {next nextClient : ℕ}
  {connected : ℕ → Bool}

theorem answered (h : Books True log table next nextClient connected) :
    Answered log table connected :=
  ⟨h.inFlight, h.once, h.right, h.aborts trivial⟩

variable {n client : ℕ} {op : Pending} {a : Act} {r : Request} {completion : Completion}
  {mid : List Act}

section

variable (h : Books strict log table next nextClient connected)
include h

/-- Nothing has happened under a handle that was not given out. -/
theorem countP_answers_eq_zero (hn : next ≤ n) : log.countP (answers n) = 0 := by
  refine countP_eq_zero.mpr fun a ha hans => ?_
  cases a with
  | sent c completion ends =>
    cases ends with
    | none => cases hans
    | some h' =>
      obtain ⟨r, hr, -⟩ := h.right c completion h' ha
      have hlt := (h.numbered h' r hr).1
      have heq : h' = n := of_decide_eq_true hans
      omega
  | _ => cases hans

theorem ne_of_mem_table (hop : op ∈ table) : op.handle ≠ next := by
  obtain ⟨r, hr, -⟩ := h.tabled op hop
  exact ne_of_lt (h.numbered _ _ hr).1

theorem tabled_cons (a : Act) (op : Pending)
    (hop : op ∈ table) : ∃ r, .asked op.handle r ∈ a :: log ∧ r.async ∧
      r.client = op.client ∧ r.tag = op.tag ∧ r.kind = op.kind := by
  obtain ⟨r, hr, hrest⟩ := h.tabled op hop
  exact ⟨r, mem_cons_of_mem _ hr, hrest⟩

/-- Something is logged that is neither a command nor an answer to one in the table, and that leaves
the aborts in balance. -/
theorem note (hledger : Ledger (a :: log) next nextClient) (ha : ∀ n r, a ≠ .asked n r)
    (hanswers : ∀ n r, .asked n r ∈ log → r.async → a.answers n = false)
    (hasks : strict → ∀ c, a.asksAbort c = false) (hacks : strict → ∀ c, a.acksAbort c = false) :
    Books strict (a :: log) table next nextClient connected where
  toLedger := hledger
  inFlight op hop := by
    obtain ⟨r, hr, hasync, -⟩ := h.tabled op hop
    rw [countP_cons_of_neg (by rw [hanswers _ r hr hasync]; exact false_ne_true)]
    exact h.inFlight op hop
  once n r hr hasync hconn hnot := by
    have hr := (mem_cons.mp hr).resolve_left fun heq => ha n r heq.symm
    rw [countP_cons_of_neg (by rw [hanswers n r hr hasync]; exact false_ne_true)]
    exact h.once n r hr hasync hconn hnot
  aborts hstrict c hc := by
    rw [countP_cons_of_neg (by rw [hasks hstrict]; exact false_ne_true),
      countP_cons_of_neg (by rw [hacks hstrict]; exact false_ne_true)]
    exact h.aborts hstrict c hc
  distinct := h.distinct
  tabled := h.tabled_cons a
  clients := h.clients

/-- A command of a client comes in, and if it is asynchronous it goes to the table. -/
theorem ask {new : List Pending} (hclient : r.client < nextClient)
    (hnew : new = if r.async then [⟨next, r.client, r.tag, r.kind, false⟩] else []) :
    Books strict (.asked next r :: log) (new ++ table) (next + 1) nextClient connected := by
  have hanswers : ∀ n, (Act.asked next r :: log).countP (Act.answers n) = log.countP (Act.answers n) :=
    fun n => countP_cons_of_neg Bool.false_ne_true
  have hin : ∀ op ∈ new, r.async ∧ op = ⟨next, r.client, r.tag, r.kind, false⟩ := by
    intro op hop
    rw [hnew] at hop
    split_ifs at hop with hasync
    · exact ⟨hasync, mem_singleton.mp hop⟩
    · cases hop
  exact {
    toLedger := by
      refine h.toLedger.cons (Nat.le_succ _) ?_ nofun nofun
      rintro n r ⟨⟩
      exact ⟨rfl, Nat.lt_succ_self _, hclient⟩
    inFlight := fun op hop => by
      rcases mem_append.mp hop with hop | hop
      · rw [(hin op hop).2]
        exact h.countP_answers_eq_zero (Nat.le_refl _)
      · exact h.inFlight op hop
    once := fun n r' hr hasync hconn hnot => by
      rcases mem_cons.mp hr with heq | hr
      · cases heq
        refine absurd rfl (hnot ⟨next, r.client, r.tag, r.kind, false⟩ (mem_append_left _ ?_))
        rw [hnew, if_pos hasync]
        exact mem_singleton.mpr rfl
      · exact (hanswers n).trans (h.once n r' hr hasync hconn fun op hop =>
          hnot op (mem_append_right _ hop))
    aborts := fun hstrict c hc => by
      have hzero : new.countP (fun op => op.client = c && op.aborting) = 0 :=
        countP_eq_zero.mpr fun op hop => by
          rw [(hin op hop).2, Bool.and_false]
          exact Bool.false_ne_true
      rw [countP_cons_of_neg Bool.false_ne_true, countP_cons_of_neg Bool.false_ne_true,
        countP_append, hzero, Nat.zero_add]
      exact h.aborts hstrict c hc
    distinct := by
      rw [hnew]
      split_ifs
      · refine nodup_cons.mpr ⟨fun hmem => ?_, h.distinct⟩
        obtain ⟨op, hop, heq⟩ := mem_map.mp hmem
        exact h.ne_of_mem_table hop heq
      · exact h.distinct
    tabled := fun op hop => by
      rcases mem_append.mp hop with hop | hop
      · obtain ⟨hasync, rfl⟩ := hin op hop
        exact ⟨r, mem_cons_self .., hasync, rfl, rfl, rfl⟩
      · exact h.tabled_cons _ op hop
    clients := h.clients }

end

/-- A completion acknowledges an abort. -/
def isAck : Completion → Bool
  | .abortAck _ => true
  | _ => false

theorem isAck_done (kind : OpKind) (h tag : ℕ) (result : Except NvmeBlockError Unit) :
    isAck (kind.done h tag result) = false := by
  cases kind <;> rfl

/-- The log after a completion was sent to a client, if it is connected. -/
def logSend (connected : ℕ → Bool) (client : ℕ) (completion : Completion) (ends : Option ℕ)
    (log : List Act) : List Act :=
  if connected client then .sent client completion ends :: log else log

theorem acksAbort_sent (c client : ℕ) (completion : Completion) (ends : Option ℕ) :
    (sent client completion ends).acksAbort c = (isAck completion && decide (client = c)) := by
  cases completion <;> rfl

theorem mem_logSend (ha : a ∈ log) (client : ℕ) (completion : Completion) (ends : Option ℕ) :
    a ∈ logSend connected client completion ends log := by
  rw [logSend]
  split_ifs
  · exact mem_cons_of_mem _ ha
  · exact ha

/-- The table is an operation of it and the rest. -/
theorem perm_cons_filter (hdistinct : (table.map (·.handle)).Nodup) (hop : op ∈ table) :
    (op :: table.filter (·.handle ≠ op.handle)).Perm table := by
  have hrest : (table.filter (·.handle ≠ op.handle)).Nodup :=
    (hdistinct.sublist (filter_sublist.map _)).of_map
  refine (perm_ext_iff_of_nodup ?_ hdistinct.of_map).mpr fun o => ?_
  · refine nodup_cons.mpr ⟨fun hin => ?_, hrest⟩
    exact of_decide_eq_true (mem_filter.mp hin).2 rfl
  · rw [mem_cons, mem_filter, decide_eq_true_iff]
    constructor
    · rintro (rfl | ⟨ho, -⟩)
      · exact hop
      · exact ho
    · intro ho
      by_cases heq : o.handle = op.handle
      · exact .inl (inj_on_of_nodup_map hdistinct ho hop heq)
      · exact .inr ⟨ho, heq⟩

section

variable (h : Books strict log table next nextClient connected)
include h

/-- An operation leaves the table with its answer: an acknowledgement exactly if it was being
aborted. -/
theorem answer {op : Pending} (hop : op ∈ table) {completion : Completion}
    (hends : ∀ r, .asked op.handle r ∈ log → r.tag = op.tag → r.kind = op.kind →
      completion.Ends r op.handle) (hack : strict → isAck completion = op.aborting) :
    Books strict (logSend connected op.client completion (some op.handle) log)
      (table.filter (·.handle ≠ op.handle)) next nextClient connected := by
  obtain ⟨r, hr, hasync, hclient, htag, hkind⟩ := h.tabled op hop
  have hmem : ∀ {o}, o ∈ table.filter (·.handle ≠ op.handle) → o ∈ table ∧ o.handle ≠ op.handle :=
    fun {o} ho => ⟨(mem_filter.mp ho).1, of_decide_eq_true (mem_filter.mp ho).2⟩
  have hdistinct : ((table.filter (·.handle ≠ op.handle)).map (·.handle)).Nodup :=
    h.distinct.sublist (filter_sublist.map _)
  have hperm := perm_cons_filter h.distinct hop
  rw [logSend]
  split_ifs with hconn
  · have hanswers : ∀ n, n ≠ op.handle → (Act.sent op.client completion (some op.handle) ::
        log).countP (Act.answers n) = log.countP (Act.answers n) := fun n hn =>
      countP_cons_of_neg fun hans => hn (of_decide_eq_true hans).symm
    exact {
      toLedger := by
        refine h.toLedger.cons (Nat.le_refl _) nofun nofun ?_
        rintro c comp ends ⟨⟩
        refine ⟨hclient ▸ (h.numbered _ r hr).2, ?_⟩
        rintro n ⟨⟩
        exact ⟨r, hr, hclient, fun _ => hends r hr htag hkind⟩
      inFlight := fun o ho => (hanswers _ (hmem ho).2).trans (h.inFlight o (hmem ho).1)
      once := fun n r' hr' hasync' hconn' hnot => by
        have hr' := (mem_cons.mp hr').resolve_left nofun
        by_cases hn : n = op.handle
        · rw [hn, countP_cons_of_pos (by exact decide_eq_true rfl), h.inFlight op hop]
        · refine (hanswers n hn).trans (h.once n r' hr' hasync' hconn' fun o ho heq => ?_)
          by_cases ho' : o.handle = op.handle
          · exact hn (heq.symm.trans ho')
          · exact hnot o (mem_filter.mpr ⟨ho, decide_eq_true ho'⟩) heq
      aborts := fun hstrict c hc => by
        have hold := h.aborts hstrict c hc
        have hcount := hperm.countP_eq fun o => o.client = c && o.aborting
        rw [countP_cons] at hcount
        rw [countP_cons_of_neg Bool.false_ne_true, countP_cons, acksAbort_sent, hack hstrict]
        rw [Bool.and_comm] at hcount
        omega
      distinct := hdistinct
      tabled := fun o ho => h.tabled_cons _ o (hmem ho).1
      clients := h.clients }
  · exact { h with
      inFlight := fun o ho => h.inFlight o (hmem ho).1
      once := fun n r' hr' hasync' hconn' hnot => by
        refine h.once n r' hr' hasync' hconn' fun o ho heq => ?_
        by_cases ho' : o.handle = op.handle
        · -- the operation's own client has left
          have hown : r' = r := h.unique n r' r hr' (by rw [← heq, ho']; exact hr)
          rw [hown, hclient] at hconn'
          exact hconn hconn'
        · exact hnot o (mem_filter.mpr ⟨ho, decide_eq_true ho'⟩) heq
      aborts := fun hstrict c hc => by
        have hne : op.client ≠ c := fun heq => hconn (heq ▸ hc)
        have hcount := hperm.countP_eq fun o => o.client = c && o.aborting
        rw [countP_cons_of_neg (by rw [decide_eq_false hne]; exact Bool.false_ne_true)] at hcount
        rw [hcount]
        exact h.aborts hstrict c hc
      distinct := hdistinct
      tabled := fun o ho => h.tabled o (hmem ho).1 }

theorem answerSync (hr : .asked n r ∈ log)
    (hsync : r.async = false) (hack : strict → isAck completion = false) :
    Books strict (logSend connected r.client completion (some n) log) table next nextClient connected := by
  rw [logSend]
  split_ifs with hconn
  · refine h.note (h.toLedger.cons (le_refl _) nofun nofun ?_) nofun (fun n' r' hr' hasync => ?_)
      (fun _ _ => rfl) fun hstrict c => ?_
    · rintro c comp ends ⟨⟩
      refine ⟨(h.numbered n r hr).2, ?_⟩
      rintro n ⟨⟩
      exact ⟨r, hr, rfl, fun hasync => absurd hasync (by rw [hsync]; exact false_ne_true)⟩
    · -- the handle is that of another command
      refine decide_eq_false fun heq => ?_
      subst heq
      rw [h.unique n r' r hr' hr, hsync] at hasync
      cases hasync
    · rw [acksAbort_sent, hack hstrict, Bool.false_and]
  · exact h

/-- The device moved or synchronised something. -/
def Silent : Act → Prop
  | .moved .. | .synced .. => True
  | _ => False

theorem noteAll (hmid : ∀ a ∈ mid, Silent a) :
    Books strict (mid ++ log) table next nextClient connected := by
  induction mid with
  | nil => exact h
  | cons a mid ih =>
    have ih := ih fun b hb => hmid b (mem_cons_of_mem _ hb)
    have ha := hmid a mem_cons_self
    match a, ha with
    | .moved .., _ | .synced .., _ =>
      exact ih.note (ih.toLedger.cons (le_refl _) nofun nofun nofun) nofun
        (fun _ _ _ _ => rfl) (fun _ _ => rfl) fun _ _ => rfl

/-- A client is sent what answers no read or write and acknowledges no abort. -/
theorem noteSent (client : ℕ) (hack : isAck completion = false) :
    Books strict (logSend connected client completion none log) table next nextClient connected := by
  rw [logSend]
  split_ifs with hconn
  · refine h.note (h.toLedger.cons (le_refl _) nofun nofun ?_) nofun (fun _ _ _ _ => rfl)
      (fun _ _ => rfl) fun _ c => ?_
    · rintro c completion ends ⟨⟩
      exact ⟨h.clients client hconn, nofun⟩
    · rw [acksAbort_sent, hack, Bool.false_and]
  · exact h

theorem skip : Books strict log table (next + 1) nextClient connected :=
  { h with numbered := fun n r hr => ⟨Nat.lt_succ_of_lt (h.numbered n r hr).1, (h.numbered n r hr).2⟩ }

theorem askNow (hclient : r.client < nextClient) (hmid : ∀ a ∈ mid, Silent a)
    (hends : r.async → completion.Ends r next) (hack : isAck completion = false) :
    Books strict (logSend connected r.client completion (some next) (mid ++ .asked next r :: log))
      table (next + 1) nextClient connected := by
  cases hasync : r.async with
  | false =>
    have hask : Books strict (.asked next r :: log) ([] ++ table) (next + 1) nextClient connected :=
      h.ask hclient (by rw [hasync]; rfl)
    exact (hask.noteAll hmid).answerSync (mem_append_right _ mem_cons_self) hasync
      fun _ => hack
  | true =>
    have hask : Books strict (.asked next r :: log)
        ([⟨next, r.client, r.tag, r.kind, false⟩] ++ table) (next + 1) nextClient connected :=
      h.ask hclient (by rw [hasync]; rfl)
    -- the operation is in the table only until it is answered
    have hrest : ([⟨next, r.client, r.tag, r.kind, false⟩] ++ table : List Pending).filter
        (·.handle ≠ next) = table := by
      rw [singleton_append, filter_cons_of_neg (by simp)]
      exact filter_eq_self.mpr fun op hop => decide_eq_true (h.ne_of_mem_table hop)
    rw [← hrest]
    refine (hask.noteAll hmid).answer mem_cons_self (fun r' hr' _ _ => ?_) fun _ => hack
    have hsame := (hask.noteAll hmid).unique _ _ _ hr' (mem_append_right _ mem_cons_self)
    exact hsame ▸ hends hasync

end

/-- The table with an operation marked. -/
def mark (table : List Pending) (handle : ℕ) : List Pending :=
  table.map fun op => if op.handle = handle then { op with aborting := true } else op

theorem mem_mark (hop : op ∈ mark table n) :
    ∃ op' ∈ table, op.handle = op'.handle ∧ op.client = op'.client ∧ op.tag = op'.tag ∧
      op.kind = op'.kind := by
  obtain ⟨op', hop', rfl⟩ := mem_map.mp hop
  refine ⟨op', hop', ?_⟩
  split_ifs <;> exact ⟨rfl, rfl, rfl, rfl⟩

theorem mark_handles (table : List Pending) (n : ℕ) :
    (mark table n).map (·.handle) = table.map (·.handle) := by
  rw [mark, map_map]
  refine map_congr_left fun op _ => ?_
  change (if op.handle = n then _ else _ : Pending).handle = _
  split_ifs <;> rfl

theorem mark_filter (table : List Pending) (n : ℕ) :
    (mark table n).filter (·.handle ≠ n) = table.filter (·.handle ≠ n) := by
  induction table with
  | nil => rfl
  | cons op table ih =>
    change ((if op.handle = n then _ else _) :: mark table n).filter _ = _
    by_cases hop : op.handle = n
    · rw [if_pos hop, filter_cons_of_neg (by simpa using hop),
        filter_cons_of_neg (by simpa using hop), ih]
    · rw [if_neg hop, filter_cons_of_pos (by simpa using hop),
        filter_cons_of_pos (by simpa using hop), ih]

theorem countP_mark (hdistinct : (table.map (·.handle)).Nodup) (hop : op ∈ table)
    (hfirst : op.aborting = false) (c : ℕ) :
    (mark table op.handle).countP (fun o => o.client = c && o.aborting) =
      table.countP (fun o => o.client = c && o.aborting) +
        if decide (op.client = c) then 1 else 0 := by
  have hperm := perm_cons_filter hdistinct hop
  rw [mark, countP_map, ← hperm.countP_eq, ← hperm.countP_eq, countP_cons,
    countP_cons, hfirst, Bool.and_false, if_neg Bool.false_ne_true, Nat.add_zero]
  congr 1
  · refine countP_congr fun o ho => ?_
    have hne : o.handle ≠ op.handle := of_decide_eq_true (mem_filter.mp ho).2
    simp only [Function.comp_apply, if_neg hne]
  · simp only [Function.comp_apply, if_true, Bool.and_true]

section

variable (h : Books strict log table next nextClient connected)
include h

/-- A client asks for the abort of one of its operations, the first time. -/
theorem markAborting (hop : op ∈ table) (hfirst : strict → op.aborting = false) :
    Books strict (.abortAsked op.client op.handle :: log) (mark table op.handle) next nextClient connected := by
  obtain ⟨r, hr, -, hclient, -⟩ := h.tabled op hop
  have hanswers : ∀ n, (abortAsked op.client op.handle :: log).countP (answers n) =
      log.countP (answers n) := fun n => countP_cons_of_neg false_ne_true
  exact {
    toLedger := by
      refine h.toLedger.cons (le_refl _) nofun ?_ nofun
      rintro c n ⟨⟩
      exact hclient ▸ (h.numbered _ r hr).2
    inFlight := fun o ho => by
      obtain ⟨o', ho', hh, -⟩ := mem_mark ho
      rw [hanswers, hh]
      exact h.inFlight o' ho'
    once := fun n r' hr' hasync hconn hnot => by
      have hr' := (mem_cons.mp hr').resolve_left nofun
      refine (hanswers n).trans (h.once n r' hr' hasync hconn fun o ho heq => ?_)
      have hin : n ∈ (mark table op.handle).map (·.handle) := by
        rw [mark_handles]
        exact mem_map.mpr ⟨o, ho, heq⟩
      obtain ⟨o', ho', heq'⟩ := mem_map.mp hin
      exact hnot o' ho' heq'
    aborts := fun hstrict c hc => by
      have hold := h.aborts hstrict c hc
      have hmarked := countP_mark h.distinct hop (hfirst hstrict) c
      have hnone : (abortAsked op.client op.handle :: log).countP (acksAbort c) =
          log.countP (acksAbort c) := countP_cons_of_neg false_ne_true
      rw [hnone, hmarked, countP_cons]
      change log.countP (asksAbort c) + (if decide (op.client = c) then 1 else 0) = _
      omega
    distinct := by
      rw [mark_handles]
      exact h.distinct
    tabled := fun o ho => by
      obtain ⟨o', ho', hh, hc, ht, hk⟩ := mem_mark ho
      rw [hh, hc, ht, hk]
      exact h.tabled_cons _ o' ho'
    clients := h.clients }

/-- A client that is connected asks for an abort and is acknowledged at once. -/
theorem ackIdle {c : ℕ} (hconn : connected c)
    (n : ℕ) : Books strict (.sent c (.abortAck n) none :: .abortAsked c n :: log) table next nextClient
      connected := by
  have hlt := h.clients c hconn
  -- neither act alone leaves the aborts in balance
  have hlax : Books False (.sent c (.abortAck n) none :: .abortAsked c n :: log) table next nextClient
      connected := by
    have hlax : Books False log table next nextClient connected := { h with aborts := False.elim }
    have hasks := hlax.note (a := .abortAsked c n) (h.toLedger.cons (le_refl _) nofun
      (by rintro c n ⟨⟩; exact hlt) nofun) nofun (fun _ _ _ _ => rfl) nofun nofun
    exact hasks.note (hasks.toLedger.cons (le_refl _) nofun nofun
      (by rintro c comp ends ⟨⟩; exact ⟨hlt, nofun⟩)) nofun (fun _ _ _ _ => rfl) nofun nofun
  refine { hlax with aborts := fun hstrict c' hc' => ?_ }
  have hold := h.aborts hstrict c' hc'
  have hasks : (sent c (.abortAck n) none :: .abortAsked c n :: log).countP
      (asksAbort c') = log.countP (asksAbort c') + if decide (c = c') then 1 else 0 := by
    rw [countP_cons_of_neg Bool.false_ne_true, countP_cons]
    rfl
  have hacks : (sent c (.abortAck n) none :: .abortAsked c n :: log).countP
      (acksAbort c') = log.countP (acksAbort c') + if decide (c = c') then 1 else 0 := by
    rw [countP_cons, countP_cons_of_neg Bool.false_ne_true]
    rfl
  omega

theorem connect :
    Books strict log table next (nextClient + 1) fun c => if c = nextClient then true else connected c := by
  have hold : ∀ c, c ≠ nextClient → (if c = nextClient then true else connected c) = connected c :=
    fun c hc => if_neg hc
  exact { h with
    once := fun n r hr hasync hconn => by
      rw [hold _ (ne_of_lt (h.numbered n r hr).2)] at hconn
      exact h.once n r hr hasync hconn
    aborts := fun hstrict c hc => by
      by_cases hnew : c = nextClient
      · subst hnew
        -- a new client has asked for nothing
        have hasks : log.countP (asksAbort c) = 0 := countP_eq_zero.mpr fun a ha hask => by
          cases a with
          | abortAsked c' n =>
            have heq : c' = c := of_decide_eq_true hask
            exact lt_irrefl _ (heq ▸ h.abortsBelow c' n ha)
          | _ => cases hask
        have hacks : log.countP (acksAbort c) = 0 := countP_eq_zero.mpr fun a ha hack => by
          cases a with
          | sent c' comp ends =>
            rw [acksAbort_sent, and_eq_true] at hack
            have heq : c' = c := of_decide_eq_true hack.2
            exact lt_irrefl _ (heq ▸ h.sentBelow c' comp ends ha)
          | _ => cases hack
        have htable : table.countP (fun op => op.client = c && op.aborting) = 0 :=
          countP_eq_zero.mpr fun op hop hmarked => by
            rw [and_eq_true] at hmarked
            obtain ⟨r, hr, -, hclient, -⟩ := h.tabled op hop
            have heq : op.client = c := of_decide_eq_true hmarked.1
            exact lt_irrefl _ ((hclient.trans heq) ▸ (h.numbered _ r hr).2)
        rw [hasks, hacks, htable]
      · rw [hold c hnew] at hc
        exact h.aborts hstrict c hc
    numbered := fun n r hr => ⟨(h.numbered n r hr).1, Nat.lt_succ_of_lt (h.numbered n r hr).2⟩
    abortsBelow := fun c n hin => Nat.lt_succ_of_lt (h.abortsBelow c n hin)
    sentBelow := fun c comp ends hin => Nat.lt_succ_of_lt (h.sentBelow c comp ends hin)
    clients := fun c hc => by
      by_cases hnew : c = nextClient
      · exact hnew ▸ Nat.lt_succ_self _
      · rw [hold c hnew] at hc
        exact Nat.lt_succ_of_lt (h.clients c hc) }

theorem disconnect {p : Pending → Bool} (hp : ∀ op, p op = false → op.client = client) :
    Books strict log (table.filter p) next nextClient fun c => if c = client then false else connected c := by
  have hold : ∀ c, (if c = client then false else connected c) = true →
      c ≠ client ∧ connected c = true := fun c hc => by
    split_ifs at hc with heq
    exact ⟨heq, hc⟩
  exact { h with
    inFlight := fun op hop => h.inFlight op (mem_of_mem_filter hop)
    once := fun n r hr hasync hconn hnot => by
      obtain ⟨hne, hconn⟩ := hold _ hconn
      refine h.once n r hr hasync hconn fun op hop heq => ?_
      obtain ⟨r', hr', -, hclient, -⟩ := h.tabled op hop
      have hsame : r = r' := h.unique n r r' hr (heq ▸ hr')
      refine hnot op (mem_filter.mpr ⟨hop, ?_⟩) heq
      by_contra hfalse
      exact hne ((hsame ▸ hclient).trans (hp op (not_eq_true _ ▸ hfalse)))
    aborts := fun hstrict c hc => by
      obtain ⟨hne, hconn⟩ := hold c hc
      rw [countP_filter, h.aborts hstrict c hconn]
      congr 1
      refine countP_congr fun op _ => ?_
      refine ⟨fun hop => and_eq_true_iff.mpr ⟨hop, ?_⟩,
        fun hop => (and_eq_true_iff.mp hop).1⟩
      by_contra hfalse
      have hclient := of_decide_eq_true (and_eq_true_iff.mp hop).1
      exact hne (hclient.symm.trans (hp op (not_eq_true _ ▸ hfalse)))
    distinct := h.distinct.sublist (filter_sublist.map _)
    tabled := fun op hop => h.tabled op (mem_of_mem_filter hop)
    clients := fun c hc => h.clients c (hold c hc).2 }

end

/-- A client that gets another queue of commands stays connected or not. -/
theorem isSome_ite {α : Type*} (clients : ℕ → Option α) (client : ℕ) (x : Option α) :
    (fun c => (if c = client then x else clients c).isSome) =
      fun c => if c = client then x.isSome else (clients c).isSome := by
  funext c
  exact apply_ite Option.isSome _ _ _

theorem isSome_ite_some {α : Type*} {clients : ℕ → Option α} {x : α} (hx : clients client = some x)
    (y : α) :
    (fun c => (if c = client then some y else clients c).isSome) = fun c => (clients c).isSome := by
  funext c
  split_ifs with heq
  · rw [heq, hx]; rfl
  · rfl

theorem start (strict : Prop) : Books strict [] [] 1 1 fun _ => false where
  inFlight _ h := nomatch h
  once _ _ h := nomatch h
  right _ _ _ h := nomatch h
  aborts _ _ h := nomatch h
  numbered _ _ h := nomatch h
  unique _ _ _ h := nomatch h
  distinct := nodup_nil
  tabled _ h := nomatch h
  abortsBelow _ _ h := nomatch h
  sentBelow _ _ _ h := nomatch h
  clients _ h := nomatch h

end Books

end Certus.BlockDevice
