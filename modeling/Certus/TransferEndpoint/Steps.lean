import Certus.TransferEndpoint.Actor

/-! # What the parts of a poll leave alone

Rules for the loops of the endpoint thread, and what each of its operations does not touch.

* **`finishDone_rule`**, **`failFetches_rule`**, **`settleAll_rule`** — what one report, one failed
  fetch and one settled write keep is kept by the loops over them.
* **`teardownFor_cases`** — a teardown either stops with the peer's links out of service, or ends what
  was under way with the peer behind the barrier.
* **`onMessage_cases`**, **`step_cases`** — what one message and one step can do. -/

namespace Certus.TransferEndpoint.Actor

open List Option Session
open Function (update_self update_of_ne update)

namespace World

open Table

variable {P : World → Prop}

/-! ## Reading after an update -/

section

variable (w : World)

@[simp] theorem conns_setConn_self (p : PeerId) (c : Option Conn) : (w.setConn p c).conns p = c :=
  update_self ..

theorem conns_setConn_of_ne {p q : PeerId} (c : Option Conn) (h : q ≠ p) :
    (w.setConn p c).conns q = w.conns q :=
  update_of_ne h ..

@[simp] theorem fetches_setFetch_self (id : ℕ) (f : Option Fetch) :
    (w.setFetch id f).fetches id = f :=
  update_self ..

theorem fetches_setFetch_of_ne {id j : ℕ} (f : Option Fetch) (h : j ≠ id) :
    (w.setFetch id f).fetches j = w.fetches j :=
  update_of_ne h ..

end

variable {l : Live} {p : PeerId} {w w' : World} {cause : Cause} {id n : ℕ} {t : Table} {q q' : Push}
  {c : Conn} {s s' : Session}

theorem live_of_upLink (h : w.upLink p = some l) : (w.table.entry p).live = some l :=
  (filter_eq_some_iff.mp h).1

/-! ## Loops -/

/-- What reporting a push does: nothing when it is gone; else it is removed, and the caller is called
back, or the answer is queued on the connection its peer has, if any. -/
inductive FinishCase (w : World) (id : ℕ) : World → Prop
  | gone : FinishCase w id w
  | called (q : Push) :
      FinishCase w id ((w.setPush id none).record (.called (.push id) (.ok q.results)))
  | orphan : FinishCase w id (w.setPush id none)
  | broke : FinishCase w id (w.setPush id none).abort
  | answered (q : Push) (context request : ℕ) {c : Conn} (hconn : w.conns q.peer = some c) :
      FinishCase w id (((w.setPush id none).setConn q.peer (some { c with
        session := { c.session with inService := c.session.inService - 1 }
        outbox := .reply context request q.results :: c.outbox })).record
          (.answered request c.link))

theorem finishOne_cases (w : World) (id : ℕ) : FinishCase w id (w.finishOne id) := by
  rw [finishOne]
  cases w.pushes id with
  | none => exact .gone
  | some q =>
    dsimp only
    cases q.finish with
    | callback => exact .called q
    | reply context request =>
      dsimp only
      cases hconn : w.conns q.peer with
      | none =>
        rw [show (w.setPush id none).conns q.peer = none from hconn]
        exact .orphan
      | some c =>
        rw [show (w.setPush id none).conns q.peer = some c from hconn]
        dsimp only
        rw [replied]
        split_ifs
        · exact .broke
        · exact .answered q context request hconn

/-- **Reporting.** What reporting one push keeps is kept by reporting all that are finished. -/
theorem finishDone_rule (hstep : ∀ w id, P w → P (w.finishOne id)) (h : P w) : P w.finishDone :=
  foldlRecOn _ _ h fun w hw id _ => hstep w id hw

section

variable
  (hstep : ∀ w id f, P w → w.fetches id = some f → f.peer = p →
    P (w.abortFetch id (cause.abort p id)))
include hstep

theorem foldl_abortFetch_rule (ids : List ℕ) (hids : ids.Nodup) :
    ∀ w : World, P w → (∀ id ∈ ids, ∃ f, w.fetches id = some f ∧ f.peer = p) →
      P (ids.foldl (fun w id => w.abortFetch id (cause.abort p id)) w) := by
  induction ids with
  | nil => exact fun _ h _ => h
  | cons id ids ih =>
    intro w h hto
    obtain ⟨hnot, hnodup⟩ := nodup_cons.mp hids
    obtain ⟨f, hf, hpeer⟩ := hto id mem_cons_self
    refine ih hnodup _ (hstep w id f h hf hpeer) fun j hj => ?_
    have hji : j ≠ id := fun heq => hnot (heq ▸ hj)
    obtain ⟨g, hg, hgpeer⟩ := hto j (mem_cons_of_mem _ hj)
    refine ⟨g, ?_, hgpeer⟩
    show update w.fetches id none j = some g
    rw [update_of_ne hji]
    exact hg

/-- **Failing.** What failing one fetch to the peer keeps is kept by failing them all. -/
theorem failFetches_rule (h : P w) : P (w.failFetches p cause) := by
  refine foldl_abortFetch_rule hstep _ (nodup_range.filter _) w h fun id hid => ?_
  have hany := (mem_filter.mp hid).2
  cases hf : w.fetches id with
  | none =>
    rw [hf] at hany
    cases hany
  | some f =>
    rw [hf] at hany
    exact ⟨f, rfl, of_decide_eq_true hany⟩

end

/-- **Settling.** What settling one write keeps is kept by settling all that a drain releases. -/
theorem settleAll_rule (hstep : ∀ w work ok, P w → P (settle w work ok)) (ok : ℕ → Bool)
    (works : List Work) : ∀ i (w : World), P w → P (settleAll ok i works w) := by
  induction works with
  | nil => exact fun _ _ h => h
  | cons work works ih => exact fun i w h => ih _ _ (hstep w work (ok i) h)

/-! ## What is left alone -/

/-- The state without the pushes, the connections and the log. -/
def besides (w : World) : World :=
  { w with
    table := { w.table with log := [] }
    aborted := false
    conns := fun _ => none
    pushes := fun _ => none }

/-- Reporting a push touches no more than the pushes, the connections and the log. -/
theorem besides_finishOne (w : World) (id : ℕ) : (w.finishOne id).besides = w.besides := by
  have hcase := finishOne_cases w id
  generalize w.finishOne id = w' at hcase ⊢
  cases hcase <;> rfl

theorem besides_finishDone (w : World) : w.finishDone.besides = w.besides :=
  finishDone_rule (P := fun w' => w'.besides = w.besides)
    (fun w' id h => (besides_finishOne w' id).trans h) rfl

theorem besides_failPushes (w : World) (p : PeerId) : (w.failPushes p).besides = w.besides :=
  besides_finishDone _

/-- What does not read the pushes, the connections and the log is left alone with the rest. -/
theorem of_besides {α : Type} (g : World → α) (hg : ∀ w, g w.besides = g w)
    (h : w'.besides = w.besides) : g w' = g w := by
  rw [← hg w', h, hg]

theorem entry_of_besides (h : w'.besides = w.besides) (p : PeerId) :
    w'.table.entry p = w.table.entry p :=
  of_besides (fun w => w.table.entry p) (fun _ => rfl) h

theorem settle_eq (w : World) (work : Work) (ok : Bool) :
    ∃ pushes aborted, settle w work ok = { w with pushes := pushes, aborted := aborted } := by
  cases work with
  | send | recv => exact ⟨w.pushes, w.aborted, rfl⟩
  | push id index hold =>
    unfold settle
    dsimp only
    cases w.pushes id with
    | none => exact ⟨w.pushes, true, rfl⟩
    | some q =>
      dsimp only
      split_ifs
      · exact ⟨w.pushes, true, rfl⟩
      all_goals exact ⟨_, w.aborted, rfl⟩

theorem settleAll_eq (w : World) (ok : ℕ → Bool) (i : ℕ) (works : List Work) :
    ∃ pushes aborted, settleAll ok i works w = { w with pushes := pushes, aborted := aborted } := by
  refine settleAll_rule (P := fun v => ∃ pushes aborted,
    v = { w with pushes := pushes, aborted := aborted }) ?_ ok works i w ⟨w.pushes, w.aborted, rfl⟩
  rintro _ work ok ⟨pushes, aborted, rfl⟩
  obtain ⟨pushes', aborted', h⟩ := settle_eq { w with pushes := pushes, aborted := aborted } work ok
  exact ⟨pushes', aborted', h⟩

/-! ## Commands -/

/-- A fetch fails at once, or starts with a link to its peer. -/
inductive FetchCase (w : World) (p : PeerId) (items : ℕ) : World → Prop
  | failed (a : Abort) : FetchCase w p items ((w.askFetch items).abortFetch w.nextFetch a)
  | started {r : Readiness} {t : Table} (hensured : Ensured (w.askFetch items).table p (.ok r, t)) :
      FetchCase w p items
        (((w.askFetch items).withTable t).setFetch w.nextFetch (some (.start p items)))

theorem withTable_self (w : World) : w.withTable w.table = w := by
  rw [withTable, if_pos rfl]

theorem startFetch_cases (w : World) (p : PeerId) (items : ℕ) (connect : Except String ℕ) :
    FetchCase w p items (w.startFetch p items connect) := by
  rw [startFetch]
  dsimp only
  split_ifs
  · exact .failed _
  · have hcase := ensure_cases (w.askFetch items).table p connect
    generalize (w.askFetch items).table.ensure p connect = r at hcase ⊢
    cases hcase with
    | refused e =>
      dsimp only
      rw [withTable_self]
      exact .failed _
    | linked r => exact .started (.linked r)
    | started recvs hlive hdraining => exact .started (.started recvs hlive hdraining)

/-- A push is called back at once, fails for want of a link, or starts. -/
inductive PushCase (w : World) (p : PeerId) (items : ℕ) : World → Prop
  | down (e : TransferEndpointError) :
      PushCase w p items ((w.askPush items).record (.called (.push w.nextPush) (.err e)))
  | refused : PushCase w p items (((w.askPush items).setPush w.nextPush
        (some (.start p items .callback))).failPushes p)
  | started {r : Readiness} {t : Table} (hensured : Ensured (w.askPush items).table p (.ok r, t)) :
      PushCase w p items
        (((w.askPush items).withTable t).setPush w.nextPush (some (.start p items .callback)))

section

variable (w : World) (p : PeerId)

theorem startPush_cases (items : ℕ) (connect : Except String ℕ) :
    PushCase w p items (w.startPush p items connect) := by
  rw [startPush]
  split_ifs
  · exact .down _
  · have hcase := ensure_cases (w.askPush items).table p connect
    generalize (w.askPush items).table.ensure p connect = r at hcase ⊢
    cases hcase with
    | refused e =>
      dsimp only
      rw [withTable_self]
      exact .refused
    | linked r => exact .started (.linked r)
    | started recvs hlive hdraining => exact .started (.started recvs hlive hdraining)

/-! ## Teardown -/

/-- The first parts of a teardown touch the table, the connections and the pushes. -/
theorem quenched_eq (io : TearIo) :
    ∃ conns pushes aborted, w.quenched p io = { w with
      table := (w.table.quench p io.toError io.drain).1
      conns := conns
      pushes := pushes
      aborted := aborted } := by
  obtain ⟨pushes, aborted, h⟩ := settleAll_eq
    { w with table := (w.table.quench p io.toError io.drain).1 } io.completed 0
    (w.table.quench p io.toError io.drain).2.1
  rw [quenched, h]
  exact ⟨_, pushes, aborted, rfl⟩

theorem table_quenched (io : TearIo) :
    (w.quenched p io).table = (w.table.quench p io.toError io.drain).1 := by
  obtain ⟨conns, pushes, aborted, hquenched⟩ := quenched_eq w p io
  rw [hquenched]

end

/-- The state of a teardown that succeeds, before what was under way is ended. -/
def cleared (w : World) (p : PeerId) (io : TearIo) (t : Table) : World :=
  { w.quenched p io with table := t }

/-- **A teardown.** It does nothing on an endpoint that is shut down; it stops with the links of the
peer out of service; or it destroys them, and ends every push and every fetch to the peer. -/
inductive TeardownCase (w : World) (p : PeerId) (cause : Cause) (io : TearIo) :
    World → Bool → Prop
  | down : TeardownCase w p cause io w false
  | stopped : TeardownCase w p cause io (w.quenched p io) false
  | done {t : Table} (htorn : TornDown w.table p t) :
      TeardownCase w p cause io (((w.cleared p io t).failPushes p).failFetches p cause) true

theorem teardownFor_cases (w : World) (p : PeerId) (cause : Cause) (io : TearIo) :
    TeardownCase w p cause io (w.teardownFor p cause io).1 (w.teardownFor p cause io).2 := by
  rw [teardownFor]
  split
  · exact .down
  split_ifs with hok
  · cases hfinish : (w.quenched p io).table.finishTeardown p with
    | none => exact .stopped
    | some t =>
      rw [table_quenched] at hfinish
      dsimp only
      exact .done (tornDown_of_finishTeardown (Bool.and_eq_true_iff.mp hok).2 hfinish)
  · exact .stopped

theorem teardownFor_of_ok {io : TearIo} (cause : Cause) (hrunning : w.running)
    (h : TeardownOk w.table p io.toError io.drain) : (w.teardownFor p cause io).2 := by
  obtain ⟨hbegun, hdrained⟩ := h.succeeds
  obtain ⟨t, hfinish⟩ := isSome_iff_exists.mp (finishTeardown_isSome hdrained)
  have hup : ¬w.running = false := by rw [hrunning]; simp
  rw [teardownFor, if_neg hup, hbegun, hdrained, table_quenched, hfinish]
  rfl

theorem entries_failFetches : (w.failFetches p cause).table.entries = w.table.entries :=
  failFetches_rule (P := fun v => v.table.entries = w.table.entries) (fun _ _ _ h _ _ => h) rfl

theorem inError_failFetches : (w.failFetches p cause).table.inError = w.table.inError :=
  failFetches_rule (P := fun v => v.table.inError = w.table.inError) (fun _ _ _ h _ _ => h) rfl

theorem foldl_abortFetch_fetches (a : ℕ → Abort) (ids : List ℕ) :
    ∀ (w : World) (j : ℕ), (ids.foldl (fun w id => w.abortFetch id (a id)) w).fetches j
      = if j ∈ ids then none else w.fetches j := by
  induction ids with
  | nil => exact fun w j => (if_neg (fun h => nomatch h)).symm
  | cons id ids ih =>
    intro w j
    rw [foldl_cons, ih]
    by_cases hj : j = id
    · subst hj
      rw [if_pos mem_cons_self]
      split_ifs
      · rfl
      · exact fetches_setFetch_self w j none
    · have hmem : j ∈ id :: ids ↔ j ∈ ids := by simp [hj]
      simp only [hmem]
      split_ifs
      · rfl
      · exact fetches_setFetch_of_ne w none hj

/-- Only fetches to other peers are left. -/
theorem fetches_failFetches {f : Fetch} (hfresh : ∀ id, w.nextFetch ≤ id → w.fetches id = none)
    (h : (w.failFetches p cause).fetches id = some f) : w.fetches id = some f ∧ f.peer ≠ p := by
  rw [failFetches, foldl_abortFetch_fetches] at h
  split_ifs at h with hmem
  refine ⟨h, fun hpeer => hmem (mem_filter.mpr ⟨mem_range.mpr ?_, ?_⟩)⟩
  · by_contra hlt
    exact nomatch (hfresh id (Nat.le_of_not_lt hlt)).symm.trans h
  · rw [h]
    exact decide_eq_true hpeer

section

variable (w : World) (p : PeerId) (cause : Cause) (io : TearIo)

/-- A teardown leaves the entries of other peers alone, and no link leaves ERROR. -/
theorem table_teardownFor :
    (∀ q, q ≠ p → (w.teardownFor p cause io).1.table.entry q = w.table.entry q) ∧
      w.table.inError ⊆ (w.teardownFor p cause io).1.table.inError := by
  have hcase := teardownFor_cases w p cause io
  generalize (w.teardownFor p cause io).1 = v, (w.teardownFor p cause io).2 = ok at hcase ⊢
  cases hcase with
  | down => exact ⟨fun _ _ => rfl, List.Subset.refl _⟩
  | stopped =>
    rw [table_quenched]
    refine ⟨fun q hq => ?_, inError_quench w.table p io.toError io.drain⟩
    obtain ⟨links, -, hentry⟩ := entry_quench w.table p io.toError io.drain
    rw [hentry, if_neg hq]
  | @done t htorn =>
    have htable : (w.cleared p io t).table = t := rfl
    generalize w.cleared p io t = v at htable ⊢
    have hpushes := besides_failPushes v p
    refine ⟨fun q hq => ?_, ?_⟩
    · rw [Table.entry, entries_failFetches, ← Table.entry, entry_of_besides hpushes, htable,
        htorn.entry, if_neg hq]
    · have herror : (v.failPushes p).table.inError = v.table.inError := by
        show (v.failPushes p).besides.table.inError = v.besides.table.inError
        rw [hpushes]
      rw [inError_failFetches, herror, htable]
      exact htorn.inError

end

/-- The teardown of one peer leaves those of the others as possible as they were. -/
theorem teardownOk_teardownFor {p q : PeerId} {io io' : TearIo} (cause : Cause) (hq : q ≠ p)
    (h : TeardownOk w.table q io'.toError io'.drain) :
    TeardownOk (w.teardownFor p cause io).1.table q io'.toError io'.drain := by
  obtain ⟨hentry, hinError⟩ := table_teardownFor w p cause io
  rw [TeardownOk, hentry q hq]
  exact ⟨h.1, fun d hd => ⟨hinError (h.2 d hd).1, (h.2 d hd).2⟩⟩

/-- No fetch appears in a teardown, and none to the peer is left when it succeeds. -/
theorem fetches_teardownFor (w : World) (p : PeerId) (cause : Cause) (io : TearIo)
    (hfresh : ∀ id, w.nextFetch ≤ id → w.fetches id = none) :
    (∀ id f, (w.teardownFor p cause io).1.fetches id = some f → w.fetches id = some f) ∧
      ((w.teardownFor p cause io).2 →
        ∀ id f, (w.teardownFor p cause io).1.fetches id = some f → f.peer ≠ p) := by
  obtain ⟨conns, pushes, aborted, hquenched⟩ := quenched_eq w p io
  have hcase := teardownFor_cases w p cause io
  generalize (w.teardownFor p cause io).1 = v, (w.teardownFor p cause io).2 = ok at hcase ⊢
  cases hcase with
  | down => exact ⟨fun _ _ h => h, fun h => absurd h Bool.false_ne_true⟩
  | stopped =>
    refine ⟨fun id f h => ?_, fun h => absurd h Bool.false_ne_true⟩
    rw [hquenched] at h
    exact h
  | @done t htorn =>
    have hfetches : (w.cleared p io t).fetches = w.fetches := by rw [cleared, hquenched]
    have hnext : (w.cleared p io t).nextFetch = w.nextFetch := by rw [cleared, hquenched]
    generalize w.cleared p io t = v at hfetches hnext ⊢
    have hpushes := besides_failPushes v p
    have hfetches' : (v.failPushes p).fetches = w.fetches :=
      (congrArg World.fetches hpushes).trans hfetches
    have hnext' : (v.failPushes p).nextFetch = w.nextFetch :=
      (congrArg World.nextFetch hpushes).trans hnext
    have hleft : ∀ id f, ((v.failPushes p).failFetches p cause).fetches id = some f →
        w.fetches id = some f ∧ f.peer ≠ p := by
      intro id f h
      rw [← hfetches']
      refine fetches_failFetches (fun id hid => ?_) h
      rw [hfetches']
      exact hfresh id (hnext' ▸ hid)
    exact ⟨fun id f h => (hleft id f h).1, fun _ id f h => (hleft id f h).2⟩

/-! ## Work on a push -/

/-- **Work on a push.** An entry is decided or put back, a read of it is handed out or comes back, or
a write of it is posted or fails to be. -/
inductive WorkCase (w : World) : World → Prop
  | edited (pushes : ℕ → Option Push) (reads : List (ℕ × ℕ)) (aborted : Bool) :
      WorkCase w { w with pushes := pushes, reads := reads, aborted := aborted }
  | failed (id : ℕ) (q : Push) (p : PeerId) :
      WorkCase w ((w.setPush id (some q)).fault p (some .protocol))
  | posted {p : PeerId} {l : Live} (id : ℕ) (q : Push) (slab : List Work)
      (hl : w.upLink p = some l) :
      WorkCase w ((w.setPush id (some q)).setSlab p l slab)

theorem post_cases (hl : w.upLink q.peer = some l) (index : ℕ) (hold : Hold) (posted : Bool) :
    WorkCase w (w.post id q l index hold posted) := by
  rw [post]
  cases posted with
  | true => exact .posted id _ _ hl
  | false => exact .failed id _ q.peer

theorem upLink_of_canPost (h : w.canPost q = some l) : w.upLink q.peer = some l := by
  rw [canPost] at h
  split at h
  · cases h
  split_ifs at h
  exact h

theorem resolve_cases {r : Resolution} (h : w.resolve id r = some w') : WorkCase w w' := by
  rw [resolve] at h
  split at h
  · cases h
  rename_i q hq
  split at h
  · cases h
  · cases h
  rename_i l index rest hl hpending
  cases r with
  | failed | miss | block | deferred =>
    cases h
    exact .edited _ _ _
  | write posted =>
    cases h
    exact post_cases (q := { q with pending := rest }) (upLink_of_canPost hl) index .pin posted

theorem postReady_cases {posted : Bool} (h : w.postReady id posted = some w') : WorkCase w w' := by
  rw [postReady] at h
  split at h
  · cases h
  rename_i q hq
  split at h
  · cases h
  · cases h
  rename_i l index rest hl hready
  cases h
  exact post_cases (q := { q with ready := rest }) (upLink_of_canPost hl) index .buffer posted

theorem retry_cases (h : w.retry id n = some w') : WorkCase w w' := by
  rw [retry] at h
  split at h
  · cases h
  split at h <;> cases h
  exact .edited _ _ _

theorem onReadDone_cases (w : World) (i : ℕ) (r : ReadResult) : WorkCase w (w.onReadDone i r) := by
  rw [onReadDone]
  split
  · exact .edited w.pushes w.reads w.aborted
  dsimp only
  split
  · exact .edited _ _ _
  split_ifs <;> exact .edited _ _ _

/-- A completion of the send queue: a write is settled, a sent message gives its buffer back. -/
inductive CompletionCase (w : World) (p : PeerId) : World → Prop
  | write {l : Live} {i id index : ℕ} {hold : Hold} (ok : Bool) (f : Option Fault)
      (hl : w.upLink p = some l) (hslab : l.slab[i]? = some (.push id index hold)) :
      CompletionCase w p (((w.setSlab p l (l.slab.eraseIdx i)).settle (.push id index hold)
        ok).fault p f)
  | send {l : Live} {i : ℕ} (hl : w.upLink p = some l) (hslab : l.slab[i]? = some .send) :
      CompletionCase w p (w.setSlab p l (l.slab.eraseIdx i))

theorem onCompletion_cases {i : ℕ} {c : Completion} (h : w.onCompletion p i c = some w') :
    CompletionCase w p w' := by
  rw [onCompletion] at h
  split at h
  · rename_i l _ hl
    split at h
    · rename_i id index hold hslab
      split_ifs at h with hfailed
      · cases h
        exact .write _ (some .protocol) hl hslab
      · cases h
        exact .write _ none hl hslab
    · rename_i hslab
      cases h
      exact .send hl hslab
    · cases h
  · cases h

/-! ## Sending -/

/-- The fetch has the peer it had, and nothing more of it is refused. -/
structure Keeps (f f' : Fetch) : Prop where
  peer : f'.peer = f.peer
  refused : f'.refused = f.refused

/-- A fetch is split into chunks. Without entries it is answered at once; else its next chunk is
queued on the connection of its peer, or waits. -/
inductive SendCase (w : World) (id : ℕ) : World → Prop
  | empty {f f' : Fetch} (hf : w.fetches id = some f) (hkeeps : Keeps f f') :
      SendCase w id (w.completeFetch id f')
  | waits {f f' : Fetch} (hf : w.fetches id = some f) (hkeeps : Keeps f f') :
      SendCase w id (w.setFetch id (some f'))
  | sent {f f' : Fetch} {c : Conn} (k : ℕ) (s : Session) (hf : w.fetches id = some f)
      (hkeeps : Keeps f f') (hc : w.conns f.peer = some c) :
      SendCase w id ((w.setFetch id (some (f'.setState k (.sent c.nextContext)))).setConn f.peer
        (some { c with
          session := s
          outbox := c.outbox ++ [.fetch c.nextContext id k]
          outbound := (c.nextContext, id, k) :: c.outbound
          nextContext := c.nextContext + 1 }))

/-- Splitting into chunks keeps the peer and the refusal. -/
theorem keeps_chunk (f : Fetch) (n : ℕ) : Keeps f (f.chunk n) := by
  rw [Fetch.chunk]
  cases f.items <;> exact ⟨rfl, rfl⟩

theorem sendFetch_cases (h : w.sendFetch id = some w') : SendCase w id w' := by
  rw [sendFetch] at h
  split at h
  · cases h
  rename_i f hf
  split at h
  · cases h
  next c hc =>
    have hkeeps := keeps_chunk f c.session.peerMaxEntries
    dsimp only at h
    split_ifs at h
    · cases h
      exact .empty hf hkeeps
    · cases hk : (f.chunk c.session.peerMaxEntries).unsent with
      | none =>
        rw [hk] at h
        cases h
        exact .waits hf hkeeps
      | some k =>
        rw [hk] at h
        cases hs : c.session.trySendRequest with
        | none =>
          rw [hs] at h
          cases h
          exact .waits hf hkeeps
        | some s =>
          rw [hs] at h
          cases h
          rw [hkeeps.peer]
          exact .sent k s hf hkeeps hc

/-- The first `n` messages of an outbox are posted on a link. -/
def flushed (w : World) (p : PeerId) (c : Conn) (l : Live) (n : ℕ) : World :=
  ((c.outbox.take n).filterMap (postedAct p l.link)).foldl record
    ((w.setSlab p l (l.slab ++ List.replicate (c.outbox.take n).length Work.send)).setConn p
      (some { c with outbox := c.outbox.drop n }))

/-- An outbox is flushed, possibly up to a fault. -/
inductive FlushCase (w : World) (p : PeerId) : World → Prop
  | stuck (f : Option Fault) : FlushCase w p (w.fault p f)
  | posted {c : Conn} {l : Live} (n : ℕ) (f : Option Fault) (hc : w.conns p = some c)
      (hl : w.upLink p = some l) : FlushCase w p ((w.flushed p c l n).fault p f)

theorem flushOutbox_cases {ok : Bool} (h : w.flushOutbox p n ok = some w') : FlushCase w p w' := by
  rw [flushOutbox] at h
  split at h
  · cases h
  rename_i c hc
  split at h
  · cases h
  split at h
  · cases h
    exact .stuck _
  rename_i l hl
  cases ok with
  | true =>
    cases h
    exact .posted n none hc hl
  | false =>
    cases h
    exact .posted n (some .protocol) hc hl

/-! ## Messages -/

@[simp] theorem setConn_setConn (w : World) (p : PeerId) (c c' : Option Conn) :
    (w.setConn p c).setConn p c' = w.setConn p c' := by
  simp only [setConn, Function.update_idem]

/-- What most messages do to a connection: its accounts change, and a message that is neither a chunk
nor a reply may be queued. -/
def Tuned (c c' : Conn) : Prop :=
  ∀ m ∈ c'.outbox, m = .helloReply ∨ m = .refusal none ∨ m ∈ c.outbox

theorem tuned_accounts (c : Conn) (s : Session) (outbound : List (ℕ × ℕ × ℕ)) :
    Tuned c { c with session := s, outbound := outbound } :=
  fun _ hm => .inr (.inr hm)

theorem tuned_helloReply (c : Conn) (s : Session) :
    Tuned c { c with session := s, outbox := .helloReply :: c.outbox } :=
  fun _ hm => (mem_cons.mp hm).imp_right .inr

theorem tuned_refusal (c : Conn) (s : Session) :
    Tuned c { c with session := s, outbox := .refusal none :: c.outbox } :=
  fun _ hm => .inr (mem_cons.mp hm)

/-- An answered fetch is called back when all its chunks are settled. -/
def putFetch (w : World) (id : ℕ) (f : Fetch) : World :=
  if f.settled then w.completeFetch id f else w.setFetch id (some f)

/-- **A message.** Apart from the accounts of the connection it can settle a chunk of one of our
fetches, or be a request, refused at once or served. -/
inductive MessageCase (w : World) (p : PeerId) : Message → World × Option Fault → Prop
  | kept {m : Message} (f : Option Fault) : MessageCase w p m (w, f)
  | tuned {m : Message} {c c' : Conn} (hc : w.conns p = some c) (htuned : Tuned c c')
      (f : Option Fault) : MessageCase w p m (w.setConn p (some c'), f)
  | broke {m : Message} {c c' : Conn} (hc : w.conns p = some c) (htuned : Tuned c c') :
      MessageCase w p m ((w.setConn p (some c')).abort, none)
  | refusal {context : ℕ} {why : String} (c : Conn) (id : ℕ) (f : Fetch) :
      MessageCase w p (.error (some (context, true, why)))
        ((w.setConn p (some c)).putFetch id f, none)
  | answer {m : Message} {c c' : Conn} {id : ℕ} {f f' : Fetch} (hc : w.conns p = some c)
      (htuned : Tuned c c') (hf : w.fetches id = some f) (hkeeps : Keeps f f') :
      MessageCase w p m ((w.setConn p (some c')).putFetch id f', none)
  | refusedRequest {m : Message} {c : Conn} (s : Session) (hc : w.conns p = some c) :
      MessageCase w p m ((({ w with nextRequest := w.nextRequest + 1 }.record
        (.received w.nextRequest c.link)).setConn p (some { c with
          session := s, outbox := .refusal (some w.nextRequest) :: c.outbox })).record
          (.answered w.nextRequest c.link), none)
  | served {c : Conn} {context items : ℕ} (hc : w.conns p = some c) :
      MessageCase w p (.fetch context (some items)) (finishDone
        ((({ w with nextRequest := w.nextRequest + 1, nextPush := w.nextPush + 1 }.record
          (.received w.nextRequest c.link)).setConn p (some { c with
            session := { c.session with inService := c.session.inService + 1 } })).setPush
              w.nextPush (some (.start p items (.reply context w.nextRequest)))), none)

variable (hc : w.conns p = some c)
include hc

theorem queueReply_eq (m : Outgoing) :
    w.queueReply p m = w.setConn p (some { c with outbox := m :: c.outbox }) := by
  rw [queueReply, hc]

theorem onHello_cases (body : Option Hello) :
    MessageCase w p (.hello body) (w.onHello p c body) := by
  cases body with
  | none => exact .kept _
  | some h =>
    rw [onHello]
    rcases (c.session.onHello h).2 with _ | e
    · dsimp only
      rw [queueReply_eq (conns_setConn_self ..), setConn_setConn]
      exact .tuned hc (tuned_helloReply c _) _
    · cases e with
      | duplicate =>
        dsimp only
        rw [queueReply_eq (conns_setConn_self ..), setConn_setConn]
        exact .tuned hc (tuned_refusal c _) _
      | incompatible ours theirs | zeroQuota | zeroMaxEntries =>
        exact .tuned hc (tuned_accounts c _ _) _

theorem onError_cases (body : Option (ℕ × Bool × String)) :
    MessageCase w p (.error body) (w.onError p c body) := by
  rcases body with _ | ⟨context, _ | _, why⟩
  · exact .kept _
  · exact .kept _
  · rw [onError, if_neg (by simp)]
    cases c.outbound.lookup context with
    | none => exact .kept _
    | some x =>
      obtain ⟨id, k⟩ := x
      dsimp only
      cases c.session.onReply with
      | error v => exact .tuned hc (tuned_accounts c _ _) _
      | ok s =>
        dsimp only
        cases hf : w.fetches id with
        | none =>
          rw [show (w.setConn p _).fetches id = none from hf]
          exact .tuned hc (tuned_accounts c _ _) _
        | some f =>
          rw [show (w.setConn p _).fetches id = some f from hf]
          dsimp only
          split
          · exact .broke hc (tuned_accounts c _ _)
          · exact .refusal _ id _

theorem onFetchReply_cases (context : ℕ) (outcomes : Option (List EntryOutcome)) :
    MessageCase w p (.fetchReply context outcomes) (w.onFetchReply p c context outcomes) := by
  rw [onFetchReply]
  cases c.outbound.lookup context with
  | none => exact .kept _
  | some x =>
    obtain ⟨id, k⟩ := x
    dsimp only
    cases hf : w.fetches id with
    | none =>
      rw [show (w.setConn p _).fetches id = none from hf]
      exact .tuned hc (tuned_accounts c _ _) _
    | some f =>
      rw [show (w.setConn p _).fetches id = some f from hf]
      dsimp only
      cases f.chunks[k]? with
      | none => exact .broke hc (tuned_accounts c _ _)
      | some chunk =>
        cases outcomes with
        | none => exact .tuned hc (tuned_accounts c _ _) _
        | some outcomes =>
          dsimp only
          split
          · exact .tuned hc (tuned_accounts c _ _) _
          · cases c.session.onReply with
            | error v => exact .tuned hc (tuned_accounts c _ _) _
            | ok s =>
              dsimp only
              rw [setConn_setConn]
              refine .answer hc (tuned_accounts c _ _) hf ?_
              exact ⟨rfl, rfl⟩

theorem onFetch_cases (context : ℕ) (items : Option ℕ) :
    MessageCase w p (.fetch context items) (w.onFetch p c context items) := by
  rw [onFetch, Session.onRequest]
  dsimp only
  by_cases hversion : c.session.version = none
  · rw [if_pos hversion]
    dsimp only
    have hreceived : ({ w with nextRequest := w.nextRequest + 1 }.record
        (.received w.nextRequest c.link)).conns p = some c := hc
    rw [queueReply_eq hreceived]
    exact .refusedRequest _ hc
  rw [if_neg hversion]
  by_cases hquota : c.session.limits.inboundQuota ≤ c.session.inService
  · rw [if_pos hquota]
    exact .kept _
  rw [if_neg hquota]
  cases items with
  | some items => exact .served hc
  | none =>
    dsimp only
    rw [replied, if_neg (Nat.succ_ne_zero _)]
    dsimp only
    rw [queueReply_eq (conns_setConn_self ..), setConn_setConn]
    exact .refusedRequest _ hc

omit hc

/-- Every message has one of these effects. -/
theorem onMessage_cases (w : World) (p : PeerId) (m : Message) :
    MessageCase w p m (w.onMessage p m) := by
  cases hc : w.conns p with
  | none =>
    cases m with
    | unreadable request =>
      cases request with
      | true =>
        rw [onMessage, queueReply, hc]
        exact .kept _
      | false =>
        rw [onMessage]
        exact .kept _
    | hello body | helloReply wellFormed | error body | fetchReply context outcomes
    | fetch context items =>
      simp only [onMessage, hc]
      exact .kept _
  | some c =>
    cases m with
    | unreadable request =>
      cases request with
      | true =>
        rw [onMessage, queueReply_eq hc]
        exact .tuned hc (tuned_refusal c c.session) _
      | false =>
        rw [onMessage]
        exact .kept _
    | hello body =>
      simp only [onMessage, hc]
      exact onHello_cases hc body
    | helloReply wellFormed =>
      simp only [onMessage, hc]
      cases wellFormed with
      | false => exact .kept _
      | true =>
        rw [if_pos rfl]
        cases c.session.onHelloReply with
        | error v => exact .kept _
        | ok s => exact .tuned hc (tuned_accounts c _ _) _
    | error body =>
      simp only [onMessage, hc]
      exact onError_cases hc body
    | fetchReply context outcomes =>
      simp only [onMessage, hc]
      exact onFetchReply_cases hc context outcomes
    | fetch context items =>
      simp only [onMessage, hc]
      exact onFetch_cases hc context items

/-- A receive comes off the live link of a connection. -/
inductive RecvCase (w : World) (p : PeerId) : Option Message → World → Prop
  | failed {l : Live} (hl : w.upLink p = some l) :
      RecvCase w p none ((w.setSlab p l (l.slab.erase Work.recv)).fault p (some .protocol))
  | message {l : Live} {v : World} {m : Message} (reposted : Bool) (hl : w.upLink p = some l)
      (hv : v = w.setSlab p l (l.slab.erase Work.recv)) :
      RecvCase w p (some m) (((v.onMessage p m).1.repost p reposted).fault p (v.onMessage p m).2)

theorem onRecv_cases {m : Option Message} {reposted : Bool} (h : w.onRecv p m reposted = some w') :
    RecvCase w p m w' := by
  have hrecv : ∀ v, w.takeRecv p = some v →
      ∃ l, w.upLink p = some l ∧ v = w.setSlab p l (l.slab.erase Work.recv) := by
    intro v hv
    rw [takeRecv] at hv
    split at hv
    · rename_i l _ hl
      split_ifs at hv
      cases hv
      exact ⟨l, hl, rfl⟩
    · cases hv
  cases htake : w.takeRecv p with
  | none =>
    simp only [onRecv, htake] at h
    cases h
  | some v =>
    obtain ⟨l, hl, hv⟩ := hrecv v htake
    cases m with
    | none =>
      simp only [onRecv, htake] at h
      cases h
      subst hv
      exact .failed hl
    | some m =>
      simp only [onRecv, htake] at h
      cases h
      exact .message reposted hl hv

/-! ## Steps -/

/-- **A step**, by what happens, with what each part can do as above. -/
inductive StepCase (w : World) : Event → World → Prop
  | arrived {ev : TransportEvent} (incoming : List TransportEvent) (undecided : List LinkId) :
      StepCase w (.arrive ev) { w with incoming := incoming, undecided := undecided }
  | fetched {p : PeerId} {items : ℕ} {connect : Except String ℕ} {w' : World}
      (h : FetchCase w p items w') : StepCase w (.fetch p items connect) w'
  | pushed {p : PeerId} {items : ℕ} {connect : Except String ℕ} {w' : World}
      (h : PushCase w p items w') : StepCase w (.push p items connect) w'
  | disconnected {p : PeerId} {io : TearIo} : StepCase w (.disconnect p io) (w.disconnect p io)
  | shutDown {io : PeerId → TearIo} {results : ℕ → ReadResult} (hphase : w.phase = .resting)
      (hrunning : w.running) : StepCase w (.shutdown io results) (w.shutdown io results)
  | alreadyDown {io : PeerId → TearIo} {results : ℕ → ReadResult} :
      StepCase w (.shutdown io results) w
  | expired {id : ℕ} {why : String} {io : TearIo} (p : PeerId) :
      StepCase w (.deadline id why io) (w.teardownFor p (.deadline id why) io).1
  | polling (hrunning : w.running) : StepCase w .poll { w with phase := .polling }
  | broke {io : HandleIo} : StepCase w (.handle io) w.abort
  | handled {io : HandleIo} {t : Table} {out : List TableEvent}
      (incoming : List TransportEvent) (hphase : w.phase = .polling)
      (h : Handled w.table io t out) :
      StepCase w (.handle io) { w.withTable t with incoming := incoming, events := w.events ++ out }
  | polled (hphase : w.phase = .polling) : StepCase w .polled { w with phase := .pumping }
  | pump {io : PumpIo} {ev : TableEvent} {events : List TableEvent} (hphase : w.phase = .pumping)
      (hevents : w.events = ev :: events) :
      StepCase w (.pump io) ({ w with events := events }.onTableEvent io ev)
  | pumped (hphase : w.phase = .pumping) (hevents : w.events = []) :
      StepCase w .pumped { w with phase := .advancing }
  | sent {id : ℕ} {w' : World} (h : SendCase w id w') : StepCase w (.sendFetch id) w'
  | worked {e : Event} {w' : World} (h : WorkCase w w') : StepCase w e w'
  | completed {p : PeerId} {i : ℕ} {c : Completion} {w' : World} (h : CompletionCase w p w') :
      StepCase w (.completion p i c) w'
  | received {p : PeerId} {m : Option Message} {reposted : Bool} {w' : World}
      (h : RecvCase w p m w') : StepCase w (.recv p m reposted) w'
  | flush {p : PeerId} {n : ℕ} {ok : Bool} {w' : World} (hphase : w.phase = .advancing)
      (h : FlushCase w p w') : StepCase w (.flush p n ok) w'
  | skipped {io : TearIo} (faulted : List PeerId) : StepCase w (.tear io) { w with faulted := faulted }
  | torn {io : TearIo} (faulted : List PeerId) (p : PeerId) :
      StepCase w (.tear io) ({ w with faulted := faulted }.teardownFor p .lost io).1
  | tornIncompatible {io : TearIo} (incompatible : List (PeerId × String)) (p : PeerId)
      (why : String) : StepCase w (.tearIncompatible io)
        ({ w with incompatible := incompatible }.teardownFor p (.incompatible why) io).1
  | advanced (hphase : w.phase = .advancing) :
      StepCase w .advanced { w.finishDone with phase := .resting }

theorem arrive_cases {ev : TransportEvent} (h : w.arrive ev = some w') :
    StepCase w (.arrive ev) w' := by
  rw [arrive] at h
  split at h
  · cases h
    exact .arrived _ w.undecided
  · split_ifs at h
    cases h
    exact .arrived _ _

theorem step_cases {e : Event} (h : w.step e = some w') : StepCase w e w' := by
  rw [step] at h
  split_ifs at h with haborted
  cases hphase : w.phase with
  | resting =>
    rw [hphase] at h
    cases e with
    | arrive ev => exact arrive_cases h
    | fetch p items connect =>
      cases h
      exact .fetched (startFetch_cases w p items connect)
    | push p items connect =>
      cases h
      exact .pushed (startPush_cases w p items connect)
    | disconnect p io =>
      cases h
      exact .disconnected
    | shutdown io results =>
      rw [act] at h
      split_ifs at h with hrunning
      · cases h
        exact .shutDown hphase hrunning
      · cases h
        exact .alreadyDown
    | deadline id why io =>
      have h : w.expire id why io = some w' := h
      rw [expire] at h
      split at h
      · cases h
      split_ifs at h
      cases h
      exact .expired _
    | poll =>
      rw [act] at h
      split_ifs at h with hrunning
      cases h
      exact .polling hrunning
    | _ => cases h
  | polling =>
    rw [hphase] at h
    cases e with
    | arrive ev => exact arrive_cases h
    | handle io =>
      have h : w.handleNext io = some w' := h
      rw [handleNext] at h
      split at h
      · cases h
      rename_i ev incoming hincoming
      split at h <;> cases h <;> rename_i hhandle
      · exact .broke
      · exact .handled incoming hphase (handled_of_handle hhandle)
    | polled =>
      cases h
      exact .polled hphase
    | _ => cases h
  | pumping =>
    rw [hphase] at h
    cases e with
    | arrive ev => exact arrive_cases h
    | pump io =>
      have h : w.pumpNext io = some w' := h
      rw [pumpNext] at h
      split at h <;> cases h
      rename_i ev events hevents
      exact .pump hphase hevents
    | pumped =>
      rw [act] at h
      split_ifs at h with hevents
      cases h
      exact .pumped hphase hevents
    | _ => cases h
  | advancing =>
    rw [hphase] at h
    cases e with
    | arrive ev => exact arrive_cases h
    | sendFetch id => exact .sent (sendFetch_cases h)
    | readDone i result =>
      rw [act] at h
      split_ifs at h
      cases h
      exact .worked (onReadDone_cases w i result)
    | retry id n => exact .worked (retry_cases h)
    | resolve id r => exact .worked (resolve_cases h)
    | postReady id posted => exact .worked (postReady_cases h)
    | completion p i c => exact .completed (onCompletion_cases h)
    | recv p m reposted => exact .received (onRecv_cases h)
    | flush p n ok => exact .flush hphase (flushOutbox_cases h)
    | tear io =>
      have h : w.tearNext io = some w' := h
      rw [tearNext] at h
      split at h
      · cases h
      rename_i p faulted hfaulted
      split_ifs at h <;> cases h
      · exact .skipped faulted
      · exact .torn faulted p
    | tearIncompatible io =>
      have h : w.tearNextIncompatible io = some w' := h
      rw [tearNextIncompatible] at h
      split at h <;> cases h
      rename_i p why incompatible hlist
      exact .tornIncompatible incompatible p why
    | advanced =>
      rw [act] at h
      split_ifs at h
      cases h
      exact .advanced hphase
    | _ => cases h

end World

end Certus.TransferEndpoint.Actor
