import Certus.TransferEndpoint.Steps

/-! # The turns of the endpoint thread

The thread polls the transport, acts on the reports of the table, advances, and rests. Reports are
there only between the first two: each is acted on before anything is sent.

* **`InTurn`**, **`InTurn.step`** — no report waits while the thread advances or rests, and an endpoint
  that is shut down rests. -/

namespace Certus.TransferEndpoint.Actor.World

open Table

/-- The thread is where it was, with the same reports to act on. -/
structure SameTurn (w w' : World) : Prop where
  phase : w'.phase = w.phase
  events : w'.events = w.events
  running : w'.running = w.running

open SameTurn

/-- Two steps, one after the other. -/
theorem SameTurn.trans {w w' w'' : World} (h : SameTurn w w') (h' : SameTurn w' w'') :
    SameTurn w w'' :=
  ⟨h'.phase.trans h.phase, h'.events.trans h.events, h'.running.trans h.running⟩

/-- What touches no more than the pushes, the connections and the log leaves the thread where it
was. -/
theorem sameTurn_of_besides {w w' : World} (h : w'.besides = w.besides) : SameTurn w w' :=
  ⟨of_besides World.phase (fun _ => rfl) h, of_besides World.events (fun _ => rfl) h,
    of_besides World.running (fun _ => rfl) h⟩

variable (w : World)

/-- Finished pushes are reported. -/
theorem sameTurn_finishDone : SameTurn w w.finishDone :=
  sameTurn_of_besides (besides_finishDone w)

variable (p : PeerId)

/-- Every push to the peer fails. -/
theorem sameTurn_failPushes : SameTurn w (w.failPushes p) :=
  sameTurn_of_besides (besides_failPushes w p)

/-- Every push and every fetch to the peer fails. -/
theorem sameTurn_fail (cause : Cause) : SameTurn w ((w.failPushes p).failFetches p cause) :=
  failFetches_rule (P := SameTurn w) (fun _ _ _ h _ _ => h.trans ⟨rfl, rfl, rfl⟩)
    (sameTurn_failPushes w p)

/-- The links of the peer go out of service. -/
theorem sameTurn_quenched (io : TearIo) : SameTurn w (w.quenched p io) := by
  obtain ⟨conns, pushes, aborted, h⟩ := quenched_eq w p io
  rw [h]
  exact ⟨rfl, rfl, rfl⟩

/-- **A teardown**, whether it succeeds or not. -/
theorem sameTurn_teardownFor (cause : Cause) (io : TearIo) :
    SameTurn w (w.teardownFor p cause io).1 := by
  have hcase := teardownFor_cases w p cause io
  generalize (w.teardownFor p cause io).1 = v, (w.teardownFor p cause io).2 = ok at hcase ⊢
  cases hcase with
  | down => exact ⟨rfl, rfl, rfl⟩
  | stopped => exact sameTurn_quenched w p io
  | @done t htorn =>
    have hquenched := sameTurn_quenched w p io
    have hcleared : SameTurn w (w.cleared p io t) :=
      ⟨hquenched.phase, hquenched.events, hquenched.running⟩
    exact hcleared.trans (sameTurn_fail _ p cause)

/-- The caller disconnects the peer. -/
theorem sameTurn_disconnect (io : TearIo) : SameTurn w (w.disconnect p io) := by
  have h := sameTurn_teardownFor w p .lost io
  rw [disconnect]
  split_ifs
  · exact { h with }
  · exact h

/-- A read of the block tier comes back. -/
theorem sameTurn_onReadDone (i : ℕ) (r : ReadResult) : SameTurn w (w.onReadDone i r) := by
  have hcase := onReadDone_cases w i r
  generalize w.onReadDone i r = w' at hcase ⊢
  cases hcase <;> exact ⟨rfl, rfl, rfl⟩

/-- The reads under way come back. -/
theorem sameTurn_collectReads (results : ℕ → ReadResult) (n : ℕ) (w : World) :
    SameTurn w (collectReads results n w) := by
  induction n generalizing w with
  | zero => exact ⟨rfl, rfl, rfl⟩
  | succ n ih => exact (sameTurn_onReadDone w 0 (results n)).trans (ih _)

/-- A loop of such steps. -/
theorem sameTurn_foldl {α : Type} {f : World → α → World} (hf : ∀ w a, SameTurn w (f w a))
    (as : List α) (w : World) : SameTurn w (as.foldl f w) := by
  induction as generalizing w with
  | nil => exact ⟨rfl, rfl, rfl⟩
  | cons a as ih => exact (hf w a).trans (ih _)

/-- A shutdown changes no more of this than whether the endpoint runs. -/
theorem turn_shutdown (io : PeerId → TearIo) (results : ℕ → ReadResult) :
    (w.shutdown io results).phase = w.phase ∧ (w.shutdown io results).events = w.events := by
  have htear : SameTurn w (w.tearDownAll io) :=
    sameTurn_foldl (fun w p => sameTurn_teardownFor w p .lost (io p)) _ w
  rw [shutdown]
  generalize w.tearDownAll io = v at htear ⊢
  have hreads := (sameTurn_collectReads results v.reads.length v).trans (sameTurn_finishDone _)
  generalize (collectReads results v.reads.length v).finishDone = u at hreads ⊢
  have hend : SameTurn u u.failStranded := sameTurn_foldl (fun w p => sameTurn_fail w p _) _ u
  have hall := htear.trans (hreads.trans hend)
  exact ⟨hall.phase, hall.events⟩

/-- An answered chunk is stored, and its fetch may be complete. -/
theorem sameTurn_putFetch (id : ℕ) (f : Fetch) : SameTurn w (w.putFetch id f) := by
  rw [putFetch, completeFetch]
  cases f.refused with
  | some why | none => split_ifs <;> exact ⟨rfl, rfl, rfl⟩

/-- The peer is marked for a teardown. -/
theorem sameTurn_fault (f : Option Fault) : SameTurn w (w.fault p f) := by
  rcases f with _ | _ | _ <;> exact ⟨rfl, rfl, rfl⟩

/-- **A message.** It is answered later, in the flush. -/
theorem sameTurn_onMessage (m : Message) : SameTurn w (w.onMessage p m).1 := by
  have hcase := onMessage_cases w p m
  generalize w.onMessage p m = r at hcase ⊢
  cases hcase with
  | kept | tuned | broke | refusedRequest => exact ⟨rfl, rfl, rfl⟩
  | refusal | answer =>
    refine trans ?_ (sameTurn_putFetch _ _ _)
    exact ⟨rfl, rfl, rfl⟩
  | served =>
    refine trans ?_ (sameTurn_finishDone _)
    exact ⟨rfl, rfl, rfl⟩

/-- A receive is posted again. -/
theorem sameTurn_repost (ok : Bool) : SameTurn w (w.repost p ok) := by
  rw [repost]
  cases w.upLink p with
  | none => exact ⟨rfl, rfl, rfl⟩
  | some l => cases ok <;> exact ⟨rfl, rfl, rfl⟩

/-- A write of a push is over. -/
theorem sameTurn_settle (work : Work) (ok : Bool) : SameTurn w (w.settle work ok) := by
  obtain ⟨pushes, aborted, h⟩ := settle_eq w work ok
  rw [h]
  exact ⟨rfl, rfl, rfl⟩

/-- Queued messages are posted. -/
theorem sameTurn_flushed (c : Conn) (l : Live) (n : ℕ) : SameTurn w (w.flushed p c l n) := by
  rw [flushed]
  have hend := sameTurn_foldl (f := record) (fun _ _ => ⟨rfl, rfl, rfl⟩)
  refine trans ?_ (hend _ _)
  exact ⟨rfl, rfl, rfl⟩

/-- Reports wait only while the transport is polled and the reports are acted on, and none of this
goes on after a shutdown. -/
structure InTurn (w : World) : Prop where
  idle : w.phase = .resting ∨ w.phase = .advancing → w.events = []
  awake : w.phase ≠ .resting → w.running = true

/-- What leaves the thread where it was keeps its turns. -/
theorem InTurn.sameTurn {w w' : World} (h : InTurn w) (hsame : SameTurn w w') : InTurn w' where
  idle hphase := by
    rw [hsame.phase] at hphase
    rw [hsame.events]
    exact h.idle hphase
  awake hphase := by
    rw [hsame.phase] at hphase
    rw [hsame.running]
    exact h.awake hphase

/-- **A report** is acted on; the ones that wait are untouched. -/
theorem sameTurn_onTableEvent (io : PumpIo) (ev : TableEvent) :
    SameTurn w (w.onTableEvent io ev) := by
  cases ev with
  | down p => exact sameTurn_teardownFor w p .lost io.tear
  | failed p reason => exact sameTurn_fail w p _
  | refusedInbound who reason | lostTieBreak p => exact ⟨rfl, rfl, rfl⟩
  | up p =>
    have hbring : SameTurn w (w.bringUp p io.posted).1 := by
      rw [bringUp]
      cases w.upLink p with
      | none => exact ⟨rfl, rfl, rfl⟩
      | some l => cases io.posted <;> exact ⟨rfl, rfl, rfl⟩
    rw [onTableEvent]
    split_ifs
    · exact hbring
    · exact hbring.trans (sameTurn_teardownFor _ p .lost io.tear)

/-- **A step** keeps the turns: reports come in a poll and are gone before the thread advances. -/
theorem InTurn.step {w w' : World} {e : Event} (h : InTurn w) (hstep : w.step e = some w') :
    InTurn w' := by
  have hcase := step_cases hstep
  cases hcase with
  | arrived | broke | skipped => exact { h with }
  | fetched hfetch =>
    refine h.sameTurn ?_
    cases hfetch <;> exact ⟨rfl, rfl, rfl⟩
  | pushed hpush =>
    refine h.sameTurn ?_
    cases hpush with
    | down | started => exact ⟨rfl, rfl, rfl⟩
    | refused =>
      refine trans ?_ (sameTurn_failPushes _ _)
      exact ⟨rfl, rfl, rfl⟩
  | disconnected => exact h.sameTurn (sameTurn_disconnect w _ _)
  | @shutDown io results hphase hrunning =>
    obtain ⟨hsame, hevents⟩ := turn_shutdown w io results
    exact ⟨fun _ => hevents.trans (h.idle (.inl hphase)),
      fun hbad => absurd (hsame.trans hphase) hbad⟩
  | alreadyDown => exact h
  | expired => exact h.sameTurn (sameTurn_teardownFor w _ _ _)
  | polling hrunning =>
    exact ⟨fun hbad => (by rcases hbad with hbad | hbad <;> cases hbad), fun _ => hrunning⟩
  | handled _ hphase =>
    refine ⟨fun hbad => ?_, h.awake⟩
    have hbad : w.phase = .resting ∨ w.phase = .advancing := hbad
    simp [hphase] at hbad
  | polled hphase =>
    refine ⟨fun hbad => ?_, fun _ => h.awake (by simp [hphase])⟩
    rcases hbad with hbad | hbad <;> cases hbad
  | @pump io ev events hphase hevents =>
    have hsame := sameTurn_onTableEvent { w with events := events } io ev
    have hpumping := hsame.phase.trans hphase
    exact ⟨fun hbad => absurd hbad (by simp [hpumping]),
      fun _ => hsame.running.trans (h.awake (by simp [hphase]))⟩
  | pumped hphase hevents => exact ⟨fun _ => hevents, fun _ => h.awake (by simp [hphase])⟩
  | sent hsend =>
    refine h.sameTurn ?_
    cases hsend with
    | empty =>
      rw [completeFetch]
      split
      · exact ⟨rfl, rfl, rfl⟩
      · split_ifs <;> exact ⟨rfl, rfl, rfl⟩
    | waits | sent => exact ⟨rfl, rfl, rfl⟩
  | worked hwork =>
    refine h.sameTurn ?_
    cases hwork <;> exact ⟨rfl, rfl, rfl⟩
  | completed hcompletion =>
    refine h.sameTurn ?_
    cases hcompletion with
    | write ok f hl hslab =>
      refine trans ?_ ((sameTurn_settle _ _ _).trans (sameTurn_fault _ _ _))
      exact ⟨rfl, rfl, rfl⟩
    | send => exact ⟨rfl, rfl, rfl⟩
  | received hrecv =>
    refine h.sameTurn ?_
    cases hrecv with
    | failed =>
      refine trans ?_ (sameTurn_fault _ _ _)
      exact ⟨rfl, rfl, rfl⟩
    | message reposted hl hv =>
      refine trans ?_ ((sameTurn_onMessage _ _ _).trans
        ((sameTurn_repost _ _ _).trans (sameTurn_fault _ _ _)))
      rw [hv]
      exact ⟨rfl, rfl, rfl⟩
  | flush hphase hflush =>
    refine h.sameTurn ?_
    cases hflush with
    | stuck => exact sameTurn_fault _ _ _
    | posted => exact (sameTurn_flushed _ _ _ _ _).trans (sameTurn_fault _ _ _)
  | torn | tornIncompatible =>
    refine h.sameTurn (trans ?_ (sameTurn_teardownFor _ _ _ _))
    exact ⟨rfl, rfl, rfl⟩
  | advanced hphase =>
    have hsame := sameTurn_finishDone w
    exact ⟨fun _ => hsame.events.trans (h.idle (.inr hphase)), fun hbad => absurd rfl hbad⟩

/-- The thread starts at rest. -/
theorem InTurn.start (localPeer : PeerId) (limits : Limits) : InTurn (start localPeer limits) :=
  ⟨fun _ => rfl, fun h => absurd rfl h⟩

/-! ## Parts of runs -/

/-- A teardown in which the transport does what it is asked. -/
def smoothTear : TearIo := ⟨.done, fun _ => some 100, fun _ => true⟩

/-- A link comes up and the two ends exchange their hellos. -/
def greet : List Event :=
  [.polled, .pump ⟨smoothTear, none⟩, .pumped, .flush p 1 true,
    .recv p (some (.hello (some ⟨340, 4, 1, 1⟩))) true, .recv p (some (.helloReply true)) true]

/-- Our attempt on a link to the peer is established. -/
def establish (link : LinkId) : List Event :=
  [.arrive (.established link (some p)), .poll, .handle ⟨none, .done⟩] ++ greet p

end Certus.TransferEndpoint.Actor.World
