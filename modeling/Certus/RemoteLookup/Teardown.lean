import Mathlib.Data.List.Dedup
import Certus.RemoteLookup.PublishedSlots

/-! # Teardown before reclaim

A landing slot that was advertised to a peer may be written to until the peer has reported on it or
its connection has been severed.

* **`reclaimed_after_teardown`** — along every run of answering events, teardown comes first. -/

namespace Certus.RemoteLookup

open List World Alike

/-- The peer has reported on the slot, or a `Disconnect` for it was sent and then acknowledged. -/
def AnsweredSince (n : ℕ) (peer : PeerId) (since : List Act) : Prop :=
  .reported n peer ∈ since ∨ ∃ i, [.acked peer (some i), .disconnect peer i].Sublist since

/-- Whoever was asked to fill the slot has answered since. -/
def Answered (n : ℕ) (past : List Act) : Prop :=
  ∀ since earlier o key peer, past = since ++ .advertised n o key peer :: earlier →
    AnsweredSince n peer since

/-- A slot is freed only after the peers it was advertised to have answered, and advertised to a peer
only after all others have. -/
def TeardownFirst (past : List Act) : Act → Prop
  | .freed n => Answered n past
  | .advertised n _ _ peer => ∀ since earlier o key other,
      past = since ++ .advertised n o key other :: earlier → other ≠ peer →
        AnsweredSince n other since
  | _ => True

variable {n : ℕ} {peer : PeerId} {past : List Act}

theorem AnsweredSince.append {since : List Act} (h : AnsweredSince n peer since)
    (later : List Act) : AnsweredSince n peer (later ++ since) :=
  h.imp (mem_append_right _) fun ⟨i, hi⟩ =>
    ⟨i, hi.trans (sublist_append_right later since)⟩

/-- An answer stays one, until the slot is advertised anew. -/
theorem Answered.append {past later : List Act} (h : Answered n past)
    (hlater : ∀ o key peer, .advertised n o key peer ∉ later) : Answered n (later ++ past) := by
  intro since earlier o key peer heq
  obtain ⟨since', rfl, hpast⟩ := split_later later heq (hlater o key peer)
  exact (h since' earlier o key peer hpast).append later

theorem Answered.cons {act : Act} (h : Answered n past)
    (hact : ∀ o key peer, act ≠ .advertised n o key peer) : Answered n (act :: past) := by
  have happend : Answered n ([act] ++ past) := h.append fun o key peer hmem =>
    hact o key peer (mem_singleton.mp hmem).symm
  exact happend

theorem answered_of_reported {from_ : PeerId}
    (h : ∀ {o key peer}, .advertised n o key peer ∈ past → peer = from_) :
    Answered n (.reported n from_ :: past) := by
  intro since earlier o key peer heq
  obtain ⟨since', rfl, hpast⟩ := split_later [Act.reported n from_] heq (by simp)
  obtain rfl : peer = from_ := h (hpast ▸ mem_append_right _ (mem_cons_self ..))
  exact .inl (mem_cons_self ..)

theorem answered_of_acked {n i : ℕ} {past acks : List Act}
    (hacks : ∀ act ∈ acks, ∃ p i, act = .acked p i) (hack : .acked peer (some i) ∈ acks)
    (h : ∀ {o key p}, .advertised n o key p ∈ past → p = peer) :
    Answered n (acks ++ .disconnect peer i :: past) := by
  intro since earlier o key p heq
  have hnot : .advertised n o key p ∉ acks ++ [.disconnect peer i] := by
    rw [mem_append, mem_singleton]
    rintro (hmem | hmem)
    · obtain ⟨p', i', hact⟩ := hacks _ hmem
      cases hact
    · cases hmem
  have heq' : (acks ++ [.disconnect peer i]) ++ past = since ++ .advertised n o key p :: earlier := by
    rw [← heq, append_assoc]
    rfl
  obtain ⟨since', rfl, hpast⟩ := split_later _ heq' hnot
  obtain rfl : p = peer := h (hpast ▸ mem_append_right _ (mem_cons_self ..))
  have hsublist : [.acked p (some i), .disconnect p i].Sublist (acks ++ [.disconnect p i]) :=
    List.Sublist.append (singleton_sublist.mpr hack) (List.Sublist.refl [Act.disconnect p i])
  exact .inr ⟨i, hsublist.trans (sublist_append_left _ _)⟩

namespace World

variable {env : Env} {w w' : World} {o o' : OpId} {key key' : CacheKey} {s : KeyState}

/-! ## What events are to do -/

/-- A status entry that finds a slot is about that slot and comes from its peer. -/
def OfSlot (w : World) (from_ : PeerId) (o : OpId) (e : StatusEntry) : Prop :=
  ∀ slot ∈ w.slotOf o e.1, e.2.2 = some slot.serial ∧ slot.peer = from_

/-- A late status entry that finds an orphaned slot of its sender is about that slot. -/
def OfOrphan (w : World) (from_ : PeerId) (_ : OpId) (e : StatusEntry) : Prop :=
  ∀ orphan ∈ w.orphans.get? e.1, orphan.peer = from_ → e.2.2 = some orphan.serial

/-- The acknowledgement of the `Disconnect` just sent comes while the actor waits. -/
def Acknowledged (env : Env) (peer : PeerId) : Prop :=
  .disconnectAck peer true ∈ awaited peer (env.polls peer)

instance (w : World) (from_ : PeerId) (o : OpId) (e : StatusEntry) :
    Decidable (w.OfSlot from_ o e) := by
  unfold OfSlot
  infer_instance

instance (w : World) (from_ : PeerId) (o : OpId) (e : StatusEntry) :
    Decidable (w.OfOrphan from_ o e) := by
  unfold OfOrphan
  infer_instance

instance (env : Env) (peer : PeerId) : Decidable (Acknowledged env peer) := by
  unfold Acknowledged
  infer_instance

/-- Statuses hit the slots they are about, and teardowns are acknowledged in time. -/
def Answering (w : World) : Event × Env → Prop
  | (.rdmaStatus from_ o entries, env) =>
    StatusMeets env OfSlot OfOrphan from_ o { w with calls := 0 } entries
  | (.exit peer, env) =>
    w.exposedInOps peer ≠ [] ∨ w.exposedOrphans peer ≠ [] → Acknowledged env peer
  | (.tickOrphans, env) =>
    ∀ orphan ∈ w.orphans.values, orphan.deadline ≤ env.now 0 → Acknowledged env orphan.peer
  | _ => True

instance (w : World) (e : Event × Env) : Decidable (w.Answering e) := by
  obtain ⟨e, env⟩ := e
  cases e <;> dsimp only [Answering] <;> infer_instance

/-! ## The invariant -/

/-- **The invariant**, with the books. -/
structure Orderly (w : World) : Prop where
  books : w.Books
  order : Throughout TeardownFirst w.log

variable {n : ℕ} {from_ peer : PeerId} {orphans : List (CacheKey × ℕ)}

theorem Books.advertisedTo {peer peer' : PeerId} (h : w.Books)
    (hres : .reserved n o key peer ∈ w.log) (hadv : .advertised n o' key' peer' ∈ w.log) :
    peer' = peer :=
  (h.unique hres (h.advertised hadv)).2.2

namespace Orderly

variable (h : w.Orderly)
include h

theorem alike (halike : Alike w w') (hlog : w'.log = w.log) : w'.Orderly :=
  ⟨h.books.alike halike, hlog ▸ h.order⟩

omit h in
theorem quiet (hquiet : Quiet w w') (h : w.Orderly) : w'.Orderly :=
  h.alike (of_quiet hquiet) hquiet.log

theorem record {act : Act} (hbooked : act.booked = false)
    (hact : TeardownFirst w.log act) : (w.record act).Orderly :=
  ⟨h.books.alike (Alike.record hbooked), hact, h.order⟩

theorem setState : (w.setState o key s).Orderly := by
  refine ⟨h.books.alike Alike.setState, ?_⟩
  rw [log_setState]
  split_ifs
  · exact ⟨trivial, h.order⟩
  · exact h.order

variable {slot : LandingSlot}

theorem advertise (hslot : w.slotOf o key = some slot) :
    (w.record (.advertised slot.serial o key slot.peer)).Orderly := by
  refine ⟨h.books.advertise hslot, fun since earlier o' key' other heq hne => ?_, h.order⟩
  have hadv : .advertised slot.serial o' key' other ∈ w.log :=
    heq ▸ mem_append_right _ (mem_cons_self ..)
  exact absurd (h.books.advertisedTo (h.books.slots hslot).1 hadv) hne

theorem reserve (hsize : w.sizeOf o key = some slot.len)
    (hserial : slot.serial = w.serial) : (w.reserve o key slot).Orderly := by
  have hslot : (w.withSlot o key slot).Orderly := by
    refine ⟨h.books.withSlot hsize hserial, ?_⟩
    rw [withSlot_rest.2.2.2]
    exact ⟨trivial, h.order⟩
  exact hslot.setState

theorem dropSlot {n : ℕ} (hn : Answered n w.log) : ((w.dropSlot o key).free n).Orderly := by
  refine ⟨h.books.dropSlot.alike (Alike.record rfl), ?_⟩
  show Throughout TeardownFirst (_ :: (w.dropSlot o key).log)
  rw [dropSlot_rest.log]
  exact ⟨hn, h.order⟩

theorem answer {results : BatchResult} : (w.answer o results).Orderly := by
  refine ⟨h.books.alike Alike.answer, ?_⟩
  unfold World.answer
  split
  · exact ⟨trivial, h.order⟩
  · exact h.order

end Orderly

/-! ### The end of an operation -/

theorem orderly_ends (o : OpId) :
    Ends Orderly (fun op w => BooksEnding o op w ∧ Throughout TeardownFirst w.log) o where
  drop hop h := ⟨(books_ends o).drop hop h.books, h.order⟩
  release hinf hserving h := ⟨(books_ends o).release hinf hserving h.1, h.2⟩
  reset hstate h :=
    ⟨(books_ends o).reset hstate h.1, (Orderly.setState ⟨h.1.books, h.2⟩).order⟩
  without h := ⟨(books_ends o).without h.1, h.2⟩
  next h := ⟨(books_ends o).next h.1, h.2⟩
  orphan hget hstate h := ⟨(books_ends o).orphan hget hstate h.1, h.2⟩
  answer h := Orderly.answer ⟨h.1.books, h.2⟩

theorem closed_orderly : Closed Orderly where
  quiet hquiet h := h.quiet hquiet
  follow {w o key inf} _ _ _ h := by
    have hfollower : (w.withFollower o key inf).Orderly := h.alike Alike.inFlight rfl
    exact hfollower.setState
  reserve hsize _ hserial _ _ h := (h.reserve hsize hserial).alike Alike.serve rfl
  advertise hslot h := h.advertise hslot
  finalize h := (orderly_ends _).finalize h

/-! ### Statuses -/

/-- While a report on the slot of an operation is being worked on. -/
structure Answers (o : OpId) (key : CacheKey) (slot : LandingSlot) (w : World) : Prop where
  orderly : w.Orderly
  holds : w.slotOf o key = some slot
  answered : Answered slot.serial w.log

theorem Answers.observe {slot : LandingSlot} (h : Answers o key slot w) :
    Answers o key slot (w.observe key') := by
  unfold World.observe
  split
  · exact ⟨h.orderly.record rfl trivial, h.holds, h.answered.cons (by simp)⟩
  · exact h

theorem answers_publishes (env : Env) {slot : LandingSlot} :
    Publishes env Orderly (Answers o key slot) o key slot where
  meanwhile h := ⟨h.orderly.alike Alike.meanwhile rfl, h.holds, h.answered⟩
  observe h := h.observe
  publish {w map} hcreate h := by
    have hmap : Answers o key slot { w with map } :=
      ⟨h.orderly.alike Alike.map rfl, h.holds, h.answered⟩
    have hseen : Answers o key slot (({ w with map } : World).observe key) := hmap.observe
    have hpub : ((({ w with map } : World).observe key).record
        (.published slot.serial o key)).Orderly :=
      ⟨hseen.orderly.books.publish hseen.holds, trivial, hseen.orderly.order⟩
    have hreleased := hpub.alike (@Alike.releaseWrite env _ key) rfl
    have hscheduled := @Orderly.record _ hreleased (.scheduled key slot.len) rfl trivial
    exact hscheduled.setState
  accept _ h := h.observe.orderly.setState
  reject h := (h.orderly.dropSlot h.answered).setState
  refuse h := h.orderly.setState

theorem orderly_retries : Retries Orderly Orderly o key where
  quiet hquiet h := h.quiet hquiet
  done h := h
  reserve {w slot} hsize hserial _ h := by
    refine (h.reserve hsize hserial).advertise ?_
    rw [reserve_eq, slotOf_setState, slotOf_withSlot (live_of_sizeOf hsize), if_pos ⟨rfl, rfl⟩]

theorem Orderly.reportOn {about : Option ℕ} (h : w.Orderly) : (w.reportOn from_ about).Orderly := by
  cases about with
  | none => exact h
  | some n => exact h.record rfl trivial

theorem Orderly.answered (h : w.Orderly) (hres : .reserved n o key from_ ∈ w.log) :
    Answered n (w.reportOn from_ (some n)).log :=
  answered_of_reported fun hadv => h.books.advertisedTo hres hadv

theorem Orderly.statusEntry {e : StatusEntry} (h : w.Orderly) (hof : w.OfSlot from_ o e) :
    (w.statusEntry env from_ o e).1.Orderly := by
  obtain ⟨key, code, about⟩ := e
  have hrep : (w.reportOn from_ about).Orderly := h.reportOn
  have hslots : (w.reportOn from_ about).slotOf o key = w.slotOf o key := by cases about <;> rfl
  cases hslot : w.slotOf o key with
  | none =>
    -- nothing is held, so nothing is freed
    rw [hslot] at hslots
    refine (statusEntry_rule orderly_retries ?_ ?_).1
    · unfold publishSuccess
      rw [hslots]
      exact hrep
    · refine Orderly.quiet (Quiet.updOp (fun _ => rfl) (fun _ => rfl) fun _ => rfl) ?_
      unfold reclaim
      rw [hslots]
      exact hrep.setState
  | some slot =>
    obtain ⟨rfl, rfl⟩ := hof slot hslot
    have hanswers : Answers o key slot (w.reportOn slot.peer (some slot.serial)) :=
      ⟨hrep, hslots.trans hslot, h.answered (h.books.slots hslot).1⟩
    refine (statusEntry_rule orderly_retries
      ((answers_publishes env).publishSuccess hanswers.holds hanswers) ?_).1
    refine Orderly.quiet (Quiet.updOp (fun _ => rfl) (fun _ => rfl) fun _ => rfl) ?_
    unfold reclaim
    rw [hanswers.holds]
    exact (answers_publishes env).reject hanswers

theorem orderly_statuses (env : Env) : Statuses env Orderly OfSlot OfOrphan fun _ _ => True where
  entry hof h := ⟨h.statusEntry hof, fun _ _ => trivial⟩
  keep _ _ _ := trivial
  settle {w outcome} h _ :=
    settle_keeps h (fun _ _ => h.alike Alike.inFlight rfl) fun _ _ _ _ _ hv => hv.setState
  told _ _ _ := trivial
  late {w from_ o e} hof h := by
    obtain ⟨key, code, about⟩ := e
    have hrep : (w.reportOn from_ about).Orderly := h.reportOn
    unfold lateEntry
    dsimp only
    split
    next orphan hget =>
      split_ifs with hpeer
      · have hget' : w.orphans.get? key = some orphan := by cases about <;> exact hget
        obtain rfl : about = some orphan.serial := hof orphan hget' hpeer
        obtain ⟨o', hres, -⟩ := h.books.orphans hget'
        rw [hpeer] at hres
        exact ⟨hrep.books.eraseOrphan.alike (Alike.record rfl), h.answered hres, hrep.order⟩
      · exact hrep
    · exact hrep

/-! ### Departures and time -/

section

variable (h : w.Orderly)
include h

/-- After an acknowledged teardown the peer has answered for all its slots. -/
theorem Orderly.teardownPeer : (w.teardownPeer env peer).Orderly := by
  refine ⟨h.books.alike Alike.teardownPeer, ?_⟩
  rw [teardownPeer_eq]
  refine Throughout.append ⟨trivial, h.order⟩ fun act hact past => ?_
  obtain ⟨p, i, rfl⟩ := acked_of_mem_acksOf (mem_reverse.mp hact)
  trivial

theorem Orderly.answered_teardown (hack : Acknowledged env peer)
    (hres : .reserved n o key peer ∈ w.log) : Answered n (w.teardownPeer env peer).log := by
  rw [teardownPeer_eq]
  refine answered_of_acked (fun act hact => acked_of_mem_acksOf (mem_reverse.mp hact)) ?_
    fun hadv => h.books.advertisedTo hres hadv
  exact mem_reverse.mpr (mem_filterMap.mpr ⟨_, hack, rfl⟩)

theorem Orderly.releaseOrphans (hanswered : ∀ x ∈ orphans, Answered x.2 w.log) :
    (orphans.foldl releaseOrphan w).Orderly := by
  refine (foldl_keeps (P := fun v : World => v.Orderly ∧ ∀ x ∈ orphans, Answered x.2 v.log)
    ⟨h, hanswered⟩ fun v x hx hv => ?_).1
  exact ⟨⟨hv.1.books.releaseOrphan, hv.2 x hx, hv.1.order⟩,
    fun y hy => (hv.2 y hy).cons (by simp)⟩

theorem Orderly.releaseAll {exposed : List (OpId × CacheKey × ℕ)}
    (hexposed : ∀ x ∈ exposed, Answered x.2.2 w.log)
    (horphans : ∀ x ∈ orphans, Answered x.2 w.log) :
    (orphans.foldl releaseOrphan (exposed.foldl releaseExposed w)).Orderly := by
  have hlog : ∀ (v : World) x, (v.releaseExposed x).log = .freed x.2.2 :: v.log := fun v x => by
    show _ :: (v.dropSlot x.1 x.2.1).log = _
    rw [dropSlot_rest.log]
  have hkeep : ∀ {n : ℕ} {v : World} {x : OpId × CacheKey × ℕ}, Answered n v.log →
      Answered n (v.releaseExposed x).log := fun hn => by
    rw [hlog]
    exact hn.cons (by simp)
  have hall : (exposed.foldl releaseExposed w).Orderly ∧
      (∀ x ∈ exposed, Answered x.2.2 (exposed.foldl releaseExposed w).log) ∧
        ∀ x ∈ orphans, Answered x.2 (exposed.foldl releaseExposed w).log :=
    foldl_keeps (P := fun v : World => v.Orderly ∧ (∀ x ∈ exposed, Answered x.2.2 v.log) ∧
      ∀ x ∈ orphans, Answered x.2 v.log) ⟨h, hexposed, horphans⟩ fun v x hx hv =>
        ⟨hv.1.dropSlot (hv.2.1 x hx), fun y hy => hkeep (hv.2.1 y hy),
          fun y hy => hkeep (hv.2.2 y hy)⟩
  exact hall.1.releaseOrphans hall.2.2

theorem Orderly.forsake {x : OpId × CacheKey × ℕ} : (w.forsake x).Orderly := by
  have hset : (w.setState x.1 x.2.1 .unsatisfied).Orderly := h.setState
  unfold World.forsake
  dsimp only
  split
  · split_ifs
    · exact foldl_keeps (hset.alike Alike.inFlight rfl) fun _ _ _ hv => hv.setState
    · exact hset
  · exact hset

theorem Orderly.onExit
    (hack : w.exposedInOps peer ≠ [] ∨ w.exposedOrphans peer ≠ [] → Acknowledged env peer) :
    (w.onExit env peer).Orderly := by
  have hquiet : Quiet w { w with ops := w.ops.map fun op : Operation => op.dropReply peer } :=
    Quiet.dropReplies peer
  unfold World.onExit
  dsimp only
  generalize ({ w with ops := w.ops.map fun op : Operation => op.dropReply peer } : World) = v
    at hquiet ⊢
  have hv : v.Orderly := h.quiet hquiet
  have hexposed : v.exposedInOps peer ≠ [] → w.exposedInOps peer ≠ [] := fun hne hnil => by
    obtain ⟨x, hx⟩ := exists_mem_of_ne_nil _ hne
    obtain ⟨slot, hslot, hrest⟩ := mem_exposedInOps.mp hx
    have hx' : x ∈ w.exposedInOps peer :=
      mem_exposedInOps.mpr ⟨slot, hquiet.slotOf.symm.trans hslot, hrest⟩
    rw [hnil] at hx'
    cases hx'
  have horphans : v.exposedOrphans peer = w.exposedOrphans peer := by
    unfold exposedOrphans
    rw [hquiet.orphans]
  have hforsaken : ((v.exposedInOps peer).foldl World.forsake v).Orderly :=
    foldl_keeps hv fun _ _ _ hu => hu.forsake
  have halike : Alike v ((v.exposedInOps peer).foldl World.forsake v) :=
    foldl_keeps (P := Alike v) (Alike.of_eq rfl rfl rfl rfl) fun _ _ _ hu => hu.trans Alike.forsake
  refine closed_orderly.checkAllCompletions ?_
  split_ifs with hempty
  · exact hforsaken
  · have hacked : Acknowledged env peer := by
      refine hack ?_
      by_contra hnone
      rw [not_or, not_not, not_not] at hnone
      refine hempty ?_
      rw [Bool.and_eq_true, List.isEmpty_iff, List.isEmpty_iff, horphans]
      exact ⟨by_contra fun hne => hexposed hne hnone.1, hnone.2⟩
    refine hforsaken.teardownPeer.releaseAll (fun x hx => ?_) fun x hx => ?_
    · obtain ⟨slot, hslot, rfl, hserial⟩ := mem_exposedInOps.mp hx
      rw [← hserial]
      exact hforsaken.answered_teardown hacked ((halike.log _ rfl).mpr (hv.books.slots hslot).1)
    · obtain ⟨orphan, hget, rfl, hserial⟩ := mem_exposedOrphans.mp hx
      obtain ⟨o, hres, -⟩ := hv.books.orphans hget
      rw [← hserial]
      exact hforsaken.answered_teardown hacked ((halike.log _ rfl).mpr hres)

theorem Orderly.tickOrphans (hack : ∀ orphan ∈ w.orphans.values, orphan.deadline ≤ env.now w.calls →
      Acknowledged env orphan.peer) : (w.tickOrphans env).Orderly := by
  refine foldl_keeps (h.quiet (Quiet.next w)) fun v peer hpeer hv => ?_
  have hacked : Acknowledged env peer := by
    rw [mem_dedup, mem_map] at hpeer
    obtain ⟨orphan, hmem, rfl⟩ := hpeer
    rw [mem_filter] at hmem
    exact hack orphan hmem.1 (of_decide_eq_true hmem.2)
  unfold reapPeer
  split_ifs
  · exact hv
  · refine hv.teardownPeer.releaseOrphans fun x hx => ?_
    obtain ⟨⟨key, orphan⟩, hmem, rfl⟩ := mem_map.mp hx
    rw [mem_filter, decide_eq_true_eq] at hmem
    obtain ⟨hmem, rfl, -⟩ := hmem
    rw [Alike.teardownPeer.orphans] at hmem
    obtain ⟨o, hres, -⟩ := hv.books.orphans (OrdMap.mem_entries.mp hmem)
    exact hv.answered_teardown hacked hres

/-! ### Whole runs -/

theorem Orderly.callerGivesUp : (w.callerGivesUp o).Orderly := by
  unfold World.callerGivesUp
  split
  · exact h.answer
  · exact h

end

theorem orderly_handle {e : Event} (hfresh : w.fresh e = true) (hanswering : w.Answering (e, env))
    (hcalls : w.calls = 0) (h : w.Orderly) : (handle env w e).Orderly := by
  have hw : ({ w with calls := 0 } : World) = w := by rw [← hcalls]
  cases e with
  | submit o entries n =>
    exact onSubmit_rule closed_orderly (fun hv => hv.record rfl trivial)
      ⟨h.books.enter hfresh, trivial, h.order⟩
  | keyResponse from_ o entries => exact closed_orderly.onKeyResponse h
  | rdmaStatus from_ o entries =>
    refine (orderly_statuses env).onRdmaStatus closed_orderly ?_ h
    rw [← hw]
    exact hanswering
  | exit peer => exact h.onExit hanswering
  | tickDeadlines => exact closed_orderly.tickDeadlines h
  | tickOrphans =>
    refine h.tickOrphans ?_
    rw [hcalls]
    exact hanswering
  | callerGivesUp o => exact h.callerGivesUp
  | shutdown =>
    have hall : ((arrange (env.order w.calls) w.ops.keys).foldl (finalize env)
        w.next).Orderly :=
      foldl_keeps (h.quiet (Quiet.next w)) fun _ _ _ hv => closed_orderly.finalize hv
    exact hall.alike halted rfl
  | stop =>
    have hall : (w.callers.keys.foldl callerGivesUp w).Orderly :=
      foldl_keeps h fun _ _ _ hv => hv.callerGivesUp
    exact ⟨h.books.stop, hall.order⟩

/-- **Teardown before reclaim**: as long as a status that hits a slot is about that slot and comes
from its peer, and each teardown of a peer is acknowledged while the actor waits for it, no slot is
freed or advertised to another peer before the peer it was advertised to has reported on it or has
been severed. -/
theorem reclaimed_after_teardown {config : LookupConfig} {map : DispatchMap}
    {es : List (Event × Env)} (hrun : Run step Answering (new config map) es w) :
    Throughout TeardownFirst w.log := by
  refine (Run.invariant (I := Orderly) ⟨books_new config map, trivial⟩
    (fun v e u hv hok hstep => ?_) hrun).order
  obtain ⟨hfresh, rfl⟩ := step_eq_some hstep
  obtain ⟨e, env⟩ := e
  have hv' : ({ v with calls := 0 } : World).Orderly := hv.quiet (Quiet.calls 0)
  refine orderly_handle hfresh ?_ rfl hv'
  cases e <;> exact hok

/-! ### A peer that comes back to a key -/

/-- An operation asks for one key; the peer that has it in memory leaves and the slot is torn down;
the key is then asked of the peer that has it on disk. -/
def secondPeer : List (Event × Env) :=
  [(.submit 0 [(1, 4096)] 2, sampleEnv), (.keyResponse 7 0 [(1, 4096, .memory)], sampleEnv),
    (.keyResponse 8 0 [(1, 4096, .disk)], sampleEnv),
    (.exit 7, prompt)]

/-- The second peer cannot serve the key either; its slot is freed on its report. -/
theorem reclaimed_after_teardown_secondPeer :
    ∃ w, Run step Answering (new sampleConfig DispatchMap.empty)
      (secondPeer ++ [(.rdmaStatus 8 0 [(1, .keyNoLongerAvailable, some 1)], sampleEnv)]) w ∧
      (.freed 0 ∈ w.log ∧ .freed 1 ∈ w.log) ∧ Throughout TeardownFirst w.log := by
  refine exists_run_and_of_checkedExec (fun w => decide (.freed 0 ∈ w.log ∧ .freed 1 ∈ w.log))
    (by decide +kernel) fun hrun hw => ?_
  exact ⟨of_decide_eq_true hw, reclaimed_after_teardown hrun⟩

/-- The act ends the second peer's hold on its slot. -/
def endsSecond : Act → Bool
  | .reported 1 8 | .disconnect 8 _ => true
  | _ => false

/-- The second slot was freed while the second peer could still write it. -/
def freedEarly : List Act → Bool
  | .freed 1 :: past => past.inits.any fun since => past.tails.any fun earlier =>
    decide (past = since ++ .advertised 1 0 1 8 :: earlier) && since.all fun a => !endsSecond a
  | _ => false

/-- **A status of one peer frees the slot of another**: `onRdmaStatus` looks the slot up by operation
and key only, so the late report of the departed peer on its own slot frees the one the second peer
is being asked to fill. -/
theorem slot_freed_on_foreign_status :
    ∃ w, Run step HonestPeers (new sampleConfig DispatchMap.empty)
      (secondPeer ++ [(.rdmaStatus 7 0 [(1, .unableToConnect, some 0)], sampleEnv)]) w ∧
      ¬Throughout TeardownFirst w.log := by
  refine exists_run_and_of_checkedExec (fun w => w.log.tails.any freedEarly) (by decide +kernel)
    fun hrun hw horder => ?_
  obtain ⟨log, hlog, hfreed⟩ := any_eq_true.mp hw
  unfold freedEarly at hfreed
  split at hfreed
  next past =>
    have hanswered : Answered 1 past := horder.of_suffix ((mem_tails _ _).mp hlog)
    obtain ⟨since, -, hsince⟩ := any_eq_true.mp hfreed
    obtain ⟨earlier, -, hsplit⟩ := any_eq_true.mp hsince
    rw [Bool.and_eq_true, decide_eq_true_eq, all_eq_true] at hsplit
    -- the second peer has neither reported nor been disconnected since
    rcases hanswered since earlier 0 1 8 hsplit.1 with h | ⟨i, h⟩
    · exact absurd (hsplit.2 _ h) (by simp [endsSecond])
    · exact absurd (hsplit.2 (.disconnect 8 i) (h.subset (by simp))) (by simp [endsSecond])
  next => cases hfreed

end World

end Certus.RemoteLookup
