import Certus.Lib.History
import Certus.TransferEndpoint.Turns

/-! # No landing slot is given back while its peer can still write

The slots of a fetch are the caller's again once its callback has an error, and all slots of a peer
once `Disconnect` answers `Ok`. Until then every link on which a chunk of the fetch was posted must be
out of reach of the peer.

* **`World.sealed_before_failing`** — in every run whose steps meet the condition nothing is given
  back early.

Without the condition two paths end a fetch on a link in service. A refusal of a chunk does so on
purpose, the peer having acted on nothing. And `shutdown` ends the fetches of every peer it finds them
for, also of those whose teardown has just failed. -/

namespace Certus.TransferEndpoint.Actor

open Table List World Entry

/-- No write can land through the link any more. -/
def Sealed (log : List Act) (link : LinkId) : Prop :=
  (.forced link ∈ log ∨ .closed link ∈ log) ∧ .drained link ∈ log

theorem Sealed.append {log : List Act} {link : LinkId} (h : Sealed log link) (acts : List Act) :
    Sealed (acts ++ log) link :=
  ⟨h.1.imp (mem_append_right _) (mem_append_right _), mem_append_right _ h.2⟩

namespace Barrier

/-- A fetch ends with an error only when every link a chunk of it was posted on is sealed, and
`Disconnect` answers `Ok` only when every link to the peer that had a chunk is. -/
def Allowed (past : List Act) : Act → Prop
  | .called (.fetch id) (.err _) => ∀ p link, .posted id p link ∈ past → Sealed past link
  | .disconnected p => ∀ id link, .posted id p link ∈ past → Sealed past link
  | _ => True

/-- The condition: a message does not refuse a chunk of ours, and a shutdown finds a transport that
lets the teardown of every peer with a fetch in progress succeed. -/
def Guard (w : World) : World.Event → Prop
  | .recv _ (some (.error (some (_, true, _)))) _ => False
  | .shutdown io _ => ∀ id < w.nextFetch, ∀ f ∈ w.fetches id,
      TeardownOk w.table f.peer (io f.peer).toError (io f.peer).drain
  | _ => True

instance : ∀ (w : World) (e : World.Event), Decidable (Guard w e)
  | w, .shutdown io _ => inferInstanceAs (Decidable (∀ id < w.nextFetch, ∀ f ∈ w.fetches id,
      TeardownOk w.table f.peer (io f.peer).toError (io f.peer).drain))
  | _, .recv _ (some (.error (some (_, true, _)))) _ => isFalse id
  | _, .recv _ (some (.error (some (_, false, _)))) _ => isTrue trivial
  | _, .recv _ (some (.error none)) _ => isTrue trivial
  | _, .recv _ (some (.unreadable _)) _ => isTrue trivial
  | _, .recv _ (some (.hello _)) _ => isTrue trivial
  | _, .recv _ (some (.helloReply _)) _ => isTrue trivial
  | _, .recv _ (some (.fetchReply _ _)) _ => isTrue trivial
  | _, .recv _ (some (.fetch _ _)) _ => isTrue trivial
  | _, .recv _ none _ => isTrue trivial
  | _, .arrive _ | _, .fetch _ _ _ | _, .push _ _ _ | _, .disconnect _ _ | _, .deadline _ _ _
  | _, .poll | _, .handle _ | _, .polled | _, .pump _ | _, .pumped | _, .sendFetch _
  | _, .readDone _ _ | _, .retry _ _ | _, .resolve _ _ | _, .postReady _ _ | _, .completion _ _ _
  | _, .flush _ _ _ | _, .tear _ | _, .tearIncompatible _ | _, .advanced => isTrue trivial

/-! ## Steps that change nothing here -/

/-- The act posts no chunk and gives nothing back. -/
def Harmless : Act → Prop
  | .posted _ _ _ => False
  | .called (.fetch _) (.err _) => False
  | .disconnected _ => False
  | _ => True

theorem Harmless.allowed {a : Act} (h : Harmless a) (past : List Act) : Allowed past a := by
  cases a with
  | called r result =>
    cases r with
    | fetch id =>
      cases result with
      | ok outcomes => trivial
      | err why => exact h.elim
    | push id => trivial
  | disconnected p => exact h.elim
  | _ => trivial

theorem harmless_of_linkActs {acts : List Act} (h : LinkActs acts) : ∀ a ∈ acts, Harmless a := by
  intro a ha
  obtain ⟨link, rfl | rfl | rfl⟩ := h a ha <;> trivial

/-- An attempt of ours excludes every other link to the peer. -/
def Lone (e : Entry) : Prop := e.pending.isSome → e.live = none ∧ e.draining = []

/-- An entry keeps its links, and an attempt stays alone. -/
def Grows (e e' : Entry) : Prop := e.links ⊆ e'.links ∧ (Lone e → Lone e')

theorem Grows.refl (e : Entry) : Grows e e := ⟨List.Subset.refl _, fun h => h⟩

theorem Grows.trans {e e' e'' : Entry} (h : Grows e e') (h' : Grows e' e'') : Grows e e'' :=
  ⟨List.Subset.trans h.1 h'.1, fun hlone => h'.2 (h.2 hlone)⟩

/-- The entry of one peer changes, and grows. -/
theorem grows_of_put {t t' : Table} {p : PeerId} {e : Entry}
    (hentry : ∀ q, t'.entry q = if q = p then e else t.entry q) (h : Grows (t.entry p) e)
    (q : PeerId) : Grows (t.entry q) (t'.entry q) := by
  rw [hentry]
  by_cases hq : q = p
  · rw [if_pos hq, hq]
    exact h
  · rw [if_neg hq]
    exact Grows.refl _

/-- The step takes no link out of the table, posts no chunk and gives nothing back. -/
structure Calm (w w' : World) : Prop where
  log : ∃ acts, w'.log = acts ++ w.log ∧ ∀ a ∈ acts, Harmless a
  entry : ∀ p, Grows (w.table.entry p) (w'.table.entry p)
  fetches : ∀ id f', w'.fetches id = some f' → ∃ f, w.fetches id = some f ∧ Keeps f f'
  next : w'.nextFetch = w.nextFetch
  queued : ∀ p c' context id k, w'.conns p = some c' → .fetch context id k ∈ c'.outbox →
    ∃ c, w.conns p = some c ∧ .fetch context id k ∈ c.outbox
  failed : ∀ p r, .failed p r ∈ w'.events → .failed p r ∈ w.events

namespace Calm

variable {w w' w'' : World}

theorem refl (w : World) : Calm w w where
  log := ⟨[], rfl, fun _ ha => by cases ha⟩
  entry _ := Grows.refl _
  fetches _ f h := ⟨f, h, rfl, rfl⟩
  next := rfl
  queued _ c _ _ _ hc hm := ⟨c, hc, hm⟩
  failed _ _ h := h

theorem trans (h : Calm w w') (h' : Calm w' w'') : Calm w w'' where
  log := by
    obtain ⟨acts, hlog, hacts⟩ := h.log
    obtain ⟨acts', hlog', hacts'⟩ := h'.log
    refine ⟨acts' ++ acts, by rw [hlog', hlog, append_assoc], fun a ha => ?_⟩
    exact (mem_append.mp ha).elim (hacts' a) (hacts a)
  entry p := (h.entry p).trans (h'.entry p)
  fetches id f'' hf'' := by
    obtain ⟨f', hf', hkeeps'⟩ := h'.fetches id f'' hf''
    obtain ⟨f, hf, hkeeps⟩ := h.fetches id f' hf'
    exact ⟨f, hf, hkeeps'.peer.trans hkeeps.peer, hkeeps'.refused.trans hkeeps.refused⟩
  next := h'.next.trans h.next
  queued p c'' context id k hc'' hm'' := by
    obtain ⟨c', hc', hm'⟩ := h'.queued p c'' context id k hc'' hm''
    exact h.queued p c' context id k hc' hm'
  failed p r hp := h.failed p r (h'.failed p r hp)

/-- A step that leaves the table, the fetches, the connections and the reports alone. -/
theorem of_eq (htable : w'.table = w.table) (hfetches : w'.fetches = w.fetches)
    (hnext : w'.nextFetch = w.nextFetch) (hconns : w'.conns = w.conns)
    (hevents : w'.events = w.events) : Calm w w' where
  log := ⟨[], by rw [World.log, htable]; rfl, fun _ ha => by cases ha⟩
  entry p := by rw [htable]; exact Grows.refl _
  fetches id f h := ⟨f, by rwa [← hfetches], rfl, rfl⟩
  next := hnext
  queued p c _ _ _ hc hm := ⟨c, by rwa [← hconns], hm⟩
  failed p r h := by rwa [← hevents]

theorem record (w : World) {a : Act} (ha : Harmless a) : Calm w (w.record a) :=
  { refl w with
    log := ⟨[a], rfl, fun b hb => by rw [mem_singleton.mp hb]; exact ha⟩ }

theorem setPush (w : World) (id : ℕ) (q : Option Push) : Calm w (w.setPush id q) :=
  of_eq rfl rfl rfl rfl rfl

theorem abort (w : World) : Calm w w.abort :=
  of_eq rfl rfl rfl rfl rfl

variable {p : PeerId} {id : ℕ}

/-- A connection gets other accounts and messages, no chunk among the new ones. -/
theorem setConn {c c' : Conn} (hc : w.conns p = some c)
    (hout : ∀ context id k, .fetch context id k ∈ c'.outbox → .fetch context id k ∈ c.outbox) :
    Calm w (w.setConn p (some c')) :=
  { refl w with
    queued := by
      intro q d context id k hd hm
      by_cases hq : q = p
      · subst hq
        rw [conns_setConn_self] at hd
        cases hd
        exact ⟨c, hc, hout context id k hm⟩
      · rw [conns_setConn_of_ne _ _ hq] at hd
        exact ⟨d, hd, hm⟩ }

/-- A connection is forgotten, or starts with no chunk queued. -/
theorem setConn_new (w : World) (p : PeerId) {c' : Option Conn}
    (hout : ∀ d context id k, c' = some d → .fetch context id k ∉ d.outbox) :
    Calm w (w.setConn p c') :=
  { refl w with
    queued := by
      intro q d context id k hd hm
      by_cases hq : q = p
      · subst hq
        rw [conns_setConn_self] at hd
        exact absurd hm (hout d context id k hd)
      · rw [conns_setConn_of_ne _ _ hq] at hd
        exact ⟨d, hd, hm⟩ }

/-- A fetch changes, with its peer the same and nothing refused, or goes. -/
theorem setFetch {f : Fetch} (hf : w.fetches id = some f) {f' : Option Fetch}
    (hkeeps : ∀ g, f' = some g → Keeps f g) :
    Calm w (w.setFetch id f') :=
  { refl w with
    fetches := by
      intro j g hg
      by_cases hj : j = id
      · subst hj
        rw [fetches_setFetch_self] at hg
        exact ⟨f, hf, hkeeps g hg⟩
      · rw [fetches_setFetch_of_ne _ _ hj] at hg
        exact ⟨g, hg, rfl, rfl⟩ }

theorem setSlab {l : Live} (hl : (w.table.entry p).live = some l) (slab : List Work) :
    Calm w (w.setSlab p l slab) :=
  { refl w with
    entry := by
      refine grows_of_put (fun q => entry_put _ p q _) ⟨?_, fun hlone h => ?_⟩
      · rw [Entry.links, Entry.links, hl]
        exact List.Subset.refl _
      · cases hl.symm.trans (hlone h).1 }

section

variable (w : World)

theorem settle (work : Work) (ok : Bool) : Calm w (settle w work ok) := by
  obtain ⟨pushes, aborted, h⟩ := settle_eq w work ok
  rw [h]
  exact of_eq rfl rfl rfl rfl rfl

theorem settleAll (ok : ℕ → Bool) (i : ℕ) (works : List Work) : Calm w (settleAll ok i works w) :=
  settleAll_rule (P := Calm w) (fun v work ok h => h.trans (settle v work ok)) ok works i w (refl w)

theorem finishOne (id : ℕ) : Calm w (w.finishOne id) := by
  have hcase := finishOne_cases w id
  generalize w.finishOne id = w' at hcase ⊢
  cases hcase with
  | gone => exact refl w
  | called => exact (setPush w id none).trans (record _ trivial)
  | orphan => exact setPush w id none
  | broke => exact (setPush w id none).trans (abort _)
  | answered q context request hconn =>
    refine (setPush w id none).trans (trans (setConn hconn ?_) (record _ ?_))
    · intro context id k hm
      exact (mem_cons.mp hm).resolve_left fun h => by cases h
    · trivial

theorem finishDone : Calm w w.finishDone :=
  finishDone_rule (P := Calm w) (fun v id h => h.trans (finishOne v id)) (refl w)

theorem failPushes (p : PeerId) : Calm w (w.failPushes p) := by
  rw [World.failPushes]
  refine trans ?_ (finishDone _)
  exact of_eq rfl rfl rfl rfl rfl

end

theorem fault (w : World) (p : PeerId) (f : Option Fault) : Calm w (w.fault p f) := by
  cases f with
  | none => exact refl w
  | some f => cases f <;> exact of_eq rfl rfl rfl rfl rfl

/-- Work on a push. -/
theorem work (h : World.WorkCase w w') : Calm w w' := by
  cases h with
  | edited => exact of_eq rfl rfl rfl rfl rfl
  | failed id q p => exact (setPush w _ _).trans (fault _ _ _)
  | @posted p l id q slab hl =>
    have hlive : ((w.setPush id (some q)).table.entry p).live = some l := live_of_upLink hl
    exact (setPush w _ _).trans (setSlab hlive _)

theorem collectReads (results : ℕ → ReadResult) (n : ℕ) (w : World) :
    Calm w (collectReads results n w) := by
  induction n generalizing w with
  | zero => exact refl w
  | succ n ih => exact (work (onReadDone_cases w 0 (results n))).trans (ih _)

/-- A fetch none of whose chunks is refused gets its outcomes. -/
theorem completeFetch {f f' : Fetch} (hf : w.fetches id = some f) (hrefused : f'.refused = none) :
    Calm w (w.completeFetch id f') := by
  rw [World.completeFetch, hrefused]
  dsimp only
  have hgone : Calm w (w.setFetch id none) := setFetch hf fun _ h => by cases h
  split_ifs
  · exact hgone.trans (record _ trivial)
  · exact hgone.trans (abort _)

theorem quenched (w : World) (p : PeerId) (io : World.TearIo) : Calm w (w.quenched p io) := by
  have htable : Calm w { w with table := (w.table.quench p io.toError io.drain).1 } :=
    { refl w with
      log := by
        obtain ⟨acts, hlog, hacts⟩ := exists_log_quench w.table p io.toError io.drain
        exact ⟨acts, hlog, harmless_of_linkActs hacts⟩
      entry := by
        obtain ⟨links, hlinks, hentry⟩ := entry_quench w.table p io.toError io.drain
        refine grows_of_put hentry ⟨?_, fun _ h => by cases h⟩
        show _ ⊆ links.map OpenLink.link
        rw [hlinks]
        exact (links_retired _).symm.subset }
  exact htable.trans ((settleAll _ _ _ _).trans (setConn_new _ _ fun _ _ _ _ h => by cases h))

end Calm

/-! ## The invariant -/

/-- What holds in every state of a run that meets the condition. -/
structure Sound (w : World) : Prop where
  /-- Nothing was given back early. -/
  allowed : Throughout Allowed w.log
  /-- A link with a chunk is still in the table, or sealed. -/
  held : ∀ id p link, .posted id p link ∈ w.log → link ∈ (w.table.entry p).links ∨ Sealed w.log link
  /-- A chunk goes to the peer of its fetch. -/
  owner : ∀ id p link f, .posted id p link ∈ w.log → w.fetches id = some f → f.peer = p
  queued : ∀ p c context id k, w.conns p = some c → .fetch context id k ∈ c.outbox →
    id < w.nextFetch ∧ ∀ f, w.fetches id = some f → f.peer = p
  /-- Fetches are numbered in order. -/
  old : ∀ id p link, .posted id p link ∈ w.log → id < w.nextFetch
  fresh : ∀ id, w.nextFetch ≤ id → w.fetches id = none
  unrefused : ∀ id f, w.fetches id = some f → f.refused = none
  lone : ∀ p, Lone (w.table.entry p)
  /-- A connect that failed left no link behind. -/
  failed : ∀ p r, .failed p r ∈ w.events → ∀ id link, .posted id p link ∈ w.log → Sealed w.log link

/-- Every link to the peer that had a chunk is sealed. -/
def Quiet (w : World) (p : PeerId) : Prop :=
  ∀ id link, .posted id p link ∈ w.log → Sealed w.log link

variable {p : PeerId} {t : Table}

/-- A chunk in the log is not one of the harmless acts after it. -/
theorem posted_of_append {acts past : List Act} {id : ℕ} {link : LinkId}
    (hacts : ∀ a ∈ acts, Harmless a) (h : .posted id p link ∈ acts ++ past) :
    .posted id p link ∈ past :=
  (mem_append.mp h).resolve_left fun hmem => hacts _ hmem

theorem Quiet.calm {w w' : World} (h : Quiet w p) (hcalm : Calm w w') : Quiet w' p := by
  obtain ⟨acts, hlog, hacts⟩ := hcalm.log
  intro id link hposted
  rw [hlog] at hposted ⊢
  exact (h id link (posted_of_append hacts hposted)).append acts

namespace Sound

variable {w w' : World}

/-- **Calm steps.** They keep the invariant. -/
theorem calm (hs : Sound w) (h : Calm w w') : Sound w' := by
  obtain ⟨acts, hlog, hacts⟩ := h.log
  have hposted : ∀ {id p link}, .posted id p link ∈ w'.log → .posted id p link ∈ w.log := by
    intro id p link hmem
    rw [hlog] at hmem
    exact posted_of_append hacts hmem
  exact
    { allowed := by
        rw [hlog]
        exact hs.allowed.append fun a ha past => (hacts a ha).allowed past
      held := by
        intro id p link hmem
        refine (hs.held id p link (hposted hmem)).imp (fun hlink => (h.entry p).1 hlink) fun hsealed => ?_
        rw [hlog]
        exact hsealed.append acts
      owner := by
        intro id p link f' hmem hf'
        obtain ⟨f, hf, hkeeps⟩ := h.fetches id f' hf'
        exact hkeeps.peer.trans (hs.owner id p link f (hposted hmem) hf)
      queued := by
        intro p c' context id k hc' hm
        obtain ⟨c, hc, hm⟩ := h.queued p c' context id k hc' hm
        obtain ⟨hid, hpeer⟩ := hs.queued p c context id k hc hm
        refine ⟨by rw [h.next]; exact hid, fun f' hf' => ?_⟩
        obtain ⟨f, hf, hkeeps⟩ := h.fetches id f' hf'
        exact hkeeps.peer.trans (hpeer f hf)
      old := by
        intro id p link hmem
        rw [h.next]
        exact hs.old id p link (hposted hmem)
      fresh := by
        intro id hid
        rw [h.next] at hid
        cases hf' : w'.fetches id with
        | none => rfl
        | some f' =>
          obtain ⟨f, hf, -⟩ := h.fetches id f' hf'
          rw [hs.fresh id hid] at hf
          cases hf
      unrefused := by
        intro id f' hf'
        obtain ⟨f, hf, hkeeps⟩ := h.fetches id f' hf'
        rw [hkeeps.refused]
        exact hs.unrefused id f hf
      lone := fun p => (h.entry p).2 (hs.lone p)
      failed := by
        intro p r hfailed id link hmem
        have hsealed := hs.failed p r (h.failed p r hfailed) id link (hposted hmem)
        rw [hlog]
        exact hsealed.append acts }

/-- A fetch whose links are sealed may fail. -/
theorem abortFetch (hs : Sound w) {id : ℕ} {a : Abort}
    (h : ∀ p link, .posted id p link ∈ w.log → Sealed w.log link) : Sound (w.abortFetch id a) := by
  have hfetches : ∀ j f, (w.abortFetch id a).fetches j = some f → w.fetches j = some f := by
    intro j f hf
    by_cases hj : j = id
    · subst hj
      cases (fetches_setFetch_self w j none).symm.trans hf
    · exact (fetches_setFetch_of_ne w none hj).symm.trans hf
  have hposted : ∀ {i p link}, .posted i p link ∈ (w.abortFetch id a).log →
      .posted i p link ∈ w.log := fun hmem =>
    (mem_cons.mp hmem).resolve_left fun h => by cases h
  exact
    { allowed := ⟨h, hs.allowed⟩
      held := fun i p link hmem => (hs.held i p link (hposted hmem)).imp (fun hlink => hlink)
        fun hsealed => hsealed.append [_]
      owner := fun i p link f hmem hf => hs.owner i p link f (hposted hmem) (hfetches i f hf)
      queued := fun p c context i k hc hm =>
        ⟨(hs.queued p c context i k hc hm).1, fun f hf =>
          (hs.queued p c context i k hc hm).2 f (hfetches i f hf)⟩
      old := fun i p link hmem => hs.old i p link (hposted hmem)
      fresh := by
        intro i hi
        cases hf : (w.abortFetch id a).fetches i with
        | none => rfl
        | some f => cases (hs.fresh i hi).symm.trans (hfetches i f hf)
      unrefused := fun i f hf => hs.unrefused i f (hfetches i f hf)
      lone := hs.lone
      failed := fun p r hfailed i link hmem =>
        (hs.failed p r hfailed i link (hposted hmem)).append [_] }

variable {p : PeerId}

theorem failFetches (hs : Sound w) (hquiet : Quiet w p) (cause : Cause) :
    Sound (w.failFetches p cause) ∧ Quiet (w.failFetches p cause) p := by
  refine failFetches_rule (P := fun v => Sound v ∧ Quiet v p) ?_ ⟨hs, hquiet⟩
  rintro v id f ⟨hv, hquiet⟩ hf rfl
  constructor
  · refine hv.abortFetch fun q link hposted => ?_
    obtain rfl := hv.owner id q link f hposted hf
    exact hquiet id link hposted
  · intro i link hposted
    exact (hquiet i link ((mem_cons.mp hposted).resolve_left fun h => by cases h)).append [_]

/-- A peer is cleared once its links are sealed: `v` is the state in which they are destroyed. -/
theorem cleared {v : World} (hs : Sound w) (hcalm : Calm w v) {t : Table}
    (htorn : TornDown w.table p t) :
    Sound { v with table := t } ∧ Quiet { v with table := t } p := by
  obtain ⟨acts, hlog, hlinkacts⟩ := htorn.log
  obtain ⟨acts', hlog', hacts'⟩ := hcalm.log
  have hacts := harmless_of_linkActs hlinkacts
  have hv := hs.calm hcalm
  have hlog : t.log = acts ++ w.log := hlog
  have hposted : ∀ {id q link}, .posted id q link ∈ t.log → .posted id q link ∈ w.log := by
    intro id q link hmem
    rw [hlog] at hmem
    exact posted_of_append hacts hmem
  have hback : ∀ {id q link}, .posted id q link ∈ w.log → .posted id q link ∈ v.log := by
    intro id q link hmem
    rw [hlog']
    exact mem_append_right _ hmem
  have hquiet : ∀ id link, .posted id p link ∈ t.log → Sealed t.log link := by
    intro id link hmem
    rcases hs.held id p link (hposted hmem) with hlink | hsealed
    · obtain ⟨hdrained, hclosed⟩ := htorn.done link hlink
      exact ⟨.inr hclosed, hdrained⟩
    · rw [hlog]
      exact hsealed.append acts
  refine ⟨{ hv with allowed := ?_, held := ?_, owner := ?_, old := ?_, lone := ?_, failed := ?_ },
    hquiet⟩
  · show Throughout Allowed t.log
    rw [hlog]
    exact hs.allowed.append fun a ha past => (hacts a ha).allowed past
  · intro id q link hmem
    by_cases hq : q = p
    · subst hq
      exact .inr (hquiet id link hmem)
    · refine (hs.held id q link (hposted hmem)).imp (fun hlink => ?_) fun hsealed => ?_
      · show link ∈ (t.entry q).links
        rw [htorn.entry, if_neg hq]
        exact hlink
      · show Sealed t.log link
        rw [hlog]
        exact hsealed.append acts
  · exact fun id q link f hmem hf => hv.owner id q link f (hback (hposted hmem)) hf
  · exact fun id q link hmem => hv.old id q link (hback (hposted hmem))
  · intro q
    rw [htorn.entry]
    split_ifs with hq
    · exact fun h => by cases h
    · exact hs.lone q
  · intro q r hfailed id link hmem
    show Sealed t.log link
    rw [hlog]
    exact (hs.failed q r (hcalm.failed q r hfailed) id link (hposted hmem)).append acts

/-- **Teardown.** It keeps the invariant, and when it succeeds every link to the peer that had a
chunk is sealed. -/
theorem teardownFor (hs : Sound w) (p : PeerId) (cause : Cause) (io : World.TearIo) :
    Sound (w.teardownFor p cause io).1 ∧
      ((w.teardownFor p cause io).2 → Quiet (w.teardownFor p cause io).1 p) := by
  have hcase := teardownFor_cases w p cause io
  generalize (w.teardownFor p cause io).1 = v, (w.teardownFor p cause io).2 = ok at hcase ⊢
  cases hcase with
  | down => exact ⟨hs, fun h => absurd h Bool.false_ne_true⟩
  | stopped => exact ⟨hs.calm (Calm.quenched w p io), fun h => absurd h Bool.false_ne_true⟩
  | @done t htorn =>
    obtain ⟨hcleared, hquiet⟩ := hs.cleared (Calm.quenched w p io) htorn
    have hcalm := Calm.failPushes (w.cleared p io t) p
    obtain ⟨hsound, hquiet⟩ :=
      Sound.failFetches (Sound.calm hcleared hcalm) (Quiet.calm hquiet hcalm) cause
    exact ⟨hsound, fun _ => hquiet⟩

end Sound

/-! ## Messages -/

namespace Calm

variable {w w' : World}

variable {p : PeerId}

theorem tuned {c c' : Conn} (hc : w.conns p = some c) (h : World.Tuned c c') :
    Calm w (w.setConn p (some c')) :=
  setConn hc fun _ _ _ hm => by
    rcases h _ hm with h | h | h
    · cases h
    · cases h
    · exact h

/-- A request gets its numbers. -/
theorem received (w : World) (request push n link : ℕ) :
    Calm w (World.record { w with nextRequest := request, nextPush := push } (.received n link)) := by
  have hnumber : Calm w { w with nextRequest := request, nextPush := push } :=
    of_eq rfl rfl rfl rfl rfl
  exact hnumber.trans (record _ trivial)

theorem onMessage (hs : Sound w) (p : PeerId) {m : World.Message}
    (hm : ∀ context why, m ≠ .error (some (context, true, why))) : Calm w (w.onMessage p m).1 := by
  have hcase := onMessage_cases w p m
  generalize w.onMessage p m = r at hcase ⊢
  cases hcase with
  | kept f => exact refl w
  | tuned hc htuned f => exact tuned hc htuned
  | broke hc htuned => exact trans (tuned hc htuned) (abort _)
  | refusal => exact absurd rfl (hm _ _)
  | @answer _ c c' id f f' hc htuned hf hkeeps =>
    have hconn := tuned hc htuned
    have hf₁ : (w.setConn p (some c')).fetches id = some f := hf
    rw [putFetch]
    split_ifs
    · exact hconn.trans (completeFetch hf₁ (hkeeps.refused.trans (hs.unrefused id f hf)))
    · refine hconn.trans (setFetch hf₁ fun g hg => ?_)
      cases hg
      exact hkeeps
  | @refusedRequest _ c s hc =>
    refine (received w _ w.nextPush _ c.link).trans
      (trans (setConn hc fun context id k hm => ?_) (record _ trivial))
    exact (mem_cons.mp hm).resolve_left fun h => by cases h
  | @served c context items hc =>
    refine (received w _ _ _ c.link).trans
      (trans (setConn hc ?_) ((setPush _ _ _).trans (finishDone _)))
    exact fun _ _ _ hm => hm

theorem repost (w : World) (p : PeerId) (ok : Bool) : Calm w (w.repost p ok) := by
  rw [World.repost]
  cases hl : w.upLink p with
  | none => exact refl w
  | some l =>
    dsimp only
    split_ifs
    · exact setSlab (live_of_upLink hl) _
    · exact refl w

theorem completion (h : World.CompletionCase w p w') : Calm w w' := by
  cases h with
  | write ok f hl hslab =>
    exact (setSlab (live_of_upLink hl) _).trans ((settle _ _ _).trans (fault _ _ _))
  | send hl hslab => exact setSlab (live_of_upLink hl) _

end Calm

namespace Sound

variable {w w' : World}

variable {p : PeerId}

section

variable (hs : Sound w)
include hs

theorem onRecv {m : Option World.Message}
    (hm : ∀ context why, m ≠ some (.error (some (context, true, why))))
    (h : World.RecvCase w p m w') : Sound w' := by
  cases h with
  | failed hl =>
    exact hs.calm ((Calm.setSlab (live_of_upLink hl) _).trans (Calm.fault _ p _))
  | @message l v m reposted hl hv =>
    have hv : Sound v := by
      rw [hv]
      exact hs.calm (Calm.setSlab (live_of_upLink hl) _)
    have hmessage : Calm v (v.onMessage p m).1 :=
      Calm.onMessage hv p fun context why heq => hm context why (congrArg some heq)
    exact hv.calm (hmessage.trans ((Calm.repost _ p _).trans (Calm.fault _ p _)))

/-! ## Chunks -/

/-- The next chunk of a fetch is queued on the connection of its peer. -/
theorem sendFetch {id : ℕ} (h : World.SendCase w id w') : Sound w' := by
  cases h with
  | @empty f f' hf hkeeps =>
    exact hs.calm (Calm.completeFetch hf (hkeeps.refused.trans (hs.unrefused id f hf)))
  | @waits f f' hf hkeeps =>
    refine hs.calm (Calm.setFetch hf fun g hg => ?_)
    cases hg
    exact hkeeps
  | @sent f f' c k s hf hkeeps hc =>
    have hkeep : Calm w (w.setFetch id (some (f'.setState k (.sent c.nextContext)))) :=
      Calm.setFetch hf fun g hg => by
        cases hg
        exact ⟨hkeeps.peer, hkeeps.refused⟩
    have hv := hs.calm hkeep
    refine { hv with queued := ?_ }
    intro p d context i j hd hm
    by_cases hp : p = f.peer
    · subst hp
      rw [conns_setConn_self] at hd
      cases hd
      rcases mem_append.mp hm with hm | hm
      · exact hv.queued f.peer c context i j hc hm
      · cases mem_singleton.mp hm
        refine ⟨?_, fun g hg => ?_⟩
        · by_contra hlt
          cases (hs.fresh id (Nat.le_of_not_lt hlt)).symm.trans hf
        · have heq : some (f'.setState k (.sent c.nextContext)) = some g :=
            (fetches_setFetch_self w id _).symm.trans hg
          cases heq
          exact hkeeps.peer
    · rw [conns_setConn_of_ne _ _ hp] at hd
      exact hv.queued p d context i j hd hm

/-- Chunks that leave an outbox are posted on the live link of its peer. -/
theorem recordPosted {link : LinkId} (hlink : link ∈ (w.table.entry p).links)
    (hunfailed : w.events = []) (sent : List Outgoing)
    (hsent : ∀ context id k, .fetch context id k ∈ sent →
      id < w.nextFetch ∧ ∀ f, w.fetches id = some f → f.peer = p) :
    Sound ((sent.filterMap (postedAct p link)).foldl record w) := by
  induction sent generalizing w with
  | nil => exact hs
  | cons m sent ih =>
    have hrest : ∀ context id k, .fetch context id k ∈ sent →
        id < w.nextFetch ∧ ∀ f, w.fetches id = some f → f.peer = p :=
      fun context id k hm => hsent context id k (mem_cons_of_mem _ hm)
    cases m with
    | hello | helloReply => exact ih hs hlink hunfailed hrest
    | refusal request =>
      cases request with
      | none => exact ih hs hlink hunfailed hrest
      | some request => exact ih (hs.calm (Calm.record w trivial)) hlink hunfailed hrest
    | reply context request outcomes =>
      exact ih (hs.calm (Calm.record w trivial)) hlink hunfailed hrest
    | fetch context id k =>
      obtain ⟨hid, howner⟩ := hsent context id k mem_cons_self
      refine ih ?_ hlink hunfailed hrest
      have hcases : ∀ {i q l}, .posted i q l ∈ (w.record (.posted id p link)).log →
          (i = id ∧ q = p ∧ l = link) ∨ .posted i q l ∈ w.log := by
        intro i q l hmem
        rcases mem_cons.mp hmem with heq | hmem
        · cases heq
          exact .inl ⟨rfl, rfl, rfl⟩
        · exact .inr hmem
      refine
        { hs with
          allowed := ⟨trivial, hs.allowed⟩
          held := ?_
          owner := ?_
          old := ?_
          failed := ?_ }
      · intro i q l hmem
        rcases hcases hmem with ⟨-, rfl, rfl⟩ | hmem
        · exact .inl hlink
        · exact (hs.held i q l hmem).imp (fun h => h) fun h => h.append [_]
      · intro i q l f hmem hf
        rcases hcases hmem with ⟨rfl, rfl, -⟩ | hmem
        · exact howner f hf
        · exact hs.owner i q l f hmem hf
      · intro i q l hmem
        rcases hcases hmem with ⟨rfl, -, -⟩ | hmem
        · exact hid
        · exact hs.old i q l hmem
      · intro q r hfailed
        have hnil : TableEvent.failed q r ∈ w.events := hfailed
        rw [hunfailed] at hnil
        cases hnil

theorem flushOutbox (hunfailed : w.events = []) (h : World.FlushCase w p w') : Sound w' := by
  cases h with
  | stuck f => exact hs.calm (Calm.fault w p f)
  | @posted c l n f hc hl =>
    have hlive := live_of_upLink hl
    have hslab := Calm.setSlab hlive (l.slab ++ List.replicate (c.outbox.take n).length Work.send)
    have hdrop : ∀ context id k, .fetch context id k ∈ c.outbox.drop n →
        .fetch context id k ∈ c.outbox := fun _ _ _ hm => mem_of_mem_drop hm
    have hcalm := hslab.trans (Calm.setConn (show (w.setSlab p l _).conns p = some c from hc)
      (show ∀ context id k, .fetch context id k ∈ Conn.outbox { c with
        outbox := c.outbox.drop n } → _ from hdrop))
    have hlink : l.link ∈ (w.table.entry p).links := by
      rw [links, hlive]
      exact mem_cons_self
    refine (recordPosted (hs.calm hcalm) ((hcalm.entry p).1 hlink) hunfailed (c.outbox.take n)
      fun context id k hm => ?_).calm (Calm.fault _ p f)
    exact hs.queued p c context id k hc (mem_of_mem_take hm)

end

end Sound

/-! ## Connections -/

theorem grows_dropPending (t : Table) (p q : PeerId) :
    Grows (t.entry q) ((t.dropPending p).entry q) :=
  grows_of_put (entry_dropPending t p)
    ⟨List.Subset.refl _, fun _ h => by cases h⟩ q

theorem grows_retire {l : Live} (hl : (t.entry p).live = some l) (r : ToError) (q : PeerId) :
    Grows (t.entry q) ((t.retire p l r).entry q) := by
  refine grows_of_put (fun q => entry_retire t p q l r) ⟨?_, fun hlone h => ?_⟩ q
  · rw [links, links, hl]
    intro link hlink
    rcases mem_append.mp hlink with hlink | hlink
    · rw [mem_singleton.mp hlink]
      exact mem_map.mpr ⟨_, mem_append_right _ mem_cons_self, rfl⟩
    · obtain ⟨d, hd, rfl⟩ := mem_map.mp hlink
      exact mem_map.mpr ⟨d, mem_append_left _ hd, rfl⟩
  · cases hl.symm.trans (hlone h).1

/-- An accepted link joins those that wait for the drain; no attempt of ours is left. -/
theorem grows_accept (hlive : (t.entry p).live = none) (hpending : (t.entry p).pending = none)
    (io : Option ℕ) (q : PeerId) : Grows (t.entry q) ((t.accept p io).entry q) := by
  cases io with
  | none => exact Grows.refl _
  | some recvs =>
    refine grows_of_put (fun q => entry_accept t p q recvs) ⟨?_, fun _ h => ?_⟩ q
    · rw [links, links, hlive]
      exact fun link hlink => mem_cons_of_mem _ hlink
    · rw [hpending] at h
      cases h

namespace Sound

variable {w w' : World}

variable {out : List TableEvent} {t : Table} {p : PeerId} {items : ℕ}

section

variable (hs : Sound w)
include hs

/-- The table changes, with reports that name no failed connect. -/
theorem table (hlog : ∃ acts, t.log = acts ++ w.table.log ∧ LinkActs acts)
    (hgrows : ∀ q, Grows (w.table.entry q) (t.entry q)) (hout : ∀ p r, .failed p r ∉ out)
    (incoming : List TransportEvent) :
    Sound { w.withTable t with incoming := incoming, events := w.events ++ out } :=
  hs.calm { Calm.refl w with
    log := by
      obtain ⟨acts, hlog, hacts⟩ := hlog
      exact ⟨acts, hlog, harmless_of_linkActs hacts⟩
    entry := hgrows
    failed := fun p r h => (mem_append.mp h).resolve_right (hout p r) }

/-- With an attempt of ours under way, every link to the peer that had a chunk is sealed. -/
theorem quiet_of_pending {pd : OpenLink} (h : (w.table.entry p).pending = some pd) : Quiet w p := by
  obtain ⟨hlive, hdraining⟩ := hs.lone p (by rw [h]; rfl)
  intro id link hposted
  refine (hs.held id p link hposted).resolve_left fun hlink => ?_
  rw [links, hlive, hdraining] at hlink
  cases hlink

/-- **Events of the transport.** -/
theorem handled {io : HandleIo} (h : Handled w.table io t out) (incoming : List TransportEvent) :
    Sound { w.withTable t with incoming := incoming, events := w.events ++ out } := by
  have hsame : ∃ acts, w.table.log = acts ++ w.table.log ∧ LinkActs acts :=
    ⟨[], rfl, fun _ ha => by cases ha⟩
  have hput : ∀ p e, ∃ acts, (w.table.put p e).log = acts ++ w.table.log ∧ LinkActs acts :=
    fun _ _ => hsame
  have hstay : ∀ q, Grows (w.table.entry q) (w.table.entry q) := fun q => Grows.refl _
  cases h with
  | ignored | refused => exact hs.table hsame hstay (by simp) _
  | @dropped p pd reason hpending =>
    have hquiet := hs.quiet_of_pending hpending
    have hv := hs.table (exists_log_dropPending w.table p) (grows_dropPending w.table p)
      (show ∀ p r, TableEvent.failed p r ∉ [] by simp) incoming
    refine { hv with failed := ?_ }
    intro q r hfailed id link hposted
    rcases mem_append.mp hfailed with hfailed | hfailed
    · exact hv.failed q r (mem_append_left _ hfailed) id link hposted
    · cases mem_singleton.mp hfailed
      obtain ⟨acts, hlog, hacts⟩ := exists_log_dropPending w.table p
      have hposted : .posted id p link ∈ (w.table.dropPending p).log := hposted
      show Sealed (w.table.dropPending p).log link
      rw [hlog] at hposted ⊢
      exact (hquiet id link (posted_of_append (harmless_of_linkActs hacts) hposted)).append acts
  | lost p =>
    exact hs.table (exists_log_dropPending w.table p) (grows_dropPending w.table p) (by simp) _
  | @accepted p hlive =>
    have hentry := entry_dropPending w.table p p
    rw [if_pos rfl] at hentry
    refine hs.table ?_ (fun q => (grows_dropPending w.table p q).trans
      (grows_accept (by rw [hentry]; exact hlive) (by rw [hentry]) io.accept q)) (by simp) _
    cases io.accept <;> exact exists_log_dropPending w.table p
  | @replaced p l hlive =>
    have hpending : (w.table.entry p).pending = none := by
      cases hp : (w.table.entry p).pending with
      | none => rfl
      | some pd => cases hlive.symm.trans (hs.lone p (by rw [hp]; rfl)).1
    have hentry := entry_retire w.table p p l .done
    rw [if_pos rfl] at hentry
    refine hs.table ?_ (fun q => (grows_retire hlive .done q).trans
      (grows_accept (by rw [hentry]) (by rw [hentry]; exact hpending) io.accept q)) (by simp) _
    cases io.accept <;> exact exists_log_retire w.table p l .done
  | @raised p l hlive =>
    have hgrows : Grows (w.table.entry p)
        { w.table.entry p with live := some { l with up := true } } := by
      refine ⟨?_, fun hlone h => ?_⟩
      · rw [links, links, hlive]
        exact List.Subset.refl _
      · cases hlive.symm.trans (hlone h).1
    exact hs.table (hput _ _)
      (grows_of_put (fun q => entry_put _ p q _) hgrows) (by simp) _
  | @opened p pd hpending =>
    obtain ⟨hlive, hdraining⟩ := hs.lone p (by rw [hpending]; rfl)
    have hgrows : Grows (w.table.entry p) { w.table.entry p with
        pending := none, live := some ⟨pd.link, .localEnd, true, pd.slab⟩ } := by
      refine ⟨?_, fun _ h => by cases h⟩
      rw [links, hlive, hdraining]
      exact fun link h => by cases h
    exact hs.table (hput _ _)
      (grows_of_put (fun q => entry_put _ p q _) hgrows) (by simp) _
  | @downed p l hlive =>
    exact hs.table (exists_log_retire w.table p l .done) (grows_retire hlive .done) (by simp) _

theorem ensured {r : Except TableError Readiness} (h : Ensured w.table p (r, t)) :
    Sound (w.withTable t) ∧ t.log = w.table.log := by
  cases h with
  | refused | linked => exact ⟨by rw [withTable_self]; exact hs, rfl⟩
  | started recvs hlive hdraining =>
    refine ⟨hs.calm { Calm.refl w with entry := ?_ }, rfl⟩
    exact grows_of_put (fun q => entry_put _ p q _)
      ⟨List.Subset.refl _, fun _ _ => ⟨hlive, hdraining⟩⟩

/-! ## Commands -/

theorem askFetch (items : ℕ) : Sound (w.askFetch items) := by
  have hnumber : Sound { w with nextFetch := w.nextFetch + 1 } :=
    { hs with
      queued := fun p c context id k hc hm =>
        ⟨Nat.lt_succ_of_lt (hs.queued p c context id k hc hm).1,
          (hs.queued p c context id k hc hm).2⟩
      old := fun id p link h => Nat.lt_succ_of_lt (hs.old id p link h)
      fresh := fun id h => hs.fresh id (Nat.le_of_succ_le h) }
  exact hnumber.calm (Calm.record _ trivial)

theorem startFetch (h : World.FetchCase w p items w') : Sound w' := by
  have hv := hs.askFetch items
  -- the number is new: no chunk of it was posted, none is queued
  have hnew : ∀ q link, .posted w.nextFetch q link ∉ (w.askFetch items).log := by
    intro q link hmem
    have hold := hs.old _ q link ((mem_cons.mp hmem).resolve_left fun h => by cases h)
    exact Nat.lt_irrefl _ hold
  cases h with
  | failed a => exact hv.abortFetch fun q link hmem => absurd hmem (hnew q link)
  | @started r t hensured =>
    obtain ⟨hu, hlog⟩ := hv.ensured hensured
    refine { hu with owner := ?_, queued := ?_, fresh := ?_, unrefused := ?_ }
    · intro id q link f hposted hf
      by_cases hid : id = w.nextFetch
      · subst hid
        have hposted : .posted w.nextFetch q link ∈ t.log := hposted
        rw [hlog] at hposted
        exact absurd hposted (hnew q link)
      · rw [fetches_setFetch_of_ne _ _ hid] at hf
        exact hu.owner id q link f hposted hf
    · intro q c context id k hc hm
      have hlt := (hs.queued q c context id k hc hm).1
      refine ⟨Nat.lt_succ_of_lt hlt, fun f hf => ?_⟩
      rw [fetches_setFetch_of_ne _ _ (Nat.ne_of_lt hlt)] at hf
      exact (hs.queued q c context id k hc hm).2 f hf
    · intro id hid
      rw [fetches_setFetch_of_ne _ _ (Nat.ne_of_gt hid)]
      exact hu.fresh id hid
    · intro id f hf
      by_cases hid : id = w.nextFetch
      · subst hid
        rw [fetches_setFetch_self] at hf
        cases hf
        rfl
      · rw [fetches_setFetch_of_ne _ _ hid] at hf
        exact hu.unrefused id f hf

theorem startPush (h : World.PushCase w p items w') : Sound w' := by
  have hnumber : Calm w { w with nextPush := w.nextPush + 1 } :=
    Calm.of_eq rfl rfl rfl rfl rfl
  have hv : Sound (w.askPush items) := hs.calm (hnumber.trans (Calm.record _ trivial))
  cases h with
  | down e => exact hv.calm (Calm.record _ trivial)
  | refused => exact hv.calm ((Calm.setPush _ _ _).trans (Calm.failPushes _ p))
  | started hensured => exact (hv.ensured hensured).1.calm (Calm.setPush _ _ _)

/-- `Disconnect`. -/
theorem disconnect (p : PeerId) (io : World.TearIo) : Sound (w.disconnect p io) := by
  obtain ⟨hv, hquiet⟩ := hs.teardownFor p .lost io
  rw [World.disconnect]
  split_ifs with hok
  · have hquiet := hquiet hok
    exact
      { hv with
        allowed := ⟨hquiet, hv.allowed⟩
        held := fun id q link h =>
          (hv.held id q link ((mem_cons.mp h).resolve_left fun h => by cases h)).imp
            (fun h => h) fun h => h.append [_]
        owner := fun id q link f h hf =>
          hv.owner id q link f ((mem_cons.mp h).resolve_left fun h => by cases h) hf
        old := fun id q link h =>
          hv.old id q link ((mem_cons.mp h).resolve_left fun h => by cases h)
        failed := fun q r hfailed id link h => (hv.failed q r hfailed id link
          ((mem_cons.mp h).resolve_left fun h => by cases h)).append [_] }
  · exact hv

end

/-- The transport lets the teardown of every peer with a fetch in progress succeed. -/
def Ready (w : World) (io : PeerId → World.TearIo) : Prop :=
  ∀ id f, w.fetches id = some f → TeardownOk w.table f.peer (io f.peer).toError (io f.peer).drain

/-- Shutdown tears peers down one after the other; fetches are left only to peers it does not know,
whose entries are as before. -/
theorem tearAll (io : PeerId → World.TearIo) (ps : List PeerId) :
    ∀ v : World, Sound v → v.running → Ready v io →
      Sound (ps.foldl (fun w p => (w.teardownFor p .lost (io p)).1) v) ∧
      ∀ id f, (ps.foldl (fun w p => (w.teardownFor p .lost (io p)).1) v).fetches id = some f →
        v.fetches id = some f ∧ f.peer ∉ ps ∧
          (ps.foldl (fun w p => (w.teardownFor p .lost (io p)).1) v).table.entry f.peer
            = v.table.entry f.peer := by
  induction ps with
  | nil => exact fun v hv _ _ => ⟨hv, fun _ _ hf => ⟨hf, fun h => (by cases h), rfl⟩⟩
  | cons p ps ih =>
    intro v hv hrunning hready
    obtain ⟨hfetches, hgone⟩ := fetches_teardownFor v p .lost (io p) hv.fresh
    -- a fetch to the peer makes its teardown succeed, and then it is gone
    have hleft : ∀ id f, (v.teardownFor p .lost (io p)).1.fetches id = some f → f.peer ≠ p := by
      intro id f hf hpeer
      have hok := hready id f (hfetches id f hf)
      rw [hpeer] at hok
      exact hgone (teardownFor_of_ok .lost hrunning hok) id f hf hpeer
    have hrunning' : (v.teardownFor p .lost (io p)).1.running := by
      rw [(sameTurn_teardownFor v p .lost (io p)).running]
      exact hrunning
    obtain ⟨hsound, hrest⟩ := ih _ (hv.teardownFor p .lost (io p)).1 hrunning'
      fun id f hf => teardownOk_teardownFor .lost (hleft id f hf) (hready id f (hfetches id f hf))
    refine ⟨hsound, fun id f hf => ?_⟩
    obtain ⟨hmid, hnot, hentry⟩ := hrest id f hf
    have hpeer := hleft id f hmid
    exact ⟨hfetches id f hmid, fun h => (mem_cons.mp h).elim hpeer hnot,
      hentry.trans ((table_teardownFor v p .lost (io p)).1 _ hpeer)⟩

/-- A peer the table does not list has no link. -/
theorem entry_of_not_mem_keys (h : p ∉ t.entries.keys) : t.entry p = {} := by
  cases hget : t.entries.get? p with
  | none =>
    rw [Table.entry, hget]
    rfl
  | some e => exact absurd (OrdMap.mem_keys.mpr ⟨e, hget⟩) h

/-- The fetches that are left are those whose links are sealed. -/
def Stranded (w : World) : Prop :=
  ∀ id f, w.fetches id = some f → ∀ p link, .posted id p link ∈ w.log → Sealed w.log link

theorem Stranded.calm (h : Stranded w) (hcalm : Calm w w') : Stranded w' := by
  obtain ⟨acts, hlog, hacts⟩ := hcalm.log
  intro id f' hf' p link hposted
  obtain ⟨f, hf, -⟩ := hcalm.fetches id f' hf'
  rw [hlog] at hposted ⊢
  exact (h id f hf p link (posted_of_append hacts hposted)).append acts

theorem failStranded (ps : List PeerId) : ∀ v : World, Sound v → Stranded v →
    Sound (ps.foldl (fun w p => (w.failPushes p).failFetches p .lost) v) := by
  -- one fetch less: the others are as they were
  have habort : ∀ (u : World) id f a, Sound u ∧ Stranded u → u.fetches id = some f →
      Sound (u.abortFetch id a) ∧ Stranded (u.abortFetch id a) := by
    rintro u id f a ⟨hu, hleft⟩ hf
    refine ⟨hu.abortFetch fun q link => hleft id f hf q link, fun j g hg q link hposted => ?_⟩
    have hposted : .posted j q link ∈ u.log :=
      (mem_cons.mp hposted).resolve_left fun h => by cases h
    by_cases hj : j = id
    · subst hj
      cases (fetches_setFetch_self u j none).symm.trans hg
    · have hg : u.fetches j = some g := (fetches_setFetch_of_ne u none hj).symm.trans hg
      exact (hleft j g hg q link hposted).append [_]
  induction ps with
  | nil => exact fun v hv _ => hv
  | cons p ps ih =>
    intro v hv hstranded
    have hcalm := Calm.failPushes v p
    obtain ⟨hsound, hleft⟩ : Sound ((v.failPushes p).failFetches p .lost) ∧
        Stranded ((v.failPushes p).failFetches p .lost) :=
      failFetches_rule (P := fun u => Sound u ∧ Stranded u)
        (fun u id f hu hf _ => habort u id f _ hu hf) ⟨hv.calm hcalm, hstranded.calm hcalm⟩
    exact ih _ hsound hleft

/-- `Shutdown`. -/
theorem shutdown (hs : Sound w) (hrunning : w.running) (io : PeerId → World.TearIo)
    (results : ℕ → ReadResult) (hready : Ready w io) : Sound (w.shutdown io results) := by
  obtain ⟨htorn, hleft⟩ : Sound (w.tearDownAll io) ∧ _ :=
    tearAll io w.table.entries.keys w hs hrunning hready
  have hstranded : Stranded (w.tearDownAll io) := by
    intro id f hf p link hposted
    obtain ⟨-, hnot, hentry⟩ := hleft id f hf
    obtain rfl := htorn.owner id p link f hposted hf
    refine (htorn.held id f.peer link hposted).resolve_left fun hlink => ?_
    have hlink : link ∈ (w.table.entry f.peer).links := hentry ▸ hlink
    rw [entry_of_not_mem_keys hnot] at hlink
    cases hlink
  rw [World.shutdown]
  generalize w.tearDownAll io = v at htorn hstranded ⊢
  have hcalm := (Calm.collectReads results v.reads.length v).trans (Calm.finishDone _)
  generalize (collectReads results v.reads.length v).finishDone = u at hcalm ⊢
  have hend : Sound u.failStranded :=
    failStranded u.stranded u (htorn.calm hcalm) (hstranded.calm hcalm)
  exact { hend with }

/-! ## Every step -/

theorem onTableEvent (hs : Sound w) {ev : TableEvent} {events : List TableEvent}
    (hevents : w.events = ev :: events) (io : World.PumpIo) :
    Sound (World.onTableEvent { w with events := events } io ev) := by
  have hcalm : Calm w { w with events := events } :=
    { Calm.refl w with
      failed := fun p r h => by
        rw [hevents]
        exact mem_cons_of_mem _ h }
  have hv := hs.calm hcalm
  cases ev with
  | down p => exact (hv.teardownFor p .lost io.tear).1
  | failed p reason =>
    have hquiet : Quiet { w with events := events } p := fun id link hposted =>
      hs.failed p reason (by rw [hevents]; exact mem_cons_self) id link hposted
    have hpushes := Calm.failPushes { w with events := events } p
    exact ((hv.calm hpushes).failFetches (hquiet.calm hpushes) .lost).1
  | refusedInbound who reason => exact hv
  | lostTieBreak p => exact hv
  | up p =>
    generalize World.mk _ _ _ _ _ _ _ _ _ _ _ _ _ _ _ _ _ = v at hv ⊢
    have hbring : Sound (v.bringUp p io.posted).1 := by
      rw [bringUp]
      cases hl : v.upLink p with
      | none => exact hv
      | some l =>
        dsimp only
        have hslab := fun slab => Calm.setSlab (live_of_upLink hl) slab
        cases io.posted with
        | some n => exact hv.calm (hslab _)
        | none =>
          refine hv.calm ((hslab _).trans (Calm.setConn_new _ _ ?_))
          intro d context id k hd hm
          cases hd
          rcases mem_singleton.mp hm with ⟨⟩
    rw [World.onTableEvent]
    split_ifs
    · exact hbring
    · exact (hbring.teardownFor p .lost io.tear).1

/-- **One step.** -/
theorem step (hs : Sound w) (hturn : World.InTurn w) {e : World.Event} (hguard : Guard w e)
    (h : w.step e = some w') : Sound w' := by
  have hcase := step_cases h
  cases hcase with
  | arrived | polling | polled | pumped | skipped => exact { hs with }
  | fetched hfetch => exact hs.startFetch hfetch
  | pushed hpush => exact hs.startPush hpush
  | disconnected => exact hs.disconnect _ _
  | @shutDown io results hphase hrunning =>
    refine hs.shutdown hrunning io results fun id f hf => ?_
    have hlt : id < w.nextFetch := by
      by_contra hlt
      cases (hs.fresh id (Nat.le_of_not_lt hlt)).symm.trans hf
    exact hguard id hlt f hf
  | alreadyDown => exact hs
  | expired => exact (hs.teardownFor _ _ _).1
  | broke => exact hs.calm (Calm.abort w)
  | handled incoming hphase hhandled => exact hs.handled hhandled _
  | pump hphase hevents => exact hs.onTableEvent hevents _
  | sent hsend => exact hs.sendFetch hsend
  | worked hwork => exact hs.calm (Calm.work hwork)
  | completed hcompletion => exact hs.calm (Calm.completion hcompletion)
  | received hrecv =>
    refine hs.onRecv (fun context why heq => ?_) hrecv
    subst heq
    exact hguard
  | flush hphase hflush => exact hs.flushOutbox (hturn.idle (.inr hphase)) hflush
  | torn faulted p =>
    have hs' : Sound { w with faulted := faulted } := { hs with }
    exact (hs'.teardownFor _ _ _).1
  | tornIncompatible incompatible p why =>
    have hs' : Sound { w with incompatible := incompatible } := { hs with }
    exact (hs'.teardownFor _ _ _).1
  | advanced hphase =>
    have hdone := hs.calm (Calm.finishDone w)
    exact { hdone with }

theorem start (localPeer : PeerId) (limits : Limits) : Sound (start localPeer limits) where
  allowed := trivial
  held := fun _ _ _ h => by cases h
  owner := fun _ _ _ _ h => by cases h
  queued := fun _ _ _ _ _ h => by cases h
  old := fun _ _ _ h => by cases h
  fresh := fun _ _ => rfl
  unrefused := fun _ _ h => by cases h
  lone := fun _ h => by cases h
  failed := fun _ _ h => by cases h

end Sound

end Barrier

namespace World

open Barrier

/-- **No slot is given back early.** In every run in which no chunk is refused and no shutdown finds
a peer with a fetch whose teardown the transport does not let succeed, a fetch is called back with an
error, and `Disconnect` answers `Ok`, only after every link that a chunk was posted on has been put
into ERROR or destroyed, and drained. -/
theorem sealed_before_failing {localPeer : PeerId} {limits : Limits} {es : List Event} {w : World}
    (hrun : Run step Guard (start localPeer limits) es w) : Throughout Allowed w.log := by
  have hinv : Sound w ∧ InTurn w := by
    refine Run.invariant (I := fun w => Sound w ∧ InTurn w)
      ⟨Sound.start localPeer limits, InTurn.start localPeer limits⟩ ?_ hrun
    rintro v e v' ⟨hsound, hturn⟩ hguard hstep
    exact ⟨hsound.step hturn hguard hstep, hturn.step hstep⟩
  exact hinv.1.allowed

/-- A chunk of a fetch is posted; then the caller disconnects. -/
theorem sealed_before_failing_disconnect : ∃ w,
    Run step Guard (start 0 ⟨4, 4⟩) (.fetch 1 1 (.ok 8) :: establish 1 0 ++
      [.sendFetch 0, .flush 1 2 true, .advanced, .disconnect 1 smoothTear]) w ∧
    .posted 0 1 0 ∈ w.log ∧ .disconnected 1 ∈ w.log ∧ w.fetches 0 = none ∧
    Throughout Allowed w.log := by
  refine exists_run_and_of_checkedExec (fun w => decide (.posted 0 1 0 ∈ w.log ∧
    .disconnected 1 ∈ w.log ∧ w.fetches 0 = none)) (by decide +kernel) fun hrun hw => ?_
  obtain ⟨hposted, hdone, hgone⟩ := of_decide_eq_true hw
  exact ⟨hposted, hdone, hgone, sealed_before_failing hrun⟩

/-- The fetch was called back with an error while its link was in service. -/
def calledEarly : List Act → Bool
  | .called (.fetch 0) (.err _) :: past =>
    decide (.posted 0 1 0 ∈ past ∧ Act.forced 0 ∉ past ∧ Act.closed 0 ∉ past)
  | _ => false

/-- **A shutdown gives slots back that the peer can still write.** A chunk is posted, and at the
shutdown the link cannot be forced to ERROR: the teardown stops, and the fetch is called back with an
error all the same. -/
theorem not_sealed_at_shutdown : ∃ es w, Run step anyStep (start 0 ⟨4, 4⟩) es w ∧
    ¬Throughout Allowed w.log := by
  obtain ⟨w, hrun, hw⟩ := exists_run_of_exec (show (exec step (start 0 ⟨4, 4⟩)
    (.fetch 1 1 (.ok 8) :: establish 1 0 ++ [.sendFetch 0, .flush 1 2 true, .advanced,
      .shutdown (fun _ => ⟨.failed false, fun _ => none, fun _ => false⟩) fun _ => .failed])).any
    (fun w => calledEarly w.log) by decide +kernel)
  refine ⟨_, w, hrun, fun hall => ?_⟩
  unfold calledEarly at hw
  split at hw
  · next why past hlog =>
      obtain ⟨hposted, hforced, hclosed⟩ := of_decide_eq_true hw
      rw [hlog] at hall
      exact (hall.1 1 0 hposted).1.elim hforced hclosed
  · cases hw

end World

end Certus.TransferEndpoint.Actor
